import Mathlib.Algebra.GroupWithZero.Nat
import Mathlib.Tactic.Common

/-!
This module contains the values that are exchanged with the native library.
-/

namespace Ddwaf

/--
An entry of a map has its `parameterName` in front. A floating point number is given by its bits.
-/
inductive DdwafObject where
  | invalid
  | signed (intValue : Int64)
  | unsigned (uintValue : UInt64)
  | string (stringValue : List UInt8)
  | array (array : List DdwafObject)
  | map (array : List (List UInt8 × DdwafObject))
  | bool (boolean : Bool)
  | float (f64 : UInt64)
  | null

namespace DdwafObject

@[elab_as_elim]
theorem ind {motive : DdwafObject → Prop} (invalid : motive .invalid)
    (signed : ∀ v, motive (.signed v)) (unsigned : ∀ v, motive (.unsigned v))
    (string : ∀ s, motive (.string s))
    (array : ∀ a, (∀ o ∈ a, motive o) → motive (.array a))
    (map : ∀ a, (∀ e ∈ a, motive e.2) → motive (.map a)) (bool : ∀ b, motive (.bool b))
    (float : ∀ v, motive (.float v)) (null : motive .null) (o : DdwafObject) : motive o := by
  apply @DdwafObject.rec motive (fun a => ∀ o ∈ a, motive o) (fun a => ∀ e ∈ a, motive e.2)
    (fun e => motive e.2)
  . exact invalid
  . exact signed
  . exact unsigned
  . exact string
  . exact array
  . exact map
  . exact bool
  . exact float
  . exact null
  . simp
  . intro o os ho hos
    exact List.forall_mem_cons.mpr ⟨ho, hos⟩
  . simp
  . intro e es he hes
    exact List.forall_mem_cons.mpr ⟨he, hes⟩
  . intro n o ho
    exact ho

mutual

def height : DdwafObject → Nat
  | .array a => heightArray a
  | .map a => heightMap a
  | _ => 0

def heightArray : List DdwafObject → Nat
  | [] => 0
  | o :: os => max (o.height + 1) (heightArray os)

def heightMap : List (List UInt8 × DdwafObject) → Nat
  | [] => 0
  | (_, o) :: es => max (o.height + 1) (heightMap es)

end

mutual

def all (p : DdwafObject → Bool) : DdwafObject → Bool
  | .array a => p (.array a) && allArray p a
  | .map a => p (.map a) && allMap p a
  | o => p o

def allArray (p : DdwafObject → Bool) : List DdwafObject → Bool
  | [] => true
  | o :: os => o.all p && allArray p os

def allMap (p : DdwafObject → Bool) : List (List UInt8 × DdwafObject) → Bool
  | [] => true
  | (_, o) :: es => o.all p && allMap p es

end

mutual

def count (p : DdwafObject → Bool) : DdwafObject → Nat
  | .array a => countArray p a
  | .map a => countMap p a
  | o => if p o then 1 else 0

def countArray (p : DdwafObject → Bool) : List DdwafObject → Nat
  | [] => 0
  | o :: os => o.count p + countArray p os

def countMap (p : DdwafObject → Bool) : List (List UInt8 × DdwafObject) → Nat
  | [] => 0
  | (_, o) :: es => o.count p + countMap p es

end

theorem heightArray_lt_iff {a : List DdwafObject} {n : Nat} :
    heightArray a < n + 1 ↔ ∀ o ∈ a, o.height < n := by
  induction a with
  | nil => simp [heightArray]
  | cons o os ih =>
    rw [heightArray, List.forall_mem_cons, ← ih, Nat.max_lt, Nat.add_lt_add_iff_right]

theorem heightMap_lt_iff {a : List (List UInt8 × DdwafObject)} {n : Nat} :
    heightMap a < n + 1 ↔ ∀ e ∈ a, e.2.height < n := by
  induction a with
  | nil => simp [heightMap]
  | cons e es ih =>
    rw [heightMap, List.forall_mem_cons, ← ih, Nat.max_lt, Nat.add_lt_add_iff_right]

@[simp]
theorem allArray_eq (p : DdwafObject → Bool) (a : List DdwafObject) :
    allArray p a = a.all fun o => o.all p := by
  induction a with
  | nil => rfl
  | cons o os ih => rw [allArray, ih, List.all_cons]

@[simp]
theorem allMap_eq (p : DdwafObject → Bool) (a : List (List UInt8 × DdwafObject)) :
    allMap p a = a.all fun e => e.2.all p := by
  induction a with
  | nil => rfl
  | cons e es ih => rw [allMap, ih, List.all_cons]

theorem countArray_eq (p : DdwafObject → Bool) (a : List DdwafObject) :
    countArray p a = (a.map fun o => o.count p).sum := by
  induction a with
  | nil => rfl
  | cons o os ih => rw [countArray, ih, List.map_cons, List.sum_cons]

theorem countMap_eq (p : DdwafObject → Bool) (a : List (List UInt8 × DdwafObject)) :
    countMap p a = (a.map fun e => e.2.count p).sum := by
  induction a with
  | nil => rfl
  | cons e es ih => rw [countMap, ih, List.map_cons, List.sum_cons]

end DdwafObject

end Ddwaf
