import Mathlib.Algebra.Group.Int.Defs
import Mathlib.Algebra.Group.Nat.Defs
import Mathlib.Tactic.Common

/-!
This module contains what all of the native functions have in common: the ways in which a call can
end, reading and writing a buffer, and allocation.
-/

namespace Ddwaf

inductive ThrowableClass where
  | runtimeException
  | illegalArgumentException
  | outOfMemoryError
  | illegalStateException
  | unclassifiedWafException
  | bufferOverflowException
  | indexOutOfBoundsException
  | arrayIndexOutOfBoundsException
  | concurrentModificationException
  | other (name : String)
  deriving Repr, DecidableEq

structure Throwable where
  cls : ThrowableClass
  msg : String
  deriving Repr, DecidableEq

/--
How a native call ends when it does not return a value: with a Java exception pending, with a read
or write outside of an object or of one that is freed, with a `memcpy` of overlapping regions, or
not at all.
-/
inductive Stop where
  | thrown (exc : Throwable)
  | outOfBounds
  | useAfterFree
  | overlap
  | diverges
  deriving Repr, DecidableEq

abbrev Native := Except Stop

def throwRte (msg : String) : Native α :=
  .error (.thrown ⟨.runtimeException, msg⟩)

abbrev Alloc := Nat → Bool

def Alloc.total : Alloc := fun _ => true

def intMax : Nat := 2 ^ 31 - 1

def toInt32 (n : Int) : Int := n.bmod (2 ^ 32)

structure JString where
  units : List UInt16
  length_le : units.length ≤ intMax
  deriving DecidableEq

def uint32Max : Nat := 2 ^ 32 - 1

def sizeMax : Nat := 2 ^ 64 - 1

def subSize (a b : Nat) : Nat := (a + 2 ^ 64 - b) % 2 ^ 64

def subUint32 (a b : Nat) : Nat := (a + 2 ^ 32 - b) % 2 ^ 32

theorem subSize_of_le {a b : Nat} (h : b ≤ a) (ha : a < 2 ^ 64) : subSize a b = a - b := by
  unfold subSize
  omega

theorem subUint32_of_le {a b : Nat} (h : b ≤ a) (ha : a ≤ uint32Max) : subUint32 a b = a - b := by
  unfold uint32Max at ha
  unfold subUint32
  omega

def load (buf : List α) (i : Nat) : Native α :=
  match buf[i]? with
  | some a => .ok a
  | none => .error .outOfBounds

def loadRange (buf : List α) (i n : Nat) : Native (List α) :=
  if i + n ≤ buf.length then .ok ((buf.drop i).take n) else .error .outOfBounds

theorem loadRange_of_le {buf : List α} {i n : Nat} (h : i + n ≤ buf.length) :
    loadRange buf i n = .ok ((buf.drop i).take n) := by
  simp [loadRange, h]

def store (cap : Nat) (out units : List α) : Native (List α) :=
  if out.length + units.length ≤ cap then .ok (out ++ units) else .error .outOfBounds

theorem store_of_le {cap : Nat} {out units : List α} (h : out.length + units.length ≤ cap) :
    store cap out units = .ok (out ++ units) := by
  simp [store, h]

section Bind

variable {α : Type u} {β : Type u}

@[simp]
theorem pure_eq_ok (a : α) : (pure a : Native α) = .ok a := by
  rfl

@[simp]
theorem ok_bind (a : α) (f : α → Native β) : (Except.ok a >>= f) = f a := by
  rfl

@[simp]
theorem error_bind (e : Stop) (f : α → Native β) : ((Except.error e : Native α) >>= f) = .error e := by
  rfl

@[simp]
theorem ok_or (b : Bool) (x : Native Bool) :
    ((Except.ok b : Native Bool) <||> x) = if b then .ok true else x := by
  cases b <;> rfl

theorem bind_eq_ok {x : Native α} {f : α → Native β} {b : β} (h : x >>= f = .ok b) :
    ∃ a, x = .ok a ∧ f a = .ok b := by
  cases x with
  | error e => contradiction
  | ok a => exact ⟨a, rfl, h⟩

theorem exists_ok_of_isOk {x : Native α} (h : x.isOk = true) : ∃ a, x = .ok a := by
  cases x with
  | error e => contradiction
  | ok a => exact ⟨a, rfl⟩

end Bind

theorem load_drop (buf : List α) (pos i : Nat) : load (buf.drop pos) i = load buf (pos + i) := by
  simp [load, List.getElem?_drop]

end Ddwaf
