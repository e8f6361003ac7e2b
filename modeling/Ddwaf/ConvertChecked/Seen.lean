import Mathlib.Algebra.GroupWithZero.Nat
import Ddwaf.ByteBufferSerializer.Reference
import Ddwaf.ConvertChecked.Impl
import Ddwaf.Lib.Traverse
import Ddwaf.Native.Utf16Utf8.Lemmas.Checked

/-!
This module contains what a converter makes of a value when none of its limits is reached: the object
only depends on how the converter sees each of the objects in the value.
-/

namespace Ddwaf

mutual

/-- The records that libddwaf gives to an object: an entry of a map always has a name. -/
def DdwafObject.toPWArgs : DdwafObject → PWArgs
  | .invalid => .invalid
  | .signed intValue => .signed intValue
  | .unsigned uintValue => .unsigned uintValue
  | .string stringValue => .string stringValue
  | .array a => .array (toPWArgsArray a)
  | .map a => .map (toPWArgsMap a)
  | .bool boolean => .bool boolean
  | .float f64 => .float f64
  | .null => .null

def DdwafObject.toPWArgsArray : List DdwafObject → List PWArgs
  | [] => []
  | o :: os => o.toPWArgs :: toPWArgsArray os

def DdwafObject.toPWArgsMap : List (List UInt8 × DdwafObject) → List NamedPWArgs
  | [] => []
  | (name, o) :: es => (some name, o.toPWArgs) :: toPWArgsMap es

end

namespace DdwafObject

def toNamedPWArgs (e : List UInt8 × DdwafObject) : NamedPWArgs := (some e.1, e.2.toPWArgs)

theorem toPWArgs_array (a : List DdwafObject) : (array a).toPWArgs = .array (a.map toPWArgs) := by
  rw [toPWArgs]
  congr 1
  induction a with
  | nil => rfl
  | cons o os ih => rw [toPWArgsArray, ih, List.map_cons]

theorem toPWArgs_map (a : List (List UInt8 × DdwafObject)) :
    (map a).toPWArgs = .map (a.map toNamedPWArgs) := by
  rw [toPWArgs]
  congr 1
  induction a with
  | nil => rfl
  | cons e es ih =>
    rw [toPWArgsMap, ih, List.map_cons]
    rfl

end DdwafObject

/--
How a converter sees an object: a key or an element that it cannot get is not there, and a key that it
gets may be no name.
-/
inductive Seen (ρ : Type) where
  | leaf (o : PWArgs)
  | string (units : List UInt16)
  | array (elements : List (Option ρ))
  | map (entries : List (Option (Option (List UInt16)) × ρ))

namespace Seen

variable {ρ : Type}

def entry (item : ρ → Option PWArgs) (e : Option (Option (List UInt16)) × ρ) : Option NamedPWArgs :=
  e.1.bind fun key => (item e.2).map fun o => (key.map utf8, o)

def value (item : ρ → Option PWArgs) : Seen ρ → Option PWArgs
  | .leaf o => some o
  | .string units => some (.string (utf8 units))
  | .array elements => (elements.mapM fun e : Option ρ => e.bind item).map .array
  | .map entries => (entries.mapM (entry item)).map .map

def size (nodes : ρ → Nat) : Seen ρ → Nat
  | .leaf _ => 0
  | .string _ => 0
  | .array elements => (elements.map fun e : Option ρ => e.elim 1 nodes).sum
  | .map entries => (entries.map fun e => nodes e.2).sum

def Fits (fitsString : List UInt16 → Prop) (fits : Option ρ → Prop) : Seen ρ → Prop
  | .leaf _ => True
  | .string units => fitsString units
  | .array elements => ∀ e ∈ elements, fits e
  | .map entries => ∀ e ∈ entries, (∀ key, e.1 = some (some key) → fitsString key) ∧ fits (some e.2)

theorem Fits.imp {fitsString : List UInt16 → Prop} {fits fits' : Option ρ → Prop} {s : Seen ρ}
    (h : s.Fits fitsString fits) (himp : ∀ e, fits e → fits' e) : s.Fits fitsString fits' := by
  cases s with
  | leaf o => trivial
  | string units => exact h
  | array elements =>
    intro e he
    exact himp e (h e he)
  | map entries =>
    intro e he
    exact ⟨(h e he).1, himp _ (h e he).2⟩

variable (seen : ρ → Seen ρ)

def tree : Nat → ρ → Option PWArgs
  | 0, _ => none
  | level + 1, obj => (seen obj).value (tree level)

def nodes : Nat → ρ → Nat
  | 0, _ => 1
  | level + 1, obj => (seen obj).size (nodes level) + 1

def TreeFits (fitsString : List UInt16 → Prop) : Nat → ρ → Prop
  | 0, _ => False
  | level + 1, obj => (seen obj).Fits fitsString fun e =>
      0 < level ∧ ∀ child, e = some child → TreeFits fitsString level child

structure Small (fitsString : List UInt16 → Prop) (limits : WafLimits) (obj : ρ) : Prop where
  fits : TreeFits seen fitsString (limits.maxDepth + 1) obj
  nodes : nodes seen (limits.maxDepth + 1) obj ≤ limits.maxElements

theorem nodes_pos (level : Nat) (obj : ρ) : 1 ≤ nodes seen level obj := by
  cases level with
  | zero => exact Nat.le_refl 1
  | succ level => exact Nat.le_add_left ..

end Seen

def JavaKey.seenByConvert : JavaKey → Option (Option (List UInt16))
  | .null => none
  | .toString none => none
  | .toString (some s) => some (some s)
  | .throwing _ => none

def JavaKey.seenBySerialize : JavaKey → Option (Option (List UInt16))
  | .null => some (some [])
  | .toString s => some s
  | .throwing _ => none

namespace JavaObj

variable {ρ : Type}

def seenByConvert : JavaObj ρ → Seen ρ
  | .null => .leaf .null
  | .array primitive elements => .array (elements.map fun e => if primitive then none else some e)
  | .object ⟨some entries, _, _, _⟩ => .map (entries.map fun e => (e.1.seenByConvert, e.2))
  | .object ⟨none, some iterable, _, _⟩ => .array (iterable.elements.map some)
  | .string units => .string units
  | .object ⟨none, none, some units, _⟩ => .string units
  | .object ⟨none, none, none, some number⟩ => .leaf number.convert.toPWArgs
  | .boolean value => .leaf (.bool value)
  | .object ⟨none, none, none, none⟩ => .leaf (.map [])

def seenBySerialize : JavaObj ρ → Seen ρ
  | .null => .leaf .null
  | .string units => .string units
  | .object ⟨_, _, some units, _⟩ => .string units
  | .object ⟨_, _, none, some number⟩ => .leaf number.convert.toPWArgs
  | .array _ elements => .array (elements.map some)
  | .object ⟨_, some iterable, none, none⟩ => .array (iterable.elements.map some)
  | .object ⟨some entries, none, none, none⟩ => .map (entries.map fun e => (e.1.seenBySerialize, e.2))
  | .boolean value => .leaf (.bool value)
  | .object ⟨none, none, none, none⟩ => .leaf .null

end JavaObj

section Convert

variable {ρ : Type} {lims : WafLimits}

theorem javaToUtf8LimitedChecked_eq {str : List UInt16} (h : str.length ≤ lims.maxStringSize) :
    javaToUtf8LimitedChecked (some str) lims.maxStringSize = .ok (utf8 str) := by
  rw [javaToUtf8LimitedChecked, if_pos h]
  apply javaUtf16ToUtf8Checked_eq
  . intro n
    rfl
  . exact Nat.le_trans h lims.maxStringSize_le

theorem convertLoop_yields {item : α → Int → Native (β × Int)} {f : β → γ} {value : α → Option γ}
    {nodes : α → Nat} {elements : List α} {maxElements : Int} (hpos : ∀ a, 1 ≤ nodes a)
    (hitem : ∀ a ∈ elements, ∀ n : Int, nodes a ≤ n → Yields f (item a n) (value a) (n - nodes a))
    (hle : ((elements.map nodes).sum : Nat) ≤ maxElements) :
    Yields (List.map f) (convertLoop item elements maxElements) (elements.mapM value)
      (maxElements - ((elements.map nodes).sum : Nat)) := by
  induction elements generalizing maxElements with
  | nil => simp [convertLoop, Yields]
  | cons a rest ih =>
    obtain ⟨ha, hrest⟩ := List.forall_mem_cons.mp hitem
    rw [List.map_cons, List.sum_cons, Int.natCast_add] at hle ⊢
    have hpos_a := hpos a
    rw [convertLoop, if_neg (by omega), List.mapM_cons]
    apply Yields.bind (ha maxElements (by omega))
    intro b _
    have hrun : Yields (List.map f) (convertLoop item rest (maxElements - nodes a)) (rest.mapM value) _ :=
      ih hrest (by omega)
    apply Yields.bind hrun
    intro bs _
    apply (Yields.ok (List.map f) (b :: bs) _).congr
    omega

theorem convertCharSequence_yields {units : List UInt16} (h : units.length ≤ lims.maxStringSize)
    (n : Int) :
    Yields DdwafObject.toPWArgs (do return (← convertCharSequence lims units, n))
      (some (.string (utf8 units))) n := by
  rw [convertCharSequence, javaToUtf8LimitedChecked_eq h]
  exact Yields.ok DdwafObject.toPWArgs _ _

theorem convertEntry_yields {item : ρ → Int → Native (DdwafObject × Int)}
    {value : ρ → Option PWArgs} {entry : JavaKey × ρ} {n n' : Int}
    (hkey : ∀ key, entry.1.seenByConvert = some (some key) → key.length ≤ lims.maxStringSize)
    (hitem : Yields DdwafObject.toPWArgs (item entry.2 n) (value entry.2) n') :
    Yields DdwafObject.toNamedPWArgs (convertEntry lims item entry n)
      (Seen.entry value (entry.1.seenByConvert, entry.2)) n' := by
  obtain ⟨key, child⟩ := entry
  rw [convertEntry, Seen.entry]
  cases key with
  | null => exact Yields.error _ _ _
  | throwing exc => exact Yields.error _ _ _
  | toString s =>
    cases s with
    | none =>
      simp only [keyJstr, ok_bind]
      cases hvalue : value child with
      | none =>
        rw [hvalue] at hitem
        obtain ⟨e, he⟩ := hitem
        exact ⟨e, by rw [he]; rfl⟩
      | some p =>
        rw [hvalue] at hitem
        obtain ⟨o, ho, -⟩ := hitem
        exact ⟨.outOfBounds, by rw [ho]; rfl⟩
    | some s =>
      simp only [keyJstr, ok_bind, JavaKey.seenByConvert, Option.bind_some, Option.map_eq_bind]
      apply Yields.bind hitem
      intro o _
      rw [javaToUtf8LimitedChecked_eq (hkey s rfl)]
      exact Yields.ok DdwafObject.toNamedPWArgs _ _

theorem convertElementsOf_yields {wrap : List β → DdwafObject} {item : α → Int → Native (β × Int)}
    {f : β → γ} {wrap' : List γ → PWArgs} {value : α → Option γ} {nodes : α → Nat} {level : Nat}
    {elements : List α} {n : Int} (hwrap : ∀ a, (wrap a).toPWArgs = wrap' (a.map f)) (hpos : ∀ a, 1 ≤ nodes a)
    (hitem : ∀ a ∈ elements, 0 < level ∧
      ∀ n : Int, nodes a ≤ n → Yields f (item a n) (value a) (n - nodes a))
    (hle : ((elements.map nodes).sum : Nat) ≤ n) :
    Yields DdwafObject.toPWArgs (convertElementsOf wrap item level elements n)
      ((elements.mapM value).map wrap')
      (n - ((elements.map nodes).sum : Nat)) := by
  unfold convertElementsOf
  split
  . next h =>
    cases elements with
    | nil => simp [Yields, hwrap]
    | cons a rest =>
      have hlevel := (hitem a List.mem_cons_self).1
      omega
  . apply Yields.map _ hwrap
    apply convertLoop_yields hpos _ hle
    intro a ha
    exact (hitem a ha).2

section Value

variable {item : ρ → Int → Native (DdwafObject × Int)} {value : ρ → Option PWArgs}
variable {nodes : ρ → Nat} {fits : ρ → Prop} {level : Nat}

theorem convertValue_yields (hpos : ∀ r, 1 ≤ nodes r)
    (hitem : ∀ r, fits r → ∀ n : Int, nodes r ≤ n →
      Yields DdwafObject.toPWArgs (item r n) (value r) (n - nodes r))
    {obj : JavaObj ρ} {n : Int}
    (hfits : obj.seenByConvert.Fits (fun s => s.length ≤ lims.maxStringSize) fun e =>
      0 < level ∧ ∀ child, e = some child → fits child)
    (hle : obj.seenByConvert.size nodes ≤ n) :
    Yields DdwafObject.toPWArgs (convertValue lims item level obj n) (obj.seenByConvert.value value)
      (n - obj.seenByConvert.size nodes) := by
  unfold convertValue
  split
  . simp [JavaObj.seenByConvert, Seen.value, Seen.size, Yields, DdwafObject.toPWArgs]
  . next primitive elements =>
    simp only [JavaObj.seenByConvert, Seen.Fits, Seen.value, Seen.size, List.forall_mem_map,
      List.map_map, List.mapM_map] at hfits hle ⊢
    apply convertElementsOf_yields DdwafObject.toPWArgs_array
    . intro r
      cases primitive with
      | true => exact Nat.le_refl 1
      | false => exact hpos r
    . intro r hr
      refine ⟨(hfits r hr).1, ?_⟩
      intro n hn
      cases primitive with
      | true => exact Yields.error _ _ _
      | false => exact hitem r ((hfits r hr).2 r rfl) n hn
    . exact hle
  . next entries _ _ _ =>
    simp only [JavaObj.seenByConvert, Seen.Fits, Seen.value, Seen.size, List.forall_mem_map,
      List.map_map, List.mapM_map] at hfits hle ⊢
    apply convertElementsOf_yields DdwafObject.toPWArgs_map
    . intro e
      exact hpos e.2
    . intro e he
      obtain ⟨hkey, hlevel, hchild⟩ := hfits e he
      refine ⟨hlevel, ?_⟩
      intro n hn
      exact convertEntry_yields hkey (hitem e.2 (hchild e.2 rfl) n hn)
    . exact hle
  . next iterable _ _ =>
    simp only [JavaObj.seenByConvert, Seen.Fits, Seen.value, Seen.size, List.forall_mem_map,
      List.map_map, List.mapM_map] at hfits hle ⊢
    apply convertElementsOf_yields DdwafObject.toPWArgs_array hpos
    . intro r hr
      exact ⟨(hfits r hr).1, hitem r ((hfits r hr).2 r rfl)⟩
    . exact hle
  . next units =>
    exact (convertCharSequence_yields hfits n).congr (by simp [JavaObj.seenByConvert, Seen.size])
  . next units _ =>
    exact (convertCharSequence_yields hfits n).congr (by simp [JavaObj.seenByConvert, Seen.size])
  . simp [JavaObj.seenByConvert, Seen.value, Seen.size, Yields]
  . simp [JavaObj.seenByConvert, Seen.value, Seen.size, Yields, DdwafObject.toPWArgs]
  . simp [JavaObj.seenByConvert, Seen.value, Seen.size, Yields, DdwafObject.toPWArgs_map]

end Value

theorem convertLevels_yields {heap : ρ → JavaObj ρ} {level : Nat} {obj : ρ} {n : Int}
    (hfits : Seen.TreeFits (fun r => (heap r).seenByConvert)
      (fun s => s.length ≤ lims.maxStringSize) level obj)
    (hle : Seen.nodes (fun r => (heap r).seenByConvert) level obj ≤ n) :
    Yields DdwafObject.toPWArgs (convertLevels lims heap level obj n)
      (Seen.tree (fun r => (heap r).seenByConvert) level obj)
      (n - Seen.nodes (fun r => (heap r).seenByConvert) level obj) := by
  induction level generalizing obj n with
  | zero => cases hfits
  | succ level ih =>
    rw [Seen.nodes, Int.natCast_add] at hle ⊢
    rw [convertLevels, Seen.tree]
    have hpos := Seen.nodes_pos (fun r => (heap r).seenByConvert) level
    apply (convertValue_yields hpos _ hfits (by omega)).congr (by omega)
    intro r hr n hn
    exact ih hr hn

theorem convertChecked_eq_ok_iff {heap : ρ → JavaObj ρ} {obj : ρ}
    (hsmall : Seen.Small (fun r => (heap r).seenByConvert)
      (fun s => s.length ≤ lims.maxStringSize) lims obj) (p : PWArgs) :
    (∃ o, convertChecked lims heap obj = .ok o ∧ o.toPWArgs = p) ↔
      Seen.tree (fun r => (heap r).seenByConvert) (lims.maxDepth + 1) obj = some p := by
  have hyields := convertLevels_yields hsmall.fits (Int.ofNat_le.mpr hsmall.nodes)
  rw [← hyields.eq_some_iff p, convertChecked]
  cases convertLevels lims heap (lims.maxDepth + 1) obj lims.maxElements with
  | error e => simp
  | ok r => simp [Prod.ext_iff]

end Convert

end Ddwaf
