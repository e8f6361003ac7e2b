import Ddwaf.ConvertChecked.Impl
import Ddwaf.ConvertChecked.Limits.Bounded
import Ddwaf.Native.Utf16Utf8.Lemmas.Checked

/-!
This module contains the calls into Java for values that stay as they are, and the proof that the
conversion that makes these calls is the one of the values.
-/

namespace Ddwaf

section Java

variable {ρ : Type}

def JavaObj.isNull : JavaObj ρ → Bool
  | .null => true
  | _ => false

def JavaObj.isArray : JavaObj ρ → Bool
  | .array _ _ => true
  | _ => false

def JavaObj.isPrimitive : JavaObj ρ → Bool
  | .array primitive _ => primitive
  | _ => false

def JavaObj.elements : JavaObj ρ → List ρ
  | .array _ elements => elements
  | _ => []

def JavaObj.isString : JavaObj ρ → Bool
  | .string _ => true
  | _ => false

def JavaObj.isBoolean : JavaObj ρ → Bool
  | .boolean _ => true
  | _ => false

def JavaObj.booleanValue : JavaObj ρ → Bool
  | .boolean value => value
  | _ => false

def JavaObj.interfaces : JavaObj ρ → JavaInterfaces ρ
  | .string units => ⟨none, none, some units, none⟩
  | .object interfaces => interfaces
  | _ => ⟨none, none, none, none⟩

def JavaObj.units (obj : JavaObj ρ) : List UInt16 := obj.interfaces.charSequence.getD []

def JavaObj.number (obj : JavaObj ρ) : JavaNumber := obj.interfaces.number.getD ⟨false, 0, 0⟩

end Java

namespace ConvertLimits

open Program

inductive HeapRef (ρ : Type) where
  | null
  | obj (r : ρ)
  | entrySet (entries : List (JavaKey × ρ))
  | entry (e : JavaKey × ρ)
  | key (k : JavaKey)
  | string (units : List UInt16)
  | iterator (id : Nat)

/-- What each iterator has not returned yet. -/
structure HeapWorld (ρ : Type) where
  iterators : Nat → List (HeapRef ρ)
  nextIterator : Nat

section Env

variable {ρ : Type} (heap : ρ → JavaObj ρ)

def HeapRef.javaObj : HeapRef ρ → JavaObj ρ
  | .null => .null
  | .obj r => heap r
  | .string units => .string units
  | _ => .object ⟨none, none, none, none⟩

def HeapRef.items : HeapRef ρ → List (HeapRef ρ)
  | .entrySet entries => entries.map .entry
  | .obj r => ((heap r).interfaces.iterable.elim [] JavaIterable.elements).map .obj
  | _ => []

def HeapRef.entryKey : HeapRef ρ → HeapRef ρ
  | .entry (.null, _) => .null
  | .entry (k, _) => .key k
  | _ => .null

def HeapRef.entryValue : HeapRef ρ → HeapRef ρ
  | .entry (_, r) => .obj r
  | _ => .null

def HeapRef.toString : HeapRef ρ → Except Throwable (HeapRef ρ)
  | .key (.toString (some s)) => .ok (.string s)
  | .key (.throwing exc) => .error exc
  | _ => .ok .null

def HeapRef.hasNext (w : HeapWorld ρ) : HeapRef ρ → Bool
  | .iterator id => !(w.iterators id).isEmpty
  | _ => false

def HeapRef.next (w : HeapWorld ρ) : HeapRef ρ → Except Throwable (HeapRef ρ) × HeapWorld ρ
  | .iterator id =>
    match w.iterators id with
    | item :: items => (.ok item, { w with iterators := Function.update w.iterators id items })
    | [] => (.error ⟨.other "NoSuchElementException", ""⟩, w)
  | _ => (.error ⟨.other "NoSuchElementException", ""⟩, w)

def throwableOf : Stop → Throwable
  | .thrown exc => exc
  | _ => ⟨.other "InternalError", ""⟩

def toUtf8Limited (obj : JavaObj ρ) (maxLen : Nat) : Except Throwable (List UInt8) :=
  (Ddwaf.javaToUtf8LimitedChecked (some obj.units) maxLen).mapError throwableOf

def heapEnv : JavaEnv (HeapWorld ρ) (HeapRef ρ) where
  isNull r := (r.javaObj heap).isNull
  isMap r := (r.javaObj heap).interfaces.map.isSome
  isIterable r := (r.javaObj heap).interfaces.iterable.isSome
  isString r := (r.javaObj heap).isString
  isCharSequence r := (r.javaObj heap).interfaces.charSequence.isSome
  isNumber r := (r.javaObj heap).interfaces.number.isSome
  isFloating r := (r.javaObj heap).number.floating
  isBoolean r := (r.javaObj heap).isBoolean
  classIsArray r w := (.ok (r.javaObj heap).isArray, w)
  isPrimitive r := (r.javaObj heap).isPrimitive
  arrayLength r := (r.javaObj heap).elements.length
  arrayElement r i w := (((r.javaObj heap).elements[i]?).elim .null .obj, w)
  mapEntryset r w := (.ok (.entrySet ((r.javaObj heap).interfaces.map.getD [])), w)
  iterableIterator r w :=
    (.ok (.iterator w.nextIterator),
      ⟨Function.update w.iterators w.nextIterator (r.items heap), w.nextIterator + 1⟩)
  iteratorHasNext r w := ((r.hasNext w, none), w)
  iteratorNext r w := r.next w
  entryKey r w := (.ok r.entryKey, w)
  entryValue r w := (.ok r.entryValue, w)
  toString r w := (r.toString, w)
  javaToUtf8LimitedChecked r maxLen w := (toUtf8Limited (r.javaObj heap) maxLen, w)
  charSequenceToUtf8 r maxLen w := (toUtf8Limited (r.javaObj heap) maxLen, w)
  numberDoubleValue r w := (.ok (r.javaObj heap).number.doubleValue, w)
  numberLongValue r w := (.ok (r.javaObj heap).number.longValue, w)
  booleanValue r w := (.ok (r.javaObj heap).booleanValue, w)
  javaWrapExc msg _ w := (⟨.runtimeException, msg⟩, w)
  javaLog w := w
  ddwafObject w := (true, w)

end Env

section EndsAs

variable {ρ α β α' β' : Type}

/-- Both return, both throw the same exception, or both make a call that is not defined. -/
inductive EndsAs (Q : α → State (HeapWorld ρ) → β → Prop) :
    Except Abort α × State (HeapWorld ρ) → Native β → Prop where
  | ok (h : Q a s b) : EndsAs Q (.ok a, s) (.ok b)
  | thrown : EndsAs Q (.error (.thrown exc), s) (.error (.thrown exc))
  | undefined : EndsAs Q (.error .undefined, s) (.error .outOfBounds)

variable {Q : α → State (HeapWorld ρ) → β → Prop} {Q' : α' → State (HeapWorld ρ) → β' → Prop}
  {x : Convert (HeapWorld ρ) α} {f : α → Convert (HeapWorld ρ) α'} {s s' : State (HeapWorld ρ)}

theorem EndsAs.bind {y : Native β} {g : β → Native β'} (hx : EndsAs Q (exec x s) y)
    (hf : ∀ a s' b, Q a s' b → EndsAs Q' (exec (f a) s') (g b)) :
    EndsAs Q' (exec (x >>= f) s) (y >>= g) := by
  rw [exec_bind]
  generalize exec x s = r at hx
  cases hx with
  | ok h => exact hf _ _ _ h
  | thrown => exact .thrown
  | undefined => exact .undefined

theorem EndsAs.more {Q' : α' → State (HeapWorld ρ) → β → Prop} {y : Native β}
    (hx : EndsAs Q (exec x s) y) (hf : ∀ a s' b, Q a s' b → EndsAs Q' (exec (f a) s') (.ok b)) :
    EndsAs Q' (exec (x >>= f) s) y := by
  have h := EndsAs.bind hx (g := Except.ok) hf
  cases y with
  | ok b => exact h
  | error stop => exact h

theorem EndsAs.step {y : Native β'} (hx : exec x s = (.ok a, s'))
    (hf : EndsAs Q' (exec (f a) s') y) : EndsAs Q' (exec (x >>= f) s) y := by
  rw [exec_bind, hx]
  exact hf

theorem EndsAs.map_right {Q' : α → State (HeapWorld ρ) → β' → Prop} {y : Native β} {g : β → β'}
    (hx : EndsAs Q (exec x s) y) (hg : ∀ a s' b, Q a s' b → Q' a s' (g b)) :
    EndsAs Q' (exec x s) (y >>= fun b => .ok (g b)) := by
  rw [← bind_pure x]
  apply EndsAs.bind hx
  intro a s' b h
  exact .ok (hg a s' b h)

theorem EndsAs.mono {Q' : α → State (HeapWorld ρ) → β → Prop} {y : Native β}
    (hx : EndsAs Q (exec x s) y) (hQ : ∀ a s' b, Q a s' b → Q' a s' b) : EndsAs Q' (exec x s) y := by
  rw [← bind_pure x]
  apply EndsAs.more hx
  intro a s' b h
  exact .ok (hQ a s' b h)

/-- The iterators that are there already are kept, but for `id`. -/
structure Others (id : Nat) (w w' : HeapWorld ρ) : Prop where
  le : w.nextIterator ≤ w'.nextIterator
  eq : ∀ j < w.nextIterator, j ≠ id → w'.iterators j = w.iterators j

structure Kept (w w' : HeapWorld ρ) : Prop where
  le : w.nextIterator ≤ w'.nextIterator
  eq : ∀ j < w.nextIterator, w'.iterators j = w.iterators j

variable {w w' w'' : HeapWorld ρ}

theorem Kept.refl (w : HeapWorld ρ) : Kept w w :=
  ⟨Nat.le_refl _, fun _ _ => rfl⟩

theorem Kept.trans (h : Kept w w') (h' : Kept w' w'') : Kept w w'' :=
  ⟨Nat.le_trans h.le h'.le, fun j hj => (h'.eq j (Nat.lt_of_lt_of_le hj h.le)).trans (h.eq j hj)⟩

theorem Others.refl (id : Nat) (w : HeapWorld ρ) : Others id w w :=
  ⟨Nat.le_refl _, fun _ _ _ => rfl⟩

theorem Others.trans {id : Nat} (h : Others id w w') (h' : Others id w' w'') : Others id w w'' :=
  ⟨Nat.le_trans h.le h'.le,
    fun j hj hne => (h'.eq j (Nat.lt_of_lt_of_le hj h.le) hne).trans (h.eq j hj hne)⟩

theorem Others.kept {items : List (HeapRef ρ)}
    (h : Others w.nextIterator
      ⟨Function.update w.iterators w.nextIterator items, w.nextIterator + 1⟩ w') : Kept w w' := by
  refine ⟨Nat.le_of_succ_le h.le, ?_⟩
  intro j hj
  have hne : j ≠ w.nextIterator := Nat.ne_of_lt hj
  rw [h.eq j (Nat.lt_succ_of_lt hj) hne]
  exact Function.update_of_ne hne _ _

structure Leaves (K : HeapWorld ρ → HeapWorld ρ → Prop) (s s' : State (HeapWorld ρ)) (n : Int) :
    Prop where
  maxElements : s'.maxElements = n
  le : n ≤ s.maxElements
  world : K s.world s'.world

theorem Leaves.refl {K : HeapWorld ρ → HeapWorld ρ → Prop} (hK : K s.world s.world) :
    Leaves K s s s.maxElements :=
  ⟨rfl, Int.le_refl _, hK⟩

theorem Leaves.trans {K : HeapWorld ρ → HeapWorld ρ → Prop} {s₁ s₂ : State (HeapWorld ρ)}
    {n₁ n₂ : Int} (h : Leaves K s s₁ n₁) (h' : Leaves K s₁ s₂ n₂)
    (hK : K s.world s₁.world → K s₁.world s₂.world → K s.world s₂.world) : Leaves K s s₂ n₂ := by
  refine ⟨h'.maxElements, ?_, hK h.world h'.world⟩
  have hle := h'.le
  rw [h.maxElements] at hle
  exact Int.le_trans hle h.le

/-- What a conversion of one value leaves. -/
structure Item (K : HeapWorld ρ → HeapWorld ρ → Prop) (s : State (HeapWorld ρ)) (a : α)
    (s' : State (HeapWorld ρ)) (b : α × Int) : Prop where
  value : a = b.1
  lt : b.2 < s.maxElements
  leaves : Leaves K s s' b.2

/-- `item` converts any value with fewer than `limit` elements left as `item'` does. -/
def Converts (limit : Int) (item : HeapRef ρ → Convert (HeapWorld ρ) α)
    (item' : ρ → Int → Native (α × Int)) : Prop :=
  ∀ element s, s.maxElements < limit →
    EndsAs (Item Kept s) (exec (item (.obj element)) s) (item' element s.maxElements)

end EndsAs

section Loops

variable {ρ α γ : Type} {heap : ρ → JavaObj ρ} {s : State (HeapWorld ρ)} {limit : Int}
  {f : HeapWorld ρ → Except Throwable α × HeapWorld ρ} {a : α} {w : HeapWorld ρ}

theorem exec_callChecked (h : f s.world = (.ok a, w)) :
    exec (callChecked f) s = (.ok a, { s with world := w }) := by
  rw [callChecked, exec_bind, exec_call, h]
  rfl

theorem exec_callChecked_same (h : f s.world = (.ok a, s.world)) :
    exec (callChecked f) s = (.ok a, s) :=
  exec_callChecked h

theorem exec_succeeds (msg : String) : exec (succeeds (heapEnv heap) msg) s = (.ok (), s) := by
  rfl

theorem exec_log : exec (log (heapEnv heap)) s = (.ok (), s) := by
  rfl

theorem exec_iteratorHasNext {id : Nat} :
    exec (call ((heapEnv heap).iteratorHasNext (.iterator id))) s =
      (.ok (!(s.world.iterators id).isEmpty, none), s) := by
  rfl

theorem arrayLoop_endsAs {item : HeapRef ρ → Convert (HeapWorld ρ) DdwafObject}
    {item' : ρ → Int → Native (DdwafObject × Int)} {r : ρ} {primitive : Bool} {elements : List ρ}
    (hr : heap r = .array primitive elements) (hitem : Converts limit item item')
    (hs : s.maxElements < limit) {i n : Nat} (hi : i + n = elements.length)
    (acc : List DdwafObject) :
    EndsAs (fun made s' b => made = acc ++ b.1 ∧ Leaves Kept s s' b.2)
      (exec (arrayLoop (heapEnv heap) item (.obj r) i n acc) s)
      (convertLoop (convertArrayElement item' primitive) (elements.drop i) s.maxElements) := by
  induction n generalizing i s acc with
  | zero =>
    rw [List.drop_of_length_le (by omega)]
    exact .ok ⟨(List.append_nil acc).symm, .refl (Kept.refl _)⟩
  | succ n ih =>
    have hlt : i < elements.length := by omega
    rw [List.drop_eq_getElem_cons hlt, arrayLoop, convertLoop]
    apply EndsAs.step (exec_get s)
    split
    . exact .ok ⟨(List.append_nil acc).symm, .refl (Kept.refl _)⟩
    . have helement : (heapEnv heap).arrayElement (.obj r) i s.world =
          (.obj elements[i], s.world) := by
        simp [heapEnv, HeapRef.javaObj, hr, JavaObj.elements, hlt]
      have hprimitive : (heapEnv heap).isPrimitive (.obj r) = primitive := by
        simp [heapEnv, HeapRef.javaObj, hr, JavaObj.isPrimitive]
      rw [arrayElement, hprimitive, convertArrayElement]
      cases primitive with
      | true => exact .undefined
      | false =>
        have hcall : exec (call ((heapEnv heap).arrayElement (.obj r) i)) s =
            (.ok (.obj elements[i]), s) := by
          rw [exec_call, helement]
        apply EndsAs.step hcall
        apply EndsAs.bind (hitem elements[i] s hs)
        rintro value s₁ ⟨_, n₁⟩ ⟨rfl, hlt₁, hleaves₁⟩
        have hmax₁ : s₁.maxElements = n₁ := hleaves₁.maxElements
        have hlt₁ : n₁ < s.maxElements := hlt₁
        apply EndsAs.step (exec_succeeds _)
        rw [← hmax₁]
        apply EndsAs.map_right (ih (i := i + 1) (by omega) (by omega) (acc ++ [value]))
        rintro made s₂ ⟨values, n₂⟩ ⟨rfl, hleaves⟩
        exact ⟨by simp, hleaves₁.trans hleaves Kept.trans⟩

/-- What a conversion of the next item of an iterator leaves. -/
def Next (id : Nat) (rest : List (HeapRef ρ)) (w w' : HeapWorld ρ) : Prop :=
  w'.iterators id = rest ∧ Others id w w'

theorem iteratorLoop_endsAs {item : Convert (HeapWorld ρ) α} {item' : γ → Int → Native (α × Int)}
    {ref : γ → HeapRef ρ} {id : Nat}
    (hitem : ∀ x rest s, s.world.iterators id = ref x :: rest → id < s.world.nextIterator →
      s.maxElements < limit → EndsAs (Item (Next id rest) s) (exec item s) (item' x s.maxElements))
    {xs : List γ} (hs : s.maxElements < limit) (hid : id < s.world.nextIterator)
    (hxs : s.world.iterators id = xs.map ref) {turns : Nat} (hpos : 0 < turns)
    (hturns : s.maxElements < turns) (acc : List α) :
    EndsAs (fun r s' b => r = (acc ++ b.1, none) ∧ Leaves (Others id) s s' b.2)
      (exec (iteratorLoop (heapEnv heap) item (.iterator id) turns acc) s)
      (convertLoop item' xs s.maxElements) := by
  induction xs generalizing s turns acc with
  | nil =>
    cases turns with
    | zero => contradiction
    | succ turns =>
      have hcall : exec (call ((heapEnv heap).iteratorHasNext (.iterator id))) s =
          (.ok (false, none), s) := by
        rw [exec_iteratorHasNext, hxs]
        rfl
      rw [iteratorLoop, convertLoop]
      apply EndsAs.step hcall
      exact .ok ⟨by rw [List.append_nil], .refl (Others.refl _ _)⟩
  | cons x xs ih =>
    cases turns with
    | zero => contradiction
    | succ turns =>
      have hcall : exec (call ((heapEnv heap).iteratorHasNext (.iterator id))) s =
          (.ok (true, none), s) := by
        rw [exec_iteratorHasNext, hxs]
        rfl
      rw [iteratorLoop, convertLoop]
      apply EndsAs.step hcall
      apply EndsAs.step (exec_get s)
      split
      . exact .ok ⟨by rw [List.append_nil], .refl (Others.refl _ _)⟩
      . apply EndsAs.bind (hitem x (xs.map ref) s hxs hid hs)
        rintro value s₁ ⟨_, n₁⟩ ⟨rfl, hlt₁, hleaves₁⟩
        have hmax₁ : s₁.maxElements = n₁ := hleaves₁.maxElements
        have hlt₁ : n₁ < s.maxElements := hlt₁
        have ⟨hrest, hothers⟩ := hleaves₁.world
        -- The item has used an element, so that the turns that are left are enough.
        rw [← hmax₁]
        apply EndsAs.map_right (ih (by omega) (Nat.lt_of_lt_of_le hid hothers.le) hrest (by omega)
          (by omega) (acc ++ [value]))
        rintro made s₂ ⟨values, n₂⟩ ⟨rfl, hleaves⟩
        refine ⟨by simp, hleaves.maxElements, ?_, hothers.trans hleaves.world⟩
        have := hleaves.le
        dsimp only at this ⊢
        omega

end Loops

section Items

variable {ρ : Type} {heap : ρ → JavaObj ρ} {s : State (HeapWorld ρ)} {limit : Int} {lims : WafLimits}
  {item : HeapRef ρ → Convert (HeapWorld ρ) DdwafObject}
  {item' : ρ → Int → Native (DdwafObject × Int)}

def advance (s : State (HeapWorld ρ)) (id : Nat) (rest : List (HeapRef ρ)) : State (HeapWorld ρ) :=
  { s with world := { s.world with iterators := Function.update s.world.iterators id rest } }

theorem exec_iteratorNext {id : Nat} {x : HeapRef ρ} {rest : List (HeapRef ρ)}
    (h : s.world.iterators id = x :: rest) :
    exec (callChecked ((heapEnv heap).iteratorNext (.iterator id))) s = (.ok x, advance s id rest) := by
  apply exec_callChecked
  simp [heapEnv, HeapRef.next, h]

theorem next_of_kept {id : Nat} {rest : List (HeapRef ρ)} {w : HeapWorld ρ}
    (hid : id < s.world.nextIterator) (h : Kept (advance s id rest).world w) :
    Next id rest s.world w := by
  refine ⟨?_, h.le, ?_⟩
  . rw [h.eq id hid]
    exact Function.update_self ..
  . intro j hj hne
    rw [h.eq j hj]
    exact Function.update_of_ne hne _ _

theorem iterableItem_endsAs
    (hitem : Converts limit item item') {id : Nat} {element : ρ} {rest : List (HeapRef ρ)}
    (hnext : s.world.iterators id = .obj element :: rest) (hid : id < s.world.nextIterator)
    (hs : s.maxElements < limit) :
    EndsAs (Item (Next id rest) s) (exec (iterableItem (heapEnv heap) item (.iterator id)) s)
      (item' element s.maxElements) := by
  rw [iterableItem]
  apply EndsAs.step (exec_iteratorNext hnext)
  apply EndsAs.more (hitem element (advance s id rest) hs)
  rintro value s₁ b ⟨hvalue, hlt, hleaves⟩
  apply EndsAs.step (exec_succeeds _)
  exact .ok ⟨hvalue, hlt, hleaves.maxElements, hleaves.le, next_of_kept hid hleaves.world⟩

theorem keyJstr_endsAs (e : JavaKey × ρ) :
    EndsAs (fun a s' b => a = b.elim .null .string ∧ s' = s)
      (exec (keyJstr (heapEnv heap) (HeapRef.entry e).entryKey) s) (Ddwaf.keyJstr e.1) := by
  obtain ⟨k, r⟩ := e
  cases k with
  | null => exact .undefined
  | throwing exc => exact .thrown
  | toString str =>
    cases str with
    | none => exact .ok ⟨rfl, rfl⟩
    | some units => exact .ok ⟨rfl, rfl⟩

theorem javaToUtf8LimitedChecked_some (lims : WafLimits) (units : List UInt16) :
    ∃ bytes, Ddwaf.javaToUtf8LimitedChecked (some units) lims.maxStringSize = .ok bytes := by
  have hle := lims.maxStringSize_le
  rw [Ddwaf.javaToUtf8LimitedChecked]
  split
  . next h => exact ⟨_, javaUtf16ToUtf8Checked_eq (fun _ => rfl) (Nat.le_trans h hle)⟩
  . apply Exists.intro
    apply javaUtf16ToUtf8Checked_eq (fun _ => rfl)
    exact Nat.le_trans (List.length_take_le ..) hle

theorem toUtf8Limited_endsAs (obj : JavaObj ρ)
    {f : HeapWorld ρ → Except Throwable (List UInt8) × HeapWorld ρ}
    (h : f s.world = (toUtf8Limited obj lims.maxStringSize, s.world)) :
    EndsAs (fun a s' b => a = b ∧ s' = s) (exec (callChecked f) s)
      (Ddwaf.javaToUtf8LimitedChecked (some obj.units) lims.maxStringSize) := by
  have ⟨bytes, hbytes⟩ := javaToUtf8LimitedChecked_some lims obj.units
  have hok : f s.world = (.ok bytes, s.world) := by
    rw [h, toUtf8Limited, hbytes]
    rfl
  rw [exec_callChecked hok, hbytes]
  exact .ok ⟨rfl, rfl⟩

theorem keyCstr_endsAs (str : Option (List UInt16)) :
    EndsAs (fun a s' b => a = b ∧ s' = s)
      (exec (keyCstr (heapEnv heap) lims (str.elim .null .string)) s)
      (Ddwaf.javaToUtf8LimitedChecked str lims.maxStringSize) := by
  cases str with
  | none => exact .undefined
  | some units => exact toUtf8Limited_endsAs (.string units) rfl

theorem mapItem_endsAs
    (hitem : Converts limit item item') {id : Nat} {e : JavaKey × ρ} {rest : List (HeapRef ρ)}
    (hnext : s.world.iterators id = .entry e :: rest) (hid : id < s.world.nextIterator)
    (hs : s.maxElements < limit) :
    EndsAs (Item (Next id rest) s) (exec (mapItem (heapEnv heap) lims item (.iterator id)) s)
      (convertEntry lims item' e s.maxElements) := by
  rw [mapItem, convertEntry]
  have hvalue (s : State (HeapWorld ρ)) :
      exec (callChecked ((heapEnv heap).entryValue (.entry e))) s = (.ok (.obj e.2), s) :=
    exec_callChecked_same rfl
  apply EndsAs.step (exec_iteratorNext hnext)
  apply EndsAs.step (exec_callChecked_same rfl)
  apply EndsAs.bind (keyJstr_endsAs e)
  rintro _ _ str ⟨rfl, rfl⟩
  apply EndsAs.step (hvalue _)
  apply EndsAs.bind (hitem e.2 (advance s id rest) hs)
  rintro value s₁ ⟨_, n⟩ ⟨rfl, hlt, hleaves⟩
  apply EndsAs.bind (keyCstr_endsAs str)
  rintro bytes _ _ ⟨rfl, rfl⟩
  apply EndsAs.step (exec_succeeds _)
  exact .ok ⟨rfl, hlt, hleaves.maxElements, hleaves.le, next_of_kept hid hleaves.world⟩

end Items

section Containers

variable {ρ : Type} {heap : ρ → JavaObj ρ} {s : State (HeapWorld ρ)} {lims : WafLimits}
  {item : HeapRef ρ → Convert (HeapWorld ρ) DdwafObject}
  {item' : ρ → Int → Native (DdwafObject × Int)} {r : ρ} {turns recLevel level : Nat}

theorem convertArray_endsAs {primitive : Bool} {elements : List ρ}
    (hr : heap r = .array primitive elements) (hrec : recLevel + level = lims.maxDepth)
    (hitem : level ≠ 0 → Converts turns item item')
    (hs : s.maxElements < turns) :
    EndsAs (fun o s' b => o = (b.1, none) ∧ Leaves Kept s s' b.2)
      (exec (convertArray (heapEnv heap) lims item recLevel (.obj r)) s)
      (convertElementsOf .array (convertArrayElement item' primitive) level elements s.maxElements) := by
  rw [convertArray, convertElementsOf]
  split
  . next hge =>
    rw [if_pos (by omega)]
    apply EndsAs.step exec_log
    exact .ok ⟨rfl, .refl (Kept.refl _)⟩
  . next hlt =>
    have hlevel : level ≠ 0 := by omega
    have hlength : (heapEnv heap).arrayLength (.obj r) = elements.length := by
      simp [heapEnv, HeapRef.javaObj, hr, JavaObj.elements]
    rw [if_neg hlevel, hlength]
    apply EndsAs.bind (arrayLoop_endsAs hr (hitem hlevel) hs (Nat.zero_add _) [])
    rintro made s₁ ⟨values, n⟩ ⟨rfl, hleaves⟩
    exact .ok ⟨rfl, hleaves⟩

def openIterator (s : State (HeapWorld ρ)) (items : List (HeapRef ρ)) : State (HeapWorld ρ) :=
  { s with
    world := ⟨Function.update s.world.iterators s.world.nextIterator items, s.world.nextIterator + 1⟩ }

theorem iterator_endsAs {α γ : Type} {itemAt : HeapRef ρ → Convert (HeapWorld ρ) α}
    {itemAt' : γ → Int → Native (α × Int)} {ref : γ → HeapRef ρ} {iterable : HeapRef ρ}
    {xs : List γ} (wrap : List α → DdwafObject) (hitems : iterable.items heap = xs.map ref)
    (hitem : ∀ x id rest (s : State (HeapWorld ρ)), s.world.iterators id = ref x :: rest →
      id < s.world.nextIterator → s.maxElements < (turns : Int) →
      EndsAs (Item (Next id rest) s) (exec (itemAt (.iterator id)) s) (itemAt' x s.maxElements))
    (hpos : 0 < turns) (hs : s.maxElements < turns) :
    EndsAs (fun o s' b => o = (b.1, none) ∧ Leaves Kept s s' b.2)
      (exec (do
        let it ← callChecked ((heapEnv heap).iterableIterator iterable)
        let r ← iteratorLoop (heapEnv heap) (itemAt it) it turns []
        return (wrap r.1, r.2)) s)
      (convertLoop itemAt' xs s.maxElements >>= fun b => .ok (wrap b.1, b.2)) := by
  have hopen : exec (callChecked ((heapEnv heap).iterableIterator iterable)) s =
      (.ok (.iterator s.world.nextIterator), openIterator s (iterable.items heap)) :=
    exec_callChecked rfl
  have hxs : (openIterator s (iterable.items heap)).world.iterators s.world.nextIterator = xs.map ref := by
    rw [← hitems]
    exact Function.update_self ..
  apply EndsAs.step hopen
  apply EndsAs.bind (iteratorLoop_endsAs (s := openIterator s (iterable.items heap))
    (fun x rest s => hitem x _ rest s) hs (Nat.lt_succ_self _) hxs hpos hs [])
  rintro made s₁ ⟨values, n⟩ ⟨rfl, hleaves⟩
  exact .ok ⟨rfl, hleaves.maxElements, hleaves.le, hleaves.world.kept⟩

theorem convertMap_endsAs {entries : List (JavaKey × ρ)} {interfaces : JavaInterfaces ρ}
    (hr : heap r = .object interfaces) (hmap : interfaces.map = some entries)
    (hrec : recLevel + level = lims.maxDepth)
    (hitem : level ≠ 0 → Converts turns item item')
    (hpos : 0 < turns) (hs : s.maxElements < turns) :
    EndsAs (fun o s' b => o = (b.1, none) ∧ Leaves Kept s s' b.2)
      (exec (convertMap (heapEnv heap) lims turns item recLevel (.obj r)) s)
      (convertElementsOf .map (convertEntry lims item') level entries s.maxElements) := by
  rw [convertMap, convertElementsOf]
  split
  . next hge =>
    rw [if_pos (by omega)]
    apply EndsAs.step exec_log
    exact .ok ⟨rfl, .refl (Kept.refl _)⟩
  . next hlt =>
    have hlevel : level ≠ 0 := by omega
    have hentries : exec (callChecked ((heapEnv heap).mapEntryset (.obj r))) s =
        (.ok (.entrySet entries), s) := by
      apply exec_callChecked_same
      simp [heapEnv, HeapRef.javaObj, hr, JavaObj.interfaces, hmap]
    have hitems : (HeapRef.entrySet entries).items heap = entries.map .entry := rfl
    rw [if_neg hlevel]
    apply EndsAs.step hentries
    exact iterator_endsAs .map hitems
      (fun e id rest s hnext hid hs => mapItem_endsAs (hitem hlevel) hnext hid hs) hpos hs

theorem convertIterable_endsAs {iterable : JavaIterable ρ} {interfaces : JavaInterfaces ρ}
    (hr : heap r = .object interfaces) (hiterable : interfaces.iterable = some iterable)
    (hrec : recLevel + level = lims.maxDepth)
    (hitem : level ≠ 0 → Converts turns item item')
    (hpos : 0 < turns) (hs : s.maxElements < turns) :
    EndsAs (fun o s' b => o = (b.1, none) ∧ Leaves Kept s s' b.2)
      (exec (convertIterable (heapEnv heap) lims turns item recLevel (.obj r)) s)
      (convertElementsOf .array item' level iterable.elements s.maxElements) := by
  rw [convertIterable, convertElementsOf]
  split
  . next hge =>
    rw [if_pos (by omega)]
    apply EndsAs.step exec_log
    exact .ok ⟨rfl, .refl (Kept.refl _)⟩
  . next hlt =>
    have hlevel : level ≠ 0 := by omega
    have hitems : (HeapRef.obj r).items heap = iterable.elements.map .obj := by
      simp [HeapRef.items, hr, JavaObj.interfaces, hiterable]
    rw [if_neg hlevel]
    exact iterator_endsAs .array hitems
      (fun e id rest s hnext hid hs => iterableItem_endsAs (hitem hlevel) hnext hid hs) hpos hs

end Containers

section Value

variable {ρ : Type} {heap : ρ → JavaObj ρ} {s : State (HeapWorld ρ)} {lims : WafLimits}
  {item : HeapRef ρ → Convert (HeapWorld ρ) DdwafObject}
  {item' : ρ → Int → Native (DdwafObject × Int)} {r : ρ} {turns recLevel level : Nat}

theorem exec_isArray : exec (isArray (heapEnv heap) (.obj r)) s = (.ok (heap r).isArray, s) := by
  unfold isArray
  split
  . next hnull =>
    cases hr : heap r with
    | null => rfl
    | array | string | boolean | object => simp [heapEnv, HeapRef.javaObj, hr, JavaObj.isNull] at hnull
  . exact exec_callChecked_same rfl

theorem convertCharSequence_endsAs {units : List UInt16} {msg : String}
    {f : HeapWorld ρ → Except Throwable (List UInt8) × HeapWorld ρ}
    (h : f s.world = (toUtf8Limited ((.string units : JavaObj ρ)) lims.maxStringSize, s.world)) :
    EndsAs (fun o s' b => o = b.1 ∧ Leaves Kept s s' b.2)
      (exec (do
        let str ← callChecked f
        succeeds (heapEnv heap) msg
        return .string str) s)
      (do return (← convertCharSequence lims units, s.maxElements)) := by
  rw [convertCharSequence, bind_assoc]
  apply EndsAs.bind (toUtf8Limited_endsAs (.string units) h)
  rintro bytes _ _ ⟨rfl, rfl⟩
  apply EndsAs.step (exec_succeeds _)
  exact .ok ⟨rfl, .refl (Kept.refl _)⟩

theorem convertLeaf_endsAs (hnull : (heap r).isNull = false) (harray : (heap r).isArray = false)
    (hmap : (heap r).interfaces.map = none) (hiterable : (heap r).interfaces.iterable = none) :
    EndsAs (fun o s' b => o = b.1 ∧ Leaves Kept s s' b.2)
      (exec (convertLeaf (heapEnv heap) lims (.obj r)) s)
      (convertValue lims item' level (heap r) s.maxElements) := by
  unfold convertLeaf
  cases hr : heap r with
  | null => simp [hr, JavaObj.isNull] at hnull
  | array => simp [hr, JavaObj.isArray] at harray
  | string units =>
    have hstring : (heapEnv heap).isString (.obj r) = true := by
      simp [heapEnv, HeapRef.javaObj, hr, JavaObj.isString]
    rw [if_pos hstring]
    apply convertCharSequence_endsAs
    simp [heapEnv, HeapRef.javaObj, hr]
  | boolean value =>
    have hboolean : (heapEnv heap).isString (.obj r) = false ∧
        (heapEnv heap).isCharSequence (.obj r) = false ∧ (heapEnv heap).isNumber (.obj r) = false ∧
        (heapEnv heap).isBoolean (.obj r) = true ∧ (heap r).booleanValue = value := by
      simp [heapEnv, HeapRef.javaObj, hr, JavaObj.isString, JavaObj.interfaces, JavaObj.isBoolean,
        JavaObj.booleanValue]
    obtain ⟨hstring, hsequence, hnumber, hboolean, hvalue⟩ := hboolean
    simp only [hstring, hsequence, hnumber, hboolean, Bool.false_eq_true, if_false, if_true]
    apply EndsAs.step (exec_callChecked_same rfl)
    apply EndsAs.step (exec_succeeds _)
    exact .ok ⟨congrArg DdwafObject.bool hvalue, .refl (Kept.refl _)⟩
  | object interfaces =>
    obtain ⟨map, iterable, charSequence, number⟩ := interfaces
    rw [hr] at hmap hiterable
    cases show map = none from hmap
    cases show iterable = none from hiterable
    have hstring : (heapEnv heap).isString (.obj r) = false := by
      simp [heapEnv, HeapRef.javaObj, hr, JavaObj.isString]
    have hsequence : (heapEnv heap).isCharSequence (.obj r) = charSequence.isSome := by
      simp [heapEnv, HeapRef.javaObj, hr, JavaObj.interfaces]
    have hnumber : (heapEnv heap).isNumber (.obj r) = number.isSome := by
      simp [heapEnv, HeapRef.javaObj, hr, JavaObj.interfaces]
    have hboolean : (heapEnv heap).isBoolean (.obj r) = false := by
      simp [heapEnv, HeapRef.javaObj, hr, JavaObj.isBoolean]
    rw [hstring, hsequence, hnumber, hboolean, if_neg Bool.false_ne_true]
    cases charSequence with
    | some units =>
      apply convertCharSequence_endsAs
      simp [heapEnv, HeapRef.javaObj, hr, toUtf8Limited, JavaObj.units, JavaObj.interfaces]
    | none =>
      cases number with
      | none =>
        apply EndsAs.step exec_log
        exact .ok ⟨rfl, .refl (Kept.refl _)⟩
      | some number =>
        have hvalue : (heap r).number = number := by
          simp [hr, JavaObj.number, JavaObj.interfaces]
        have hfloating : (heapEnv heap).isFloating (.obj r) = number.floating :=
          congrArg JavaNumber.floating hvalue
        have hdouble : exec (callChecked ((heapEnv heap).numberDoubleValue (.obj r))) s =
            (.ok number.doubleValue, s) := by
          apply exec_callChecked_same
          rw [← hvalue]
          rfl
        have hlong : exec (callChecked ((heapEnv heap).numberLongValue (.obj r))) s =
            (.ok number.longValue, s) := by
          apply exec_callChecked_same
          rw [← hvalue]
          rfl
        rw [hfloating, if_neg (by decide), if_pos (by rfl)]
        show EndsAs _ _ (.ok (number.convert, s.maxElements))
        rw [JavaNumber.convert]
        split
        . apply EndsAs.step hdouble
          apply EndsAs.step (exec_succeeds _)
          exact .ok ⟨rfl, .refl (Kept.refl _)⟩
        . apply EndsAs.step hlong
          apply EndsAs.step (exec_succeeds _)
          exact .ok ⟨rfl, .refl (Kept.refl _)⟩

end Value

section Levels

variable {ρ : Type} {heap : ρ → JavaObj ρ} {lims : WafLimits} {turns : Nat}

theorem convertValue_endsAs {item : HeapRef ρ → Convert (HeapWorld ρ) DdwafObject}
    {item' : ρ → Int → Native (DdwafObject × Int)} {recLevel level : Nat} (r : ρ)
    {s : State (HeapWorld ρ)} (hrec : recLevel + level = lims.maxDepth)
    (hitem : level ≠ 0 → Converts turns item item')
    (hpos : 0 < turns) (hs : s.maxElements < turns) :
    EndsAs (fun o s' b => o = (b.1, none) ∧ Leaves Kept s s' b.2)
      (exec
        (if (heapEnv heap).isNull (.obj r) then
          return (.null, none)
        else if (heap r).isArray then
          convertArray (heapEnv heap) lims item recLevel (.obj r)
        else if (heapEnv heap).isMap (.obj r) then
          convertMap (heapEnv heap) lims turns item recLevel (.obj r)
        else if (heapEnv heap).isIterable (.obj r) then
          convertIterable (heapEnv heap) lims turns item recLevel (.obj r)
        else do
          return (← convertLeaf (heapEnv heap) lims (.obj r), none)) s)
      (convertValue lims item' level (heap r) s.maxElements) := by
  have hnull : (heapEnv heap).isNull (.obj r) = (heap r).isNull := rfl
  have hmap : (heapEnv heap).isMap (.obj r) = (heap r).interfaces.map.isSome := rfl
  have hiterable : (heapEnv heap).isIterable (.obj r) = (heap r).interfaces.iterable.isSome := rfl
  have hleaf (hnull : (heap r).isNull = false) (harray : (heap r).isArray = false)
      (hmap : (heap r).interfaces.map = none) (hiterable : (heap r).interfaces.iterable = none) :
      EndsAs (fun (o : DdwafObject × Option Throwable) s' b => o = (b.1, none) ∧ Leaves Kept s s' b.2)
        (exec (do return (← convertLeaf (heapEnv heap) lims (.obj r), none)) s)
        (convertValue lims item' level (heap r) s.maxElements) := by
    apply EndsAs.more (convertLeaf_endsAs hnull harray hmap hiterable)
    rintro o s' b ⟨rfl, hleaves⟩
    exact .ok ⟨rfl, hleaves⟩
  rw [hnull, hmap, hiterable]
  cases hr : heap r with
  | null => exact .ok ⟨rfl, .refl (Kept.refl _)⟩
  | array primitive elements => exact convertArray_endsAs hr hrec hitem hs
  | string | boolean =>
    rw [hr] at hleaf
    exact hleaf rfl rfl rfl rfl
  | object interfaces =>
    obtain ⟨map, iterable, charSequence, number⟩ := interfaces
    cases map with
    | some entries => exact convertMap_endsAs hr rfl hrec hitem hpos hs
    | none =>
      cases iterable with
      | some iterable => exact convertIterable_endsAs hr rfl hrec hitem hpos hs
      | none =>
        rw [hr] at hleaf
        exact hleaf rfl rfl rfl rfl

theorem convertChecked_endsAs (hpos : 0 < turns) (level : Nat) {fuel recLevel : Nat}
    (hrec : recLevel + level = lims.maxDepth) (hfuel : level < fuel) (r : ρ)
    {s : State (HeapWorld ρ)} (hs : s.maxElements < turns) :
    EndsAs (fun o s' b => o = (b.1, none) ∧ b.2 < s.maxElements ∧ Leaves Kept s s' b.2)
      (exec (convertChecked (heapEnv heap) lims turns fuel recLevel (.obj r)) s)
      (convertLevels lims heap (level + 1) r s.maxElements) := by
  induction level using Nat.strong_induction_on generalizing fuel recLevel r s with
  | _ level ih =>
    cases fuel with
    | zero => contradiction
    | succ fuel =>
      have hitem : level ≠ 0 → Converts turns
          (fun value => valueChecked (convertChecked (heapEnv heap) lims turns fuel (recLevel + 1) value))
          (convertLevels lims heap level) := by
        intro hlevel element s hs
        obtain ⟨level, rfl⟩ := Nat.exists_eq_succ_of_ne_zero hlevel
        apply EndsAs.more (ih level (Nat.lt_succ_self _) (by omega) (by omega) element hs)
        rintro o s' b ⟨rfl, hlt, hleaves⟩
        exact .ok ⟨rfl, hlt, hleaves⟩
      rw [convertChecked, convertLevels]
      apply EndsAs.step (exec_modify _ s)
      rw [if_neg (by omega)]
      apply EndsAs.step exec_isArray
      apply EndsAs.mono (convertValue_endsAs r hrec hitem hpos (by show s.maxElements - 1 < _; omega))
      rintro o s' b ⟨rfl, hmax, hle, hkept⟩
      have hle : b.2 ≤ s.maxElements - 1 := hle
      exact ⟨rfl, by omega, hmax, by omega, hkept⟩

/-- How the conversion of the values ends when all that it calls is read from `heap`. -/
theorem convertConfig_heap (heap : ρ → JavaObj ρ) (configuration : ρ) (world : HeapWorld ρ)
    {fuel : Nat} (hfuel : configLimits.maxElements < fuel) :
    EndsAs (fun o _ o' => o = (o', none))
      (convertConfig (heapEnv heap) fuel (.obj configuration) world)
      (Ddwaf.convertChecked configLimits heap configuration) := by
  have hmax : configLimits.maxDepth < configLimits.maxElements := by decide
  apply EndsAs.map_right (convertChecked_endsAs (by omega) configLimits.maxDepth (Nat.zero_add _)
    (by omega) configuration (Int.ofNat_lt.mpr hfuel))
  rintro o s' b ⟨rfl, -, -⟩
  rfl

end Levels

end ConvertLimits

end Ddwaf
