import Ddwaf.ByteBufferSerializer.Confined.Arena

/-!
This module contains the proof that a call of `serializeMore` stays in the buffers of its arena, whatever
the objects are and however it ends.
-/

namespace Ddwaf

open Memory Program SharedMemory SerializerState

variable (alloc : Allocator) {s : SerializerState}

namespace PWArgsBuffer

variable {v : Nat}

theorem confines_putLong (h : Inside s) (hv : v < s.nextView) (value : Nat) :
    Confines (putLong v value) s fun _ _ => True :=
  confines_put h hv _

theorem confines_putParameterName (h : Inside s) (hv : v < s.nextView)
    (parameterName : Option (List UInt16)) :
    Confines (putParameterName alloc v parameterName) s fun _ _ => True := by
  unfold putParameterName
  split
  . apply Keeps.bind (confines_putLong h hv 0)
    intro _ s₁ h₁ hs₁ _
    apply Keeps.bind (confines_putLong h₁ (Nat.lt_of_lt_of_le hv hs₁.nextView) 0)
    intro _ s₂ h₂ _ _
    exact Keeps.pure h₂ trivial
  . apply Keeps.bind (confines_writeStringUnlimited alloc h _)
    intro r s₁ h₁ hs₁ _
    have hv₁ := Nat.lt_of_lt_of_le hv hs₁.nextView
    split
    . exact Keeps.pure h₁ trivial
    . apply Keeps.bind (confines_putLong h₁ hv₁ _)
      intro _ s₂ h₂ hs₂ _
      apply Keeps.bind (confines_putLong h₂ (Nat.lt_of_lt_of_le hv₁ hs₂.nextView) _)
      intro _ s₃ h₃ _ _
      apply Keeps.bind (confines_modifyArena h₃ rfl rfl)
      intro _ s₄ h₄ _ _
      exact Keeps.pure h₄ trivial

theorem confines_putValue (h : Inside s) (hv : v < s.nextView) (union : List UInt8)
    (nbEntries type : Nat) : Confines (putValue v union nbEntries type) s fun _ _ => True := by
  unfold putValue
  apply Keeps.bind (confines_put h hv union)
  intro _ s₁ h₁ hs₁ _
  have hv₁ := Nat.lt_of_lt_of_le hv hs₁.nextView
  apply Keeps.bind (confines_putLong h₁ hv₁ _)
  intro _ s₂ h₂ hs₂ _
  exact confines_put h₂ (Nat.lt_of_lt_of_le hv₁ hs₂.nextView) _

theorem confines_writeScalar (h : Inside s) (hv : v < s.nextView)
    (parameterName : Option (List UInt16)) (union : List UInt8) (type : Nat) :
    Confines (writeScalar alloc v parameterName union type) s fun _ _ => True := by
  unfold writeScalar
  apply Keeps.bind (confines_putParameterName alloc h hv parameterName)
  intro _ s₁ h₁ hs₁ _
  split
  . apply Keeps.bind (confines_putValue h₁ (Nat.lt_of_lt_of_le hv hs₁.nextView) _ _ _)
    intro _ s₂ h₂ _ _
    exact Keeps.pure h₂ trivial
  . exact Keeps.pure h₁ trivial

theorem confines_writeString (h : Inside s) (hv : v < s.nextView)
    (parameterName : Option (List UInt16)) (value : CharSeq) :
    Confines (writeString alloc v parameterName value) s fun _ _ => True := by
  unfold writeString
  apply Keeps.bind (confines_putParameterName alloc h hv parameterName)
  intro _ s₁ h₁ hs₁ _
  split
  . apply Keeps.bind (confines_writeStringUnlimited alloc h₁ value)
    intro r s₂ h₂ hs₂ _
    have hv₂ := Nat.lt_of_lt_of_le hv (hs₁.nextView.trans hs₂.nextView)
    split
    . exact Keeps.pure h₂ trivial
    . apply Keeps.bind (confines_putValue h₂ hv₂ _ _ _)
      intro _ s₃ h₃ _ _
      apply Keeps.bind (confines_modifyArena h₃ rfl rfl)
      intro _ s₄ h₄ _ _
      exact Keeps.pure h₄ trivial
  . exact Keeps.pure h₁ trivial

theorem confines_writeArrayOrMap (h : Inside s) (hv : v < s.nextView)
    (parameterName : Option (List UInt16)) (numElements type : Nat) :
    Confines (writeArrayOrMap alloc v parameterName numElements type) s fun r s' =>
      ∀ array ∈ r, ∀ a ∈ array, a < s'.nextArray := by
  unfold writeArrayOrMap
  apply Keeps.bind (confines_putParameterName alloc h hv parameterName)
  intro _ s₁ h₁ hs₁ _
  have hv₁ := Nat.lt_of_lt_of_le hv hs₁.nextView
  split
  . split
    . apply Keeps.bind (confines_putValue h₁ hv₁ _ _ _)
      intro _ s₂ h₂ _ _
      refine Keeps.pure h₂ fun array harray a ha => ?_
      cases harray
      cases ha
    . apply Keeps.bind (confines_allocatePWArgsBuffer alloc h₁ numElements false)
      intro a s₂ h₂ hs₂ ha
      have hv₂ := Nat.lt_of_lt_of_le hv₁ hs₂.nextView
      apply Keeps.bind (confines_getAddress h₂ (some a))
      rintro address _ h₃ _ rfl
      split
      . exact Keeps.pure h₃ fun array harray => nomatch harray
      . apply Keeps.bind (confines_putValue h₃ hv₂ _ _ _)
        intro _ s₄ h₄ hs₄ _
        refine Keeps.pure h₄ fun array harray b hb => ?_
        cases harray
        cases hb
        exact Nat.lt_of_lt_of_le ha hs₄.nextArray
  . exact Keeps.pure h₁ fun array harray => nomatch harray

end PWArgsBuffer

namespace ByteBufferSerializer

variable (limits : WafLimits)

section Counters

theorem setCounters_inside (h : Inside s) (c : Counters) :
    Inside (s.setCounters c) ∧ Confined s (s.setCounters c) :=
  ⟨h.of_eq rfl rfl rfl rfl rfl, Confined.of_eq rfl rfl rfl (Nat.le_refl _) (Nat.le_refl _)⟩

theorem confines_incrementMetric (h : Inside s) (f : WafMetrics → WafMetrics) :
    Confines (incrementMetric f) s fun _ _ => True :=
  have ⟨hinside, hconfined⟩ := setCounters_inside h ⟨s.remainingElements, s.metrics.map f⟩
  Keeps.modify hinside hconfined trivial

theorem confines_decrementRemainingElements (h : Inside s) :
    Confines decrementRemainingElements s fun _ _ => True :=
  have ⟨hinside, hconfined⟩ := setCounters_inside h
    ⟨toInt32 (s.remainingElements - 1), s.metrics⟩
  Keeps.modify hinside hconfined trivial

theorem confines_truncate (h : Inside s) (units : List UInt16) :
    Confines (truncate limits units) s fun _ _ => True := by
  unfold truncate
  split
  . apply Keeps.bind (confines_incrementMetric h _)
    intro _ s₁ h₁ _ _
    exact Keeps.pure h₁ trivial
  . exact Keeps.pure h trivial

theorem confines_truncateParameterName (h : Inside s) (parameterName : Option (List UInt16)) :
    Confines (truncateParameterName limits parameterName) s fun _ _ => True := by
  unfold truncateParameterName
  split
  . exact Keeps.pure h trivial
  . apply Keeps.bind (confines_truncate limits h _)
    intro _ s₁ h₁ _ _
    exact Keeps.pure h₁ trivial

theorem confines_countCutOff (h : Inside s) : Confines countCutOff s fun _ _ => True := by
  unfold countCutOff
  apply Keeps.get_bind
  split
  . exact confines_incrementMetric h _
  . exact confines_incrementMetric h _

theorem confines_clampSize (h : Inside s) (size : Nat) :
    Confines (clampSize size) s fun _ _ => True := by
  unfold clampSize
  apply Keeps.get_bind
  exact Keeps.pure h trivial

theorem confines_checkSize (h : Inside s) (i size : Nat) :
    Confines (checkSize i size) s fun _ _ => True := by
  unfold checkSize
  split
  . exact Keeps.throw h trivial
  . exact Keeps.pure h trivial

theorem confines_keyToString (h : Inside s) (key : JavaKey) :
    Confines (keyToString key) s fun _ _ => True := by
  cases key with
  | null => exact Keeps.pure h trivial
  | toString str => exact Keeps.pure h trivial
  | throwing exc => exact Keeps.throw h trivial

theorem confines_orThrow {res : SerializerM Bool} (msg : String)
    (hres : Confines res s fun _ _ => True) : Confines (orThrow msg res) s fun _ _ => True := by
  unfold orThrow
  apply Keeps.bind hres
  intro ok s₁ h₁ _ _
  split
  . exact Keeps.pure h₁ trivial
  . exact Keeps.throw h₁ trivial

end Counters

theorem confines_writeCutOff {v : Nat} (h : Inside s) (hv : v < s.nextView)
    (parameterName : Option (List UInt16)) :
    Confines (writeCutOff alloc v parameterName) s fun _ _ => True := by
  unfold writeCutOff
  apply Keeps.bind (confines_countCutOff h)
  intro _ s₁ h₁ hs₁ _
  apply Keeps.bind (PWArgsBuffer.confines_writeArrayOrMap alloc h₁
    (Nat.lt_of_lt_of_le hv hs₁.nextView) parameterName 0 pwiMap)
  intro r s₂ h₂ _ _
  split
  . exact Keeps.throw h₂ trivial
  . exact Keeps.pure h₂ trivial

section Iterators

theorem confines_countElements {iterator : Nat → IterStep α} (h : Inside s) (size n : Nat) :
    Confines (countElements iterator size n) s fun _ _ => True := by
  induction n generalizing size with
  | zero =>
    unfold countElements
    split
    . exact Keeps.throw h trivial
    . exact Keeps.pure h trivial
  | succ n ih =>
    unfold countElements
    split
    . exact Keeps.pure h trivial
    . exact Keeps.throw h trivial
    . exact Keeps.throw h trivial
    . exact ih (size + 1)

theorem confines_forEach {iterator : Nat → IterStep α} {body : Nat → α → SerializerM Unit}
    {J : SerializerState → Prop} (hJ : ∀ s s', Confined s s' → J s → J s')
    (hbody : ∀ s i a, Inside s → J s → Confines (body i a) s fun _ _ => True) (h : Inside s)
    (hs : J s) (i n : Nat) : Confines (forEach iterator body i n) s fun _ _ => True := by
  induction n generalizing s i with
  | zero =>
    unfold forEach
    split
    . exact Keeps.throw h trivial
    . exact Keeps.pure h trivial
  | succ n ih =>
    unfold forEach
    split
    . exact Keeps.pure h trivial
    . exact Keeps.throw h trivial
    . exact Keeps.throw h trivial
    . next a _ =>
      apply Keeps.bind (hbody s i a h hs)
      intro _ s₁ h₁ hs₁ _
      exact ih h₁ (hJ s s₁ hs₁ hs) (i + 1)

end Iterators

section Value

variable {ρ : Type} {rec : Nat → Option (List UInt16) → ρ → SerializerM Unit}
    (hrec : ∀ s v name value, Inside s → v < s.nextView →
      Confines (rec v name value) s fun _ _ => True)

include hrec

theorem confines_serializeElements {array : Option Nat} {iterator : Nat → IterStep α} {size : Nat}
    {f : α → SerializerM (Option (List UInt16))} {g : α → ρ}
    (hf : ∀ s a, Inside s → Confines (f a) s fun _ _ => True) (h : Inside s)
    (harray : ∀ a ∈ array, a < s.nextArray) :
    Confines (do
      let i ← forEach iterator
        (fun i a => do
          let newSlot ← PWArgsArrayBuffer.getView array i
          let key ← f a
          rec newSlot key (g a))
        0 size
      checkSize i size) s fun _ _ => True := by
  apply Keeps.bind (Q := fun _ _ => True)
  . apply confines_forEach (J := fun s => ∀ a ∈ array, a < s.nextArray)
    . exact fun s s' hs hlt a ha => Nat.lt_of_lt_of_le (hlt a ha) hs.nextArray
    . intro s₁ i a h₁ hlt
      apply Keeps.bind (confines_getView h₁ hlt i)
      intro v s₂ h₂ _ hv
      apply Keeps.bind (hf s₂ a h₂)
      intro key s₃ h₃ hs₃ _
      exact hrec s₃ v key _ h₃ (Nat.lt_of_lt_of_le hv hs₃.nextView)
    . exact h
    . exact harray
  . intro i s₁ h₁ _ _
    exact confines_checkSize h₁ i size

variable {v : Nat} {parameterName : Option (List UInt16)}

theorem confines_serializeIterable {iterator : Nat → IterStep ρ} {size : Nat} (h : Inside s)
    (hv : v < s.nextView) :
    Confines (serializeIterable alloc rec v parameterName iterator size) s fun _ _ => True := by
  unfold serializeIterable
  apply Keeps.bind (PWArgsBuffer.confines_writeArrayOrMap alloc h hv parameterName size pwiArray)
  intro r s₁ h₁ _ hr
  split
  . exact Keeps.throw h₁ trivial
  . next array =>
    exact confines_serializeElements hrec (f := fun _ => pure none) (g := id)
      (fun _ _ h => Keeps.pure h trivial) h₁ (hr array rfl)

theorem confines_serializeMap {iterator : Nat → IterStep (JavaKey × ρ)} {size : Nat} (h : Inside s)
    (hv : v < s.nextView) :
    Confines (serializeMap alloc rec v parameterName iterator size) s fun _ _ => True := by
  unfold serializeMap
  apply Keeps.bind (PWArgsBuffer.confines_writeArrayOrMap alloc h hv parameterName size pwiMap)
  intro r s₁ h₁ _ hr
  split
  . exact Keeps.throw h₁ trivial
  . next array =>
    exact confines_serializeElements hrec (f := fun entry => keyToString entry.1)
      (g := Prod.snd) (fun _ entry h => confines_keyToString h entry.1) h₁ (hr array rfl)

theorem confines_serializeValue (h : Inside s) (hv : v < s.nextView) (value : JavaValue ρ) :
    Confines (serializeValue alloc limits rec v parameterName value) s fun _ _ => True := by
  cases value with
  | null => exact confines_orThrow _ (PWArgsBuffer.confines_writeScalar alloc h hv _ _ _)
  | charSequence str =>
    unfold serializeValue
    apply Keeps.bind (confines_truncate limits h str.units)
    intro units s₁ h₁ hs₁ _
    exact confines_orThrow _
      (PWArgsBuffer.confines_writeString alloc h₁ (Nat.lt_of_lt_of_le hv hs₁.nextView) _ _)
  | floating value => exact confines_orThrow _ (PWArgsBuffer.confines_writeScalar alloc h hv _ _ _)
  | number value => exact confines_orThrow _ (PWArgsBuffer.confines_writeScalar alloc h hv _ _ _)
  | collection size iterator =>
    unfold serializeValue
    apply Keeps.bind (confines_clampSize h size)
    intro _ s₁ h₁ hs₁ _
    exact confines_serializeIterable alloc hrec h₁ (Nat.lt_of_lt_of_le hv hs₁.nextView)
  | array elements =>
    unfold serializeValue
    apply Keeps.bind (confines_clampSize h elements.length)
    intro _ s₁ h₁ hs₁ _
    exact confines_serializeIterable alloc hrec h₁ (Nat.lt_of_lt_of_le hv hs₁.nextView)
  | iterable first second =>
    unfold serializeValue
    apply Keeps.get_bind
    apply Keeps.bind (confines_countElements h 0 _)
    intro _ s₁ h₁ hs₁ _
    exact confines_serializeIterable alloc hrec h₁ (Nat.lt_of_lt_of_le hv hs₁.nextView)
  | map size iterator =>
    unfold serializeValue
    apply Keeps.bind (confines_clampSize h size)
    intro _ s₁ h₁ hs₁ _
    exact confines_serializeMap alloc hrec h₁ (Nat.lt_of_lt_of_le hv hs₁.nextView)
  | boolean value => exact confines_orThrow _ (PWArgsBuffer.confines_writeScalar alloc h hv _ _ _)
  | other => exact confines_orThrow _ (PWArgsBuffer.confines_writeScalar alloc h hv _ _ _)
  | throwing exc => exact Keeps.throw h trivial

end Value

section Serialize

variable {ρ : Type} (heap : ρ → JavaValue ρ)

theorem confines_doSerialize {v : Nat} (depth : Nat) (h : Inside s) (hv : v < s.nextView)
    (parameterName : Option (List UInt16)) (value : ρ) :
    Confines (doSerialize alloc limits heap depth v parameterName value) s fun _ _ => True := by
  induction depth generalizing s v parameterName value with
  | zero =>
    unfold doSerialize
    apply Keeps.bind (confines_truncateParameterName limits h parameterName)
    intro name s₁ h₁ hs₁ _
    apply Keeps.bind (confines_decrementRemainingElements h₁)
    intro _ s₂ h₂ hs₂ _
    exact confines_writeCutOff alloc h₂
      (Nat.lt_of_lt_of_le hv (hs₁.nextView.trans hs₂.nextView)) name
  | succ depth ih =>
    unfold doSerialize
    apply Keeps.bind (confines_truncateParameterName limits h parameterName)
    intro name s₁ h₁ hs₁ _
    apply Keeps.bind (confines_decrementRemainingElements h₁)
    intro _ s₂ h₂ hs₂ _
    have hv₂ := Nat.lt_of_lt_of_le hv (hs₁.nextView.trans hs₂.nextView)
    apply Keeps.get_bind
    split
    . exact confines_writeCutOff alloc h₂ hv₂ name
    . exact confines_serializeValue alloc limits
        (fun s v name value h hv => ih h hv name value) h₂ hv₂ (heap value)

theorem confines_serializeMore (h : Inside s) (map : ρ) (metrics : Option WafMetrics) :
    Confines (serializeMore alloc limits heap map metrics) s fun _ _ => True := by
  unfold serializeMore
  apply Keeps.bind (Q := fun _ _ => True)
  . exact Keeps.modify (h.of_eq rfl rfl rfl rfl rfl)
      (Confined.of_eq rfl rfl rfl (Nat.le_refl _) (Nat.le_refl _)) trivial
  . intro _ s₁ h₁ _ _
    apply Keeps.bind (confines_allocatePWArgsBuffer alloc h₁ 1 true)
    intro a s₂ h₂ _ ha
    apply Keeps.bind (confines_getView h₂ (fun _ hb => Option.mem_some.mp hb ▸ ha) 0)
    intro v s₃ h₃ _ hv
    apply Keeps.bind (confines_doSerialize alloc limits heap _ h₃ hv none map)
    intro _ s₄ h₄ _ _
    apply Keeps.get_bind
    exact Keeps.pure h₄ trivial

end Serialize

end ByteBufferSerializer

end Ddwaf
