import Ddwaf.ByteBufferSerializer.Confined.State
import Ddwaf.ByteBufferSerializer.Segments

/-!
This module contains the proof that allocating records and strings in an arena stays in its buffers.
-/

namespace Ddwaf

open Memory Program SharedMemory

namespace SerializerState

variable {s : SerializerState}

section Segments

theorem inside_set {arena : Arena} {i : Nat} {b b' : ByteBuffer} (h : Inside s)
    (hbuffers : arena.buffers = s.arena.buffers.set i b') (hi : s.arena.buffers[i]? = some b)
    (hrange : b'.range = b.range) (hlimit : b'.limit ≤ b'.capacity)
    (hknown : ∀ segment ∈ arena.pwargsSegments, ∀ a ∈ segment.pwargsArrays, a < s.nextArray) :
    Inside { s with arena := arena } ∧ Confined s { s with arena := arena } := by
  have howned : Owned { s with arena := arena } = s.Owned := by
    ext x
    show (∃ c ∈ arena.buffers, x ∈ c.addresses) ↔ _
    rw [hbuffers]
    exact owned_set hi hrange x
  constructor
  . constructor
    . intro c hc
      have hc : c ∈ s.arena.buffers.set i b' := hbuffers ▸ hc
      rcases mem_set hc with rfl | hc
      . exact hlimit
      . exact h.buffers c hc
    . exact hknown
    . rw [howned]
      exact h.arrays
    . exact h.lists
    . rw [howned]
      exact h.views
  . exact Confined.of_eq rfl rfl howned (Nat.le_refl _) (Nat.le_refl _)

theorem confines_getPWArgsSegment (h : Inside s) (k : Nat) :
    Confines (Arena.getPWArgsSegment k) s fun segment s' =>
      s' = s ∧ s.arena.pwargsSegments[k]? = some segment := by
  unfold Arena.getPWArgsSegment
  apply Keeps.get_bind
  split
  . exact Keeps.throw h trivial
  . next segment hk => exact Keeps.pure h ⟨rfl, hk⟩

theorem confines_getStringsSegment (h : Inside s) (k : Nat) :
    Confines (Arena.getStringsSegment k) s fun segment s' =>
      s' = s ∧ s.arena.stringsSegments[k]? = some segment := by
  unfold Arena.getStringsSegment
  apply Keeps.get_bind
  split
  . exact Keeps.throw h trivial
  . next segment hk => exact Keeps.pure h ⟨rfl, hk⟩

theorem confines_setPWArgsSegment {k : Nat} {segment segment' : PWArgsSegment} (h : Inside s)
    (hk : s.arena.pwargsSegments[k]? = some segment)
    (hrange : segment'.buffer.range = segment.buffer.range)
    (hlimit : segment'.buffer.limit ≤ segment'.buffer.capacity)
    (hknown : ∀ a ∈ segment'.pwargsArrays, a < s.nextArray) :
    Confines (Arena.setPWArgsSegment k segment') s fun _ _ => True := by
  have hknown' : ∀ seg ∈ s.arena.pwargsSegments.set k segment', ∀ a ∈ seg.pwargsArrays,
      a < s.nextArray := by
    intro seg hseg
    rcases List.mem_or_eq_of_mem_set hseg with hseg | rfl
    . exact h.known seg hseg
    . exact hknown
  have ⟨hinside, hconfined⟩ := inside_set h (buffers_setPWArgs hk)
    (Arena.getElem?_buffers_pwargs hk) hrange hlimit hknown'
  exact Keeps.of_ok _ _ exec_setPWArgsSegment hinside hconfined trivial

theorem buffers_setStrings {k : Nat} {segment segment' : StringsSegment}
    (hk : s.arena.stringsSegments[k]? = some segment) :
    Arena.buffers { s.arena with stringsSegments := s.arena.stringsSegments.set k segment' } =
      s.arena.buffers.set (s.arena.pwargsSegments.length + k) segment'.buffer := by
  have hlt := (List.getElem?_eq_some_iff.mp hk).1
  rw [Arena.buffers, Arena.buffers, List.set_append_right _ _ (by simp), List.map_set]
  simp

theorem confines_setStringsSegment {k : Nat} {segment segment' : StringsSegment} (h : Inside s)
    (hk : s.arena.stringsSegments[k]? = some segment)
    (hrange : segment'.buffer.range = segment.buffer.range)
    (hlimit : segment'.buffer.limit ≤ segment'.buffer.capacity) :
    Confines (Arena.setStringsSegment k segment') s fun _ _ => True := by
  have ⟨hinside, hconfined⟩ := inside_set h (buffers_setStrings hk)
    (Arena.getElem?_buffers_strings hk) hrange hlimit h.known
  exact Keeps.modify hinside hconfined trivial

end Segments

section Views

theorem addView_inside {buffer : ByteBuffer} (h : Inside s) (hbuffer : buffer.Within s.Owned) :
    Inside (s.addView buffer) ∧ Confined s (s.addView buffer) := by
  constructor
  . constructor
    . exact h.buffers
    . exact h.known
    . exact h.arrays
    . intro a ha v hv
      exact Nat.lt_succ_of_lt (h.lists a ha v hv)
    . intro v hv
      by_cases heq : v = s.nextView
      . simp only [addView, heq, Function.update_self]
        exact hbuffer
      . simp only [addView, Function.update_of_ne heq]
        exact h.views v (Nat.lt_of_le_of_ne (Nat.le_of_lt_succ hv) heq)
  . exact Confined.of_eq rfl rfl rfl (Nat.le_refl _) (Nat.le_succ _)

theorem confines_newView {buffer : ByteBuffer} (h : Inside s) (hbuffer : buffer.Within s.Owned)
    (start : Nat) :
    Confines (PWArgsBuffer.new buffer start) s fun v s' => v < s'.nextView ∧ s'.arrays = s.arrays ∧
      s'.nextArray = s.nextArray := by
  unfold PWArgsBuffer.new
  apply Keeps.bind (confines_liftNative h)
  rintro b₁ _ h₁ _ ⟨hb₁, rfl⟩
  apply Keeps.bind (confines_liftNative h₁)
  rintro b₂ _ h₂ _ ⟨hb₂, rfl⟩
  have ⟨hinside, hconfined⟩ := addView_inside h₂ ((hbuffer.setLimit hb₁).setPosition hb₂)
  apply Keeps.get_bind
  exact Keeps.of_ok _ (addView _ b₂) rfl hinside hconfined ⟨Nat.lt_succ_self _, rfl, rfl⟩

theorem confines_setBuffer {v : Nat} {buffer : ByteBuffer} (h : Inside s)
    (hbuffer : buffer.Within s.Owned) :
    Confines (PWArgsBuffer.setBuffer v buffer) s fun _ s' =>
      s'.Owned = s.Owned ∧ s'.nextView = s.nextView := by
  apply Keeps.modify
  . constructor
    . exact h.buffers
    . exact h.known
    . exact h.arrays
    . exact h.lists
    . intro w hw
      by_cases heq : w = v
      . simp only [heq, Function.update_self]
        exact hbuffer
      . simp only [Function.update_of_ne heq]
        exact h.views w hw
  . exact Confined.of_eq rfl rfl rfl (Nat.le_refl _) (Nat.le_refl _)
  . exact ⟨rfl, rfl⟩

theorem confines_resetView {v : Nat} (h : Inside s) (hv : v < s.nextView) (start : Nat) :
    Confines (PWArgsBuffer.reset v start) s fun _ s' => s'.nextView = s.nextView := by
  unfold PWArgsBuffer.reset
  apply Keeps.get_bind
  apply Keeps.bind (confines_liftNative h)
  rintro b₁ _ h₁ _ ⟨hb₁, rfl⟩
  have hwithin₁ := (h₁.views v hv).setLimit hb₁
  apply Keeps.bind (confines_setBuffer h₁ hwithin₁)
  intro _ s₂ h₂ _ ⟨howned, hnextView⟩
  apply Keeps.bind (confines_liftNative h₂)
  rintro b₃ _ h₃ _ ⟨hb₃, rfl⟩
  have hwithin₃ := hwithin₁.setPosition hb₃
  rw [← howned] at hwithin₃
  apply (confines_setBuffer h₃ hwithin₃).mono (fun _ hs => hs)
  intro _ s₄ _ _ ⟨_, hnextView'⟩
  rw [hnextView', hnextView]

theorem confines_put {v : Nat} (h : Inside s) (hv : v < s.nextView) (bs : List UInt8) :
    Confines (PWArgsBuffer.put v bs) s fun _ _ => True := by
  unfold PWArgsBuffer.put
  apply Keeps.get_bind
  apply Keeps.bind (confines_putBytes h (h.views v hv) bs)
  intro b s₁ h₁ hs₁ ⟨hb, _, _⟩
  exact (confines_setBuffer h₁ (hb.mono hs₁.owned)).mono (fun _ hs => hs) fun _ _ _ _ _ => trivial

end Views

section Arrays

theorem confines_newArray {buffer : ByteBuffer} (h : Inside s) (hbuffer : buffer.Within s.Owned)
    (start num : Nat) :
    Confines (PWArgsArrayBuffer.new buffer start num) s fun a s' =>
      a < s'.nextArray ∧ s'.arena = s.arena := by
  unfold PWArgsArrayBuffer.new
  split
  . exact Keeps.throw h trivial
  . apply Keeps.bind (confines_liftNative h)
    rintro b₁ _ h₁ _ ⟨hb₁, rfl⟩
    apply Keeps.bind (confines_liftNative h₁)
    rintro b₂ s₂ h₂ _ ⟨hb₂, rfl⟩
    have hwithin := (hbuffer.setLimit hb₁).setPosition hb₂
    apply Keeps.get_bind
    refine Keeps.of_ok _ (addArray _ ⟨b₂, start, num, []⟩) rfl ?_ ?_ ⟨Nat.lt_succ_self _, rfl⟩
    . constructor
      . exact h₂.buffers
      . intro segment hsegment a ha
        exact Nat.lt_succ_of_lt (h₂.known segment hsegment a ha)
      . intro a ha
        by_cases heq : a = s₂.nextArray
        . simp only [addArray, heq, Function.update_self]
          exact hwithin
        . simp only [addArray, Function.update_of_ne heq]
          exact h₂.arrays a (Nat.lt_of_le_of_ne (Nat.le_of_lt_succ ha) heq)
      . intro a ha v hv
        by_cases heq : a = s₂.nextArray
        . simp only [addArray, heq, Function.update_self] at hv
          contradiction
        . simp only [addArray, Function.update_of_ne heq] at hv
          exact h₂.lists a (Nat.lt_of_le_of_ne (Nat.le_of_lt_succ ha) heq) v hv
      . exact h₂.views
    . exact Confined.of_eq rfl rfl rfl (Nat.le_succ _) (Nat.le_refl _)

theorem confines_updateArray {a : Nat} {f : PWArgsArrayBuffer → PWArgsArrayBuffer} (h : Inside s)
    (hbuffer : a < s.nextArray → (f (s.arrays a)).buffer.Within s.Owned)
    (hlists : a < s.nextArray → ∀ v ∈ (f (s.arrays a)).pwArgsBuffers, v < s.nextView) :
    Confines (PWArgsArrayBuffer.update a f) s fun _ s' =>
      s' = s.setArray a (f (s.arrays a)) := by
  refine Keeps.of_ok _ (s.setArray a (f (s.arrays a))) rfl ?_ ?_ rfl
  . constructor
    . exact h.buffers
    . exact h.known
    . intro b hb
      by_cases heq : b = a
      . rw [heq] at hb ⊢
        simp only [setArray, Function.update_self]
        exact hbuffer hb
      . simp only [setArray, Function.update_of_ne heq]
        exact h.arrays b hb
    . intro b hb v hv
      by_cases heq : b = a
      . rw [heq] at hb hv
        simp only [setArray, Function.update_self] at hv
        exact hlists hb v hv
      . simp only [setArray, Function.update_of_ne heq] at hv
        exact h.lists b hb v hv
    . exact h.views
  . exact Confined.of_eq rfl rfl rfl (Nat.le_refl _) (Nat.le_refl _)

theorem confines_resetArray {a : Nat} (h : Inside s) (ha : a < s.nextArray) (start num : Nat) :
    Confines (PWArgsArrayBuffer.reset a start num) s fun _ s' => s'.arena = s.arena := by
  have hwithin := h.arrays a ha
  have hlist := h.lists a ha
  unfold PWArgsArrayBuffer.reset
  apply Keeps.bind (confines_updateArray h (fun _ => hwithin) fun _ => hlist)
  rintro _ _ h₁ _ rfl
  apply Keeps.get_bind
  apply Keeps.bind (confines_liftNative h₁)
  rintro b₂ _ h₂ _ ⟨hb₂, rfl⟩
  simp only [setArray, Function.update_self] at hb₂
  have hwithin₂ := hwithin.setLimit hb₂
  apply Keeps.bind (confines_updateArray h₂ (fun _ => hwithin₂) ?_)
  . rintro _ _ h₃ _ rfl
    apply Keeps.bind (confines_liftNative h₃)
    rintro b₄ _ h₄ _ ⟨hb₄, rfl⟩
    apply (confines_updateArray h₄ (fun _ => hwithin₂.setPosition hb₄) ?_).mono (fun _ hs => hs)
    . rintro _ _ _ _ rfl
      rfl
    . intro _
      simpa only [setArray, Function.update_self] using hlist
  . intro _
    simpa only [setArray, Function.update_self] using hlist

theorem confines_addViews {a : Nat} (h : Inside s) (ha : a < s.nextArray) (i n : Nat) :
    Confines (PWArgsArrayBuffer.addViews a i n) s fun _ _ => True := by
  induction n generalizing s with
  | zero => exact Keeps.pure h trivial
  | succ n ih =>
    unfold PWArgsArrayBuffer.addViews
    apply Keeps.get_bind
    apply Keeps.bind (confines_newView h (h.arrays a ha) _)
    intro v s₁ h₁ hs₁ ⟨hv, harrays, hnextArray⟩
    apply Keeps.bind (confines_updateArray h₁ ?_ ?_)
    . rintro _ _ h₂ hs₂ rfl
      exact ih h₂ (Nat.lt_of_lt_of_le ha (hs₁.nextArray.trans hs₂.nextArray))
    . exact h₁.arrays a
    . intro _ w hw
      rw [harrays] at hw
      rcases List.mem_append.mp hw with hw | hw
      . exact Nat.lt_of_lt_of_le (h.lists a ha w hw) hs₁.nextView
      . exact List.mem_singleton.mp hw ▸ hv

theorem confines_getView {array : Option Nat} (h : Inside s) (harray : ∀ a ∈ array, a < s.nextArray)
    (i : Nat) :
    Confines (PWArgsArrayBuffer.getView array i) s fun v s' => v < s'.nextView := by
  unfold PWArgsArrayBuffer.getView
  split
  . exact Keeps.throw h trivial
  . next a =>
    have ha := harray a rfl
    apply Keeps.get_bind
    split
    . exact Keeps.throw h trivial
    . apply Keeps.get_bind
      apply Keeps.bind (confines_addViews h ha _ _)
      intro _ s₁ h₁ hs₁ _
      apply Keeps.get_bind
      dsimp only
      split
      . exact Keeps.throw h₁ trivial
      . next v hv =>
        have hlt := h₁.lists a (Nat.lt_of_lt_of_le ha hs₁.nextArray) v (List.mem_of_getElem? hv)
        apply Keeps.bind (confines_resetView h₁ hlt _)
        intro _ s₂ h₂ _ hnextView
        exact Keeps.pure h₂ (hnextView ▸ hlt)

theorem confines_getAddress (h : Inside s) (array : Option Nat) :
    Confines (PWArgsArrayBuffer.getAddress array) s fun _ s' => s' = s := by
  unfold PWArgsArrayBuffer.getAddress
  split
  . exact Keeps.pure h rfl
  . apply Keeps.get_bind
    exact Keeps.pure h rfl

end Arrays

section NewBuffer

theorem exec_allocateDirect_cases (alloc : Allocator) (capacity : Int) (s : SerializerState) :
    (∃ e, exec (allocateDirect alloc capacity) s = (.error e, s)) ∨
      ∃ address, alloc.address s.regions capacity.toNat = some address ∧
        exec (allocateDirect alloc capacity) s =
          (.ok ⟨address, capacity.toNat, capacity.toNat, 0⟩, s.withRegion address capacity.toNat) := by
  unfold allocateDirect
  split
  . exact Or.inl ⟨_, rfl⟩
  . rw [exec_bind, exec_get]
    dsimp only
    split
    . exact Or.inl ⟨_, rfl⟩
    . next address haddress => exact Or.inr ⟨address, haddress, rfl⟩

theorem guarantee_withRegion {alloc : Allocator} {address n : Nat} {O' : Set Nat} (O : Set Nat)
    (haddress : alloc.address s.regions n = some address)
    (hO' : ∀ x ∈ O', x ∈ O ∨ address ≤ x ∧ x < address + n) :
    Guarantee O O' s.store (s.withRegion address n).store := by
  have hfree (x : Nat) (hx : address ≤ x ∧ x < address + n) : x ∉ s.store.allocated := by
    intro ⟨r, hr, hmem⟩
    have := alloc.disjoint haddress r hr
    omega
  constructor
  . intro x ⟨r, hr, hx⟩
    exact ⟨r, List.mem_cons_of_mem _ hr, hx⟩
  . intro x hx
    rcases hO' x hx with hx | hx
    . exact Or.inl hx
    . exact Or.inr (hfree x hx)
  . intro x hx _
    apply fill_of_not_mem
    intro hmem
    exact hfree x hmem hx

theorem newBuffer_inside {alloc : Allocator} {address n : Nat} {arena : Arena} (h : Inside s)
    (haddress : alloc.address s.regions n = some address)
    (hbuffers : arena.buffers.Perm (⟨address, n, n, 0⟩ :: s.arena.buffers))
    (hknown : ∀ segment ∈ arena.pwargsSegments, ∀ a ∈ segment.pwargsArrays, a < s.nextArray) :
    Inside { s.withRegion address n with arena := arena } ∧
      Confined s { s.withRegion address n with arena := arena } := by
  have howned : s.Owned ⊆ Owned { s.withRegion address n with arena := arena } := by
    intro x ⟨b, hb, hx⟩
    exact ⟨b, hbuffers.mem_iff.mpr (List.mem_cons_of_mem _ hb), hx⟩
  constructor
  . constructor
    . intro b hb
      rcases List.mem_cons.mp (hbuffers.mem_iff.mp hb) with rfl | hb
      . exact Nat.le_refl _
      . exact h.buffers b hb
    . exact hknown
    . exact fun a ha => (h.arrays a ha).mono howned
    . exact h.lists
    . exact fun v hv => (h.views v hv).mono howned
  . refine ⟨guarantee_withRegion s.Owned haddress ?_, howned, List.subset_cons_self _ _,
      Nat.le_refl _, Nat.le_refl _⟩
    intro x ⟨b, hb, hx⟩
    rcases List.mem_cons.mp (hbuffers.mem_iff.mp hb) with rfl | hb
    . exact Or.inr hx
    . exact Or.inl ⟨b, hb, hx⟩

theorem known_append (h : Inside s) (b : ByteBuffer) :
    ∀ segment ∈ (s.addPWArgs b).arena.pwargsSegments, ∀ a ∈ segment.pwargsArrays,
      a < s.nextArray := by
  intro segment hsegment a ha
  rcases List.mem_append.mp hsegment with hsegment | hsegment
  . exact h.known segment hsegment a ha
  . rw [List.mem_singleton.mp hsegment] at ha
    contradiction

theorem confines_changePWArgsSegment (alloc : Allocator) (h : Inside s) (capacity : Nat) :
    Confines (Arena.changePWArgsSegment alloc capacity) s fun _ _ => True := by
  obtain ⟨size, hsize⟩ : ∃ size, toInt32 (sizeofPwargs * capacity) = size := ⟨_, rfl⟩
  unfold Arena.changePWArgsSegment
  rw [newSegment_eq hsize]
  apply Keeps.get_bind
  dsimp only
  split
  . rcases exec_allocateDirect_cases alloc size s with ⟨e, hexec⟩ | ⟨address, haddress, hexec⟩
    . refine Keeps.of_error e s ?_ h (refl_of Confined s) trivial
      simp only [exec_bind, hexec]
    . have ⟨hinside, hconfined⟩ := newBuffer_inside h haddress buffers_addPWArgs
        (known_append h _)
      refine Keeps.of_ok () _ ?_ hinside hconfined trivial
      simp only [exec_bind, hexec, exec_pure]
      rfl
  . exact confines_modifyArena h rfl rfl

theorem confines_changeStringsSegment (alloc : Allocator) (h : Inside s) (capacity : Nat) :
    Confines (Arena.changeStringsSegment alloc capacity) s fun _ _ => True := by
  unfold Arena.changeStringsSegment StringsSegment.new
  apply Keeps.get_bind
  dsimp only
  split
  . rcases exec_allocateDirect_cases alloc capacity s with
      ⟨e, hexec⟩ | ⟨address, haddress, hexec⟩
    . refine Keeps.of_error e s ?_ h (refl_of Confined s) trivial
      simp only [exec_bind, hexec]
    . have hperm (b : ByteBuffer) : (s.addStrings b).arena.buffers.Perm (b :: s.arena.buffers) := by
        rw [buffers_addStrings]
        exact List.perm_append_singleton _ _
      have ⟨hinside, hconfined⟩ := newBuffer_inside h haddress (hperm _) h.known
      refine Keeps.of_ok () _ ?_ hinside hconfined trivial
      simp only [exec_bind, hexec, exec_pure]
      rfl
  . exact confines_modifyArena h rfl rfl

theorem confines_untilFits {attempt : SerializerM (Option α)} {change : SerializerM Unit}
    {Q : α → SerializerState → Prop}
    (hattempt : ∀ s, Inside s → Confines attempt s fun r s' => ∀ a ∈ r, Q a s')
    (hchange : ∀ s, Inside s → Confines change s fun _ _ => True) (h : Inside s) (fuel : Nat) :
    Confines (untilFits attempt change fuel) s Q := by
  induction fuel generalizing s with
  | zero => exact Keeps.throw h trivial
  | succ fuel ih =>
    apply Keeps.bind (hattempt s h)
    intro r s₁ h₁ _ hr
    cases r with
    | some a => exact Keeps.pure h₁ (hr a rfl)
    | none =>
      apply Keeps.bind (hchange s₁ h₁)
      intro _ s₂ h₂ _ _
      exact ih h₂

end NewBuffer

section Allocate

theorem confines_arrayBuffer {k : Nat} {segment : PWArgsSegment} (h : Inside s)
    (hk : s.arena.pwargsSegments[k]? = some segment) (num : Nat) (getAddressCompatible : Bool) :
    Confines (Arena.arrayBuffer k segment num getAddressCompatible) s fun a s' =>
      a < s'.nextArray := by
  have hwithin := h.within (List.mem_of_getElem? (Arena.getElem?_buffers_pwargs hk))
  have hknown := h.known segment (List.mem_of_getElem? hk)
  unfold Arena.arrayBuffer
  dsimp only
  split
  . exact (confines_newArray h hwithin.slice _ _).mono (fun _ hs => hs) fun _ _ _ _ ha => ha.1
  . split
    . apply Keeps.bind (confines_newArray h hwithin _ _)
      intro a s₁ h₁ hs₁ ⟨ha, harena⟩
      have hk₁ : s₁.arena.pwargsSegments[k]? = some segment := harena ▸ hk
      apply Keeps.bind (Q := fun _ _ => True)
      . apply confines_setPWArgsSegment h₁ hk₁
        . rfl
        . exact hwithin.limit
        . intro b hb
          rcases List.mem_append.mp hb with hb | hb
          . exact Nat.lt_of_lt_of_le (hknown b hb) hs₁.nextArray
          . exact List.mem_singleton.mp hb ▸ ha
      . intro _ s₂ h₂ hs₂ _
        exact Keeps.pure h₂ (Nat.lt_of_lt_of_le ha hs₂.nextArray)
    . next a ha =>
      have hlt := hknown a (List.mem_of_getElem? ha)
      apply Keeps.bind (confines_resetArray h hlt _ _)
      intro _ s₁ h₁ hs₁ harena
      have hk₁ : s₁.arena.pwargsSegments[k]? = some segment := harena ▸ hk
      apply Keeps.bind (Q := fun _ _ => True)
      . apply confines_setPWArgsSegment h₁ hk₁
        . rfl
        . exact hwithin.limit
        . exact fun b hb => Nat.lt_of_lt_of_le (hknown b hb) hs₁.nextArray
      . intro _ s₂ h₂ hs₂ _
        exact Keeps.pure h₂ (Nat.lt_of_lt_of_le hlt (hs₁.nextArray.trans hs₂.nextArray))

theorem confines_allocate (h : Inside s) (k num : Nat) (getAddressCompatible : Bool) :
    Confines (Arena.allocate k num getAddressCompatible) s fun r s' =>
      ∀ a ∈ r, a < s'.nextArray := by
  unfold Arena.allocate
  apply Keeps.bind (confines_getPWArgsSegment h k)
  rintro segment _ h _ ⟨rfl, hk⟩
  split
  . exact Keeps.pure h fun a ha => nomatch ha
  . apply Keeps.bind (confines_arrayBuffer h hk num getAddressCompatible)
    intro a s₁ h₁ _ ha
    apply Keeps.bind (confines_getPWArgsSegment h₁ k)
    rintro segment₁ _ h₂ _ ⟨rfl, hk₁⟩
    have hmem := List.mem_of_getElem? (Arena.getElem?_buffers_pwargs hk₁)
    apply Keeps.bind (confines_liftNative h₂)
    rintro buffer _ h₃ _ ⟨hbuffer, rfl⟩
    have hlimit := ((h₃.within hmem).setPosition hbuffer).limit
    apply Keeps.bind (Q := fun _ _ => True)
    . apply confines_setPWArgsSegment h₃ hk₁
      . exact ByteBuffer.range_setPosition hbuffer
      . exact hlimit
      . exact h₃.known segment₁ (List.mem_of_getElem? hk₁)
    . intro _ s₄ h₄ hs₄ _
      apply Keeps.bind (confines_handOut h₄ _ _)
      intro _ s₅ h₅ hs₅ _
      refine Keeps.pure h₅ fun b hb => ?_
      cases hb
      exact Nat.lt_of_lt_of_le ha (hs₄.nextArray.trans hs₅.nextArray)

theorem confines_allocatePWArgsBuffer (alloc : Allocator) (h : Inside s) (num : Nat)
    (getAddressCompatible : Bool) :
    Confines (Arena.allocatePWArgsBuffer alloc num getAddressCompatible) s fun a s' =>
      a < s'.nextArray := by
  unfold Arena.allocatePWArgsBuffer
  apply Keeps.get_bind
  dsimp only
  apply Keeps.bind (Q := fun a s' => a < s'.nextArray)
  . apply confines_untilFits
    . intro s₁ h₁
      apply Keeps.get_bind
      exact confines_allocate h₁ _ num getAddressCompatible
    . intro s₁ h₁
      exact confines_changePWArgsSegment alloc h₁ _
    . exact h
  . intro a s₁ h₁ _ ha
    apply Keeps.bind (Q := fun _ _ => True)
    . apply confines_modifyArena h₁
      . split
        . rfl
        . rfl
      . split
        . rfl
        . rfl
    . intro _ s₂ h₂ hs₂ _
      exact Keeps.pure h₂ (Nat.lt_of_lt_of_le ha hs₂.nextArray)

end Allocate

section Strings

theorem confines_putString (h : Inside s) (k : Nat) (bs : List UInt8) :
    Confines (Arena.putString k bs) s fun _ _ => True := by
  unfold Arena.putString
  apply Keeps.bind (confines_getStringsSegment h k)
  rintro segment _ h _ ⟨rfl, hk⟩
  have hwithin := h.within (List.mem_of_getElem? (Arena.getElem?_buffers_strings hk))
  apply Keeps.bind (confines_putBytes h hwithin bs)
  intro b s₁ h₁ _ ⟨_, harena, hb⟩
  have hk₁ : s₁.arena.stringsSegments[k]? = some segment := harena ▸ hk
  rw [hb]
  exact confines_setStringsSegment h₁ hk₁ rfl hwithin.limit

theorem confines_encode (h : Inside s) (k : Nat) (str : CharSeq) :
    Confines (Arena.encode k str) s fun _ _ => True := by
  unfold Arena.encode
  split
  . exact confines_putString h k _
  . split
    . apply Keeps.bind (confines_putString h k _)
      intro _ s₁ h₁ _ _
      exact Keeps.throw h₁ trivial
    . exact confines_putString h k _

theorem confines_writeNulTerminated (h : Inside s) (k : Nat) (str : CharSeq) (maxBytes : Nat) :
    Confines (Arena.writeNulTerminated k str maxBytes) s fun _ _ => True := by
  unfold Arena.writeNulTerminated
  apply Keeps.bind (confines_getStringsSegment h k)
  rintro segment _ h _ ⟨rfl, -⟩
  split
  . exact Keeps.pure h trivial
  . apply Keeps.bind (Q := fun _ _ => True)
    . unfold Arena.encodeRemaining
      split
      . exact confines_encode h k str
      . exact Keeps.pure h trivial
    . intro _ s₁ h₁ _ _
      apply Keeps.bind (confines_getStringsSegment h₁ k)
      rintro _ _ h₂ _ ⟨rfl, -⟩
      apply Keeps.bind (confines_putString h₂ k _)
      intro _ s₃ h₃ _ _
      apply Keeps.bind (confines_handOut h₃ _ _)
      intro _ s₄ h₄ _ _
      exact Keeps.pure h₄ trivial

theorem confines_writeStringUnlimited (alloc : Allocator) (h : Inside s) (str : CharSeq) :
    Confines (Arena.writeStringUnlimited alloc str) s fun _ _ => True := by
  unfold Arena.writeStringUnlimited
  dsimp only
  split
  . exact Keeps.pure h trivial
  . apply Keeps.bind (confines_modifyArena h rfl rfl)
    intro _ s₁ h₁ _ _
    apply Keeps.get_bind
    apply Keeps.bind (Q := fun _ _ => True)
    . apply confines_untilFits
      . intro s₂ h₂
        apply Keeps.get_bind
        exact (confines_writeNulTerminated h₂ _ str _).mono (fun _ hs => hs)
          fun _ _ _ _ _ _ _ => trivial
      . intro s₂ h₂
        exact confines_changeStringsSegment alloc h₂ _
      . exact h₁
    . intro _ s₂ h₂ _ _
      apply Keeps.bind (confines_modifyArena h₂ rfl rfl)
      intro _ s₃ h₃ _ _
      exact Keeps.pure h₃ trivial

end Strings

end SerializerState

end Ddwaf
