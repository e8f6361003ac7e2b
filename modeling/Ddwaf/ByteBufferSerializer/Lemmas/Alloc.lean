import Ddwaf.ByteBufferSerializer.Lemmas.State

/-!
This module contains what the allocation of a direct buffer and the search for a segment with room do.
-/

namespace Ddwaf

open Memory Program SerializerState

namespace SerializerState

def withRegion (s : SerializerState) (address capacity : Nat) : SerializerState :=
  { s with
    memory := fill s.memory address capacity 0
    regions := (address, capacity) :: s.regions }

section WithRegion

variable {s : SerializerState} {address capacity : Nat}

theorem WF.withRegion (h : WF s) : WF (s.withRegion address capacity) := by
  constructor
  . exact h.curPWArgs
  . exact h.curStrings
  . exact h.buffers.mono fun r hr => List.mem_cons_of_mem _ hr
  . exact h.base
  . exact ⟨h.arrays.known, h.arrays.views, h.arrays.idx, h.arrays.nodup⟩
  . exact ⟨h.handedOut.pos, h.handedOut.inSegment, h.handedOut.disjoint⟩

theorem not_used_of_disjoint (h : WF s)
    (hnew : ∀ r ∈ s.regions, address + capacity ≤ r.1 ∨ r.1 + r.2 ≤ address) {x : Nat}
    (hge : address ≤ x) (hlt : x < address + capacity) : ¬s.Used x := by
  rintro ⟨b, hb, huses⟩
  have hdisjoint := hnew b.range (h.buffers.regions b hb)
  have hcap := (h.buffers.ok b hb).position
  unfold ByteBuffer.Uses at huses
  simp only [ByteBuffer.range] at hdisjoint
  omega

theorem Quiet.withRegion (h : WF s)
    (hnew : ∀ r ∈ s.regions, address + capacity ≤ r.1 ∨ r.1 + r.2 ≤ address) :
    Quiet s (s.withRegion address capacity) := by
  apply Quiet.of_extends
  . constructor
    . exact fun _ hx => hx
    . intro x hx _
      apply fill_of_not_mem
      rintro ⟨hge, hlt⟩
      exact not_used_of_disjoint h hnew hge hlt hx
    . exact fun _ ha => ha
    . exact fun _ _ => ⟨rfl, rfl, rfl⟩
    . exact List.suffix_refl _
    . exact fun _ hv => ⟨hv, rfl⟩
  . rfl
  . rfl
  . rfl
  . rfl

end WithRegion

end SerializerState

theorem keeps_allocateDirect (alloc : Allocator) (capacity : Int) {s : SerializerState} (h : WF s) :
    Keeps WF Quiet CannotAllocate (allocateDirect alloc capacity) s (fun b s' =>
      s'.arena = s.arena ∧ s'.arrays = s.arrays ∧ b.position = 0 ∧ b.capacity = capacity.toNat ∧
        BuffersOk (b :: s'.arena.buffers) s'.regions) := by
  unfold allocateDirect
  split
  . exact Keeps.throw h .capacity
  . apply Keeps.get_bind
    split
    . exact Keeps.throw h .directMemory
    . next address haddress =>
      have hnew := alloc.disjoint haddress
      apply Keeps.of_ok ⟨address, capacity.toNat, capacity.toNat, 0⟩
        (s.withRegion address capacity.toNat)
      . rfl
      . exact h.withRegion
      . exact Quiet.withRegion h hnew
      . refine ⟨rfl, rfl, rfl, rfl, ?_⟩
        exact h.buffers.cons ⟨alloc.pos haddress, alloc.le haddress, rfl, Nat.zero_le _⟩ hnew

theorem keeps_untilFits {R : SerializerState → SerializerState → Prop}
    [IsPreorder SerializerState R] {attempt : SerializerM (Option α)} {change : SerializerM Unit}
    {E : Stop → Prop} {J : SerializerState → Prop} {Q : α → SerializerState → Prop}
    (hattempt : ∀ s, WF s → J s → Keeps WF R E attempt s (fun r s' =>
      match r with
      | none => J s'
      | some a => Q a s'))
    (hchange : ∀ s, WF s → J s → Keeps WF R E change s (fun _ s' => J s'))
    (hE : ∀ e, CannotAllocate e → E e) (fuel : Nat) {s : SerializerState} (h : WF s) (hJ : J s) :
    Keeps WF R E (untilFits attempt change fuel) s Q := by
  induction fuel generalizing s with
  | zero => exact Keeps.throw h (hE _ .heapSpace)
  | succ fuel ih =>
    apply Keeps.bind (hattempt s h hJ)
    intro r s1 h1 _ hr
    cases r with
    | some a => exact Keeps.pure h1 hr
    | none =>
      apply Keeps.bind (hchange s1 h1 hr)
      intro _ s2 h2 _ hJ2
      exact ih h2 hJ2

end Ddwaf
