import Ddwaf.ByteBufferSerializer.Lemmas.Views
import Ddwaf.ByteBufferSerializer.Lemmas.Strings
import Ddwaf.Lib.SharedMemory

/-!
This module contains what the serializer does to the memory that it shares with the rest of the process:
it writes to the buffers of its arena only, and the buffers that it gets are new.
-/

namespace Ddwaf

open Memory Program SharedMemory

def ByteBuffer.addresses (b : ByteBuffer) : Set Nat :=
  { x | b.address ≤ x ∧ x < b.address + b.capacity }

structure ByteBuffer.Within (b : ByteBuffer) (O : Set Nat) : Prop where
  limit : b.limit ≤ b.capacity
  addresses : b.addresses ⊆ O

namespace ByteBuffer

variable {b b' : ByteBuffer} {O O' : Set Nat}

theorem Within.mono (h : b.Within O) (hO : O ⊆ O') : b.Within O' :=
  ⟨h.limit, h.addresses.trans hO⟩

theorem Within.setLimit {newLimit : Nat} (h : b.Within O) (hb' : b.setLimit newLimit = .ok b') :
    b'.Within O := by
  unfold ByteBuffer.setLimit at hb'
  split at hb'
  . contradiction
  . cases hb'
    exact ⟨by dsimp only; omega, h.addresses⟩

theorem Within.setPosition {newPosition : Nat} (h : b.Within O)
    (hb' : b.setPosition newPosition = .ok b') : b'.Within O := by
  unfold ByteBuffer.setPosition at hb'
  split at hb'
  . contradiction
  . cases hb'
    exact ⟨h.limit, h.addresses⟩

theorem range_setPosition {newPosition : Nat} (hb' : b.setPosition newPosition = .ok b') :
    b'.range = b.range := by
  unfold ByteBuffer.setPosition at hb'
  split at hb'
  . contradiction
  . cases hb'
    rfl

theorem Within.slice (h : b.Within O) : b.slice.Within O := by
  refine ⟨Nat.le_refl _, ?_⟩
  intro x hx
  apply h.addresses
  have hlimit := h.limit
  have ⟨hge, hlt⟩ : b.slice.address ≤ x ∧ x < b.slice.address + b.slice.capacity := hx
  simp only [ByteBuffer.slice] at hge hlt
  show b.address ≤ x ∧ x < b.address + b.capacity
  omega

end ByteBuffer

namespace SerializerState

def Owned (s : SerializerState) : Set Nat := { x | ∃ b ∈ s.arena.buffers, x ∈ b.addresses }

def store (s : SerializerState) : Store where
  memory := s.memory
  allocated := { x | ∃ r ∈ s.regions, r.1 ≤ x ∧ x < r.1 + r.2 }

structure Inside (s : SerializerState) : Prop where
  buffers : ∀ b ∈ s.arena.buffers, b.limit ≤ b.capacity
  known : ∀ segment ∈ s.arena.pwargsSegments, ∀ a ∈ segment.pwargsArrays, a < s.nextArray
  arrays : ∀ a < s.nextArray, (s.arrays a).buffer.Within s.Owned
  lists : ∀ a < s.nextArray, ∀ v ∈ (s.arrays a).pwArgsBuffers, v < s.nextView
  views : ∀ v < s.nextView, (s.views v).Within s.Owned

structure Confined (s s' : SerializerState) : Prop where
  guarantee : Guarantee s.Owned s'.Owned s.store s'.store
  owned : s.Owned ⊆ s'.Owned
  regions : s.regions ⊆ s'.regions
  nextArray : s.nextArray ≤ s'.nextArray
  nextView : s.nextView ≤ s'.nextView

instance : IsPreorder SerializerState Confined where
  refl _ := ⟨Guarantee.refl _ _, Set.Subset.refl _, List.Subset.refl _, Nat.le_refl _,
    Nat.le_refl _⟩
  trans _ _ _ h h' := ⟨h.guarantee.trans h'.guarantee, h.owned.trans h'.owned,
    List.Subset.trans h.regions h'.regions, h.nextArray.trans h'.nextArray, h.nextView.trans h'.nextView⟩

abbrev Confines (x : SerializerM α) (s : SerializerState) (Q : α → SerializerState → Prop) : Prop :=
  Keeps Inside Confined (fun _ => True) x s Q

variable {s : SerializerState}

theorem Inside.within (h : Inside s) {b : ByteBuffer} (hb : b ∈ s.arena.buffers) :
    b.Within s.Owned :=
  ⟨h.buffers b hb, fun _ hx => ⟨b, hb, hx⟩⟩

section SameArena

theorem Inside.of_eq {s' : SerializerState} (h : Inside s) (harena : s'.arena = s.arena)
    (harrays : s'.arrays = s.arrays) (hnextArray : s'.nextArray = s.nextArray)
    (hviews : s'.views = s.views) (hnextView : s'.nextView = s.nextView) : Inside s' := by
  have howned : s'.Owned = s.Owned := by
    rw [Owned, Owned, harena]
  constructor
  . rw [harena]
    exact h.buffers
  . rw [harena, hnextArray]
    exact h.known
  . rw [harrays, hnextArray, howned]
    exact h.arrays
  . rw [harrays, hnextArray, hnextView]
    exact h.lists
  . rw [hviews, hnextView, howned]
    exact h.views

theorem Confined.of_eq {s' : SerializerState} (hmemory : s'.memory = s.memory)
    (hregions : s'.regions = s.regions) (howned : s'.Owned = s.Owned)
    (hnextArray : s.nextArray ≤ s'.nextArray) (hnextView : s.nextView ≤ s'.nextView) :
    Confined s s' := by
  refine ⟨?_, howned.ge, hregions ▸ List.Subset.refl _, hnextArray, hnextView⟩
  rw [howned, store, store, hmemory, hregions]
  exact Guarantee.refl _ _

theorem setArena_inside {arena : Arena} (h : Inside s)
    (hpwargs : arena.pwargsSegments = s.arena.pwargsSegments)
    (hstrings : arena.stringsSegments = s.arena.stringsSegments) :
    Inside { s with arena := arena } ∧ Confined s { s with arena := arena } := by
  have hbuffers : arena.buffers = s.arena.buffers := by
    rw [Arena.buffers, Arena.buffers, hpwargs, hstrings]
  have howned : Owned { s with arena := arena } = s.Owned := by
    rw [Owned, Owned, hbuffers]
  constructor
  . constructor
    . show ∀ b ∈ arena.buffers, _
      rw [hbuffers]
      exact h.buffers
    . show ∀ segment ∈ arena.pwargsSegments, _
      rw [hpwargs]
      exact h.known
    . rw [howned]
      exact h.arrays
    . exact h.lists
    . rw [howned]
      exact h.views
  . exact Confined.of_eq rfl rfl howned (Nat.le_refl _) (Nat.le_refl _)

theorem confines_modifyArena {f : Arena → Arena} (h : Inside s)
    (hpwargs : (f s.arena).pwargsSegments = s.arena.pwargsSegments)
    (hstrings : (f s.arena).stringsSegments = s.arena.stringsSegments) :
    Confines (modifyArena f) s fun _ _ => True :=
  have ⟨hinside, hconfined⟩ := setArena_inside h hpwargs hstrings
  Keeps.modify hinside hconfined trivial

theorem confines_handOut (h : Inside s) (address length : Nat) :
    Confines (handOut address length) s fun _ _ => True :=
  Keeps.modify (h.of_eq rfl rfl rfl rfl rfl)
    (Confined.of_eq rfl rfl rfl (Nat.le_refl _) (Nat.le_refl _)) trivial

theorem confines_liftNative {x : Native α} (h : Inside s) :
    Confines (liftNative x) s fun a s' => x = .ok a ∧ s' = s := by
  cases x with
  | ok a => exact Keeps.pure h ⟨rfl, rfl⟩
  | error e => exact Keeps.throw h trivial

end SameArena

section Buffers

theorem confines_putBytes {b : ByteBuffer} (h : Inside s) (hb : b.Within s.Owned) (bs : List UInt8) :
    Confines (putBytes b bs) s fun b' s' => b'.Within s.Owned ∧ s'.arena = s.arena ∧
      b' = { b with position := b.position + bs.length } := by
  unfold putBytes
  split
  . exact Keeps.throw h trivial
  . next hfits =>
    refine Keeps.of_ok { b with position := b.position + bs.length } _ rfl
      (h.of_eq rfl rfl rfl rfl rfl) ?_ ⟨⟨hb.limit, hb.addresses⟩, rfl, rfl⟩
    refine ⟨⟨Set.Subset.refl _, fun _ hx => Or.inl hx, ?_⟩, Set.Subset.refl _,
      List.Subset.refl _, Nat.le_refl _, Nat.le_refl _⟩
    intro x _ hx
    have hlimit := hb.limit
    by_cases hlt : x < b.address + b.position
    . exact write_of_lt bs hlt
    . apply write_of_ge
      by_contra hge
      apply hx
      apply hb.addresses
      simp only [ByteBuffer.addresses, Set.mem_ofPred_eq]
      omega

theorem owned_set {bs : List ByteBuffer} {i : Nat} {b b' : ByteBuffer} (hi : bs[i]? = some b)
    (hrange : b'.range = b.range) (x : Nat) :
    (∃ c ∈ bs.set i b', x ∈ c.addresses) ↔ ∃ c ∈ bs, x ∈ c.addresses := by
  have haddress : b'.address = b.address := congrArg Prod.fst hrange
  have hcapacity : b'.capacity = b.capacity := congrArg Prod.snd hrange
  have heq : b'.addresses = b.addresses := by
    rw [ByteBuffer.addresses, ByteBuffer.addresses, haddress, hcapacity]
  have hlt := (List.getElem?_eq_some_iff.mp hi).1
  constructor
  . rintro ⟨c, hc, hx⟩
    rcases mem_set hc with rfl | hc
    . exact ⟨b, List.mem_of_getElem? hi, heq ▸ hx⟩
    . exact ⟨c, hc, hx⟩
  . rintro ⟨c, hc, hx⟩
    have ⟨j, hj⟩ := List.getElem?_of_mem hc
    by_cases hij : i = j
    . rw [← hij, hi, Option.some.injEq] at hj
      exact ⟨b', List.mem_set hlt b', heq ▸ hj ▸ hx⟩
    . refine ⟨c, ?_, hx⟩
      apply List.mem_of_getElem? (i := j)
      rw [List.getElem?_set_ne hij]
      exact hj

end Buffers

end SerializerState

end Ddwaf
