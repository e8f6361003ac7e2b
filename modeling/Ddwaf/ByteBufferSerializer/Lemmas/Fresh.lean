import Ddwaf.ByteBufferSerializer.Lemmas.Arrays

/-!
This module contains the lemmas about arenas in which nothing is in use: new ones, and ones that were
reset.
-/

namespace Ddwaf

open Memory Program

namespace SerializerState

/-- The arena of `new Arena()`, whatever else there is in memory. -/
def Fresh (s : SerializerState) : Prop :=
  ∃ alloc s₀ s₁ arena, exec (Arena.new alloc) s₀ = (.ok arena, s₁) ∧
    s = { s₁ with arena := arena, nextArray := 0, nextView := 0, handedOut := [] }

def reset (s : SerializerState) : SerializerState :=
  { s with arena := s.arena.reset, handedOut := [] }

theorem allocateDirect_ok {alloc : Allocator} {capacity : Int} {s s' : SerializerState} {b : ByteBuffer}
    (h : exec (allocateDirect alloc capacity) s = (.ok b, s')) :
    ∃ address, alloc.address s.regions capacity.toNat = some address ∧
      b = ⟨address, capacity.toNat, capacity.toNat, 0⟩ ∧
      s' = s.withRegion address capacity.toNat := by
  unfold allocateDirect at h
  split at h
  . cases h
  . rw [exec_bind, exec_get] at h
    dsimp only at h
    split at h
    . cases h
    . next address haddress =>
      cases h
      exact ⟨address, haddress, rfl, rfl⟩

theorem ok_of_address {alloc : Allocator} {regions : List Range} {n address : Nat}
    (h : alloc.address regions n = some address) : ByteBuffer.Ok ⟨address, n, n, 0⟩ :=
  ⟨alloc.pos h, alloc.le h, rfl, Nat.zero_le n⟩

theorem bind_ok {x : SerializerM α} {f : α → SerializerM β} {s t : SerializerState} {b : β}
    (h : exec (x >>= f) s = (.ok b, t)) :
    ∃ a s', exec x s = (.ok a, s') ∧ exec (f a) s' = (.ok b, t) := by
  rw [exec_bind] at h
  cases hx : exec x s with
  | mk r s' =>
    rw [hx] at h
    cases r with
    | error e => cases h
    | ok a => exact ⟨a, s', rfl, h⟩

theorem newArena_ok {alloc : Allocator} {s₀ s₁ : SerializerState} {arena : Arena}
    (h : exec (Arena.new alloc) s₀ = (.ok arena, s₁)) :
    ∃ b c, arena = ⟨[⟨b, [], 0⟩], 0, none, [⟨c, c.address⟩], 0, none⟩ ∧
      BuffersOk [b, c] s₁.regions ∧ b.position = 0 ∧ c.position = 0 := by
  obtain ⟨e, s, he, h⟩ := bind_ok h
  obtain ⟨b, s', hb, he⟩ := bind_ok he
  obtain ⟨address, haddress, rfl, rfl⟩ := allocateDirect_ok hb
  cases he
  obtain ⟨e', s', hs, h⟩ := bind_ok h
  obtain ⟨c, s'', hc, hs⟩ := bind_ok hs
  obtain ⟨address', haddress', rfl, rfl⟩ := allocateDirect_ok hc
  cases hs
  cases h
  refine ⟨_, _, rfl, ?_, rfl, rfl⟩
  have hempty : BuffersOk [] s₀.regions := by
    constructor
    . intro b hb
      contradiction
    . exact List.Pairwise.nil
    . intro b hb
      contradiction
  have hone := hempty.cons (ok_of_address haddress) (alloc.disjoint haddress)
  exact (hone.cons (ok_of_address haddress') (alloc.disjoint haddress')).perm (List.Perm.swap _ _ [])

theorem Fresh.wf {s : SerializerState} (h : Fresh s) : WF s := by
  obtain ⟨alloc, s₀, s₁, arena, hnew, rfl⟩ := h
  obtain ⟨b, c, rfl, hbuffers, hb, hc⟩ := newArena_ok hnew
  constructor
  . exact Nat.one_pos
  . exact Nat.one_pos
  . exact hbuffers
  . intro segment hsegment
    rw [List.mem_singleton.mp hsegment]
  . constructor
    . intro segment hsegment a ha
      rw [List.mem_singleton.mp hsegment] at ha
      contradiction
    . intro a ha
      exact absurd ha (Nat.not_lt_zero a)
    . intro segment hsegment
      rw [List.mem_singleton.mp hsegment]
      exact Nat.le_refl 0
    . exact List.nodup_nil
  . constructor
    . intro r hr
      contradiction
    . intro r hr
      contradiction
    . exact List.Pairwise.nil

theorem Fresh.not_used {s : SerializerState} (h : Fresh s) (x : Nat) : ¬s.Used x := by
  obtain ⟨alloc, s₀, s₁, arena, hnew, rfl⟩ := h
  obtain ⟨b, c, rfl, hbuffers, hb, hc⟩ := newArena_ok hnew
  rintro ⟨d, hd, huses⟩
  unfold ByteBuffer.Uses at huses
  simp only [Arena.buffers, List.map_cons, List.map_nil, List.mem_append, List.mem_singleton] at hd
  rcases hd with rfl | rfl
  . omega
  . omega

theorem buffers_reset (arena : Arena) :
    arena.reset.buffers = arena.buffers.map ByteBuffer.clear := by
  simp only [Arena.reset, Arena.buffers, List.map_append, List.map_map]
  rfl

theorem buffersOk_clear {bs : List ByteBuffer} {regions : List Range} (h : BuffersOk bs regions) :
    BuffersOk (bs.map ByteBuffer.clear) regions := by
  constructor
  . intro b hb
    obtain ⟨c, hc, rfl⟩ := List.mem_map.mp hb
    have hok := h.ok c hc
    exact ⟨hok.pos, hok.le, rfl, Nat.zero_le _⟩
  . rw [List.map_map]
    exact h.disjoint
  . intro b hb
    obtain ⟨c, hc, rfl⟩ := List.mem_map.mp hb
    exact h.regions c hc

theorem WF.reset {s : SerializerState} (h : WF s) : WF s.reset := by
  constructor
  . have := h.curPWArgs
    simp only [SerializerState.reset, Arena.reset, List.length_map]
    omega
  . have := h.curStrings
    simp only [SerializerState.reset, Arena.reset, List.length_map]
    omega
  . unfold SerializerState.reset
    rw [buffers_reset]
    exact buffersOk_clear h.buffers
  . intro segment hsegment
    obtain ⟨segment', hsegment', rfl⟩ := List.mem_map.mp hsegment
    exact h.base segment' hsegment'
  . constructor
    . intro segment hsegment
      obtain ⟨segment', hsegment', rfl⟩ := List.mem_map.mp hsegment
      exact h.arrays.known segment' hsegment'
    . exact h.arrays.views
    . intro segment hsegment
      obtain ⟨segment', hsegment', rfl⟩ := List.mem_map.mp hsegment
      exact Nat.zero_le _
    . show ((s.arena.pwargsSegments.map PWArgsSegment.clear).flatMap _).Nodup
      rw [List.flatMap_map]
      exact h.arrays.nodup
  . constructor
    . intro r hr
      contradiction
    . intro r hr
      contradiction
    . exact List.Pairwise.nil

end SerializerState

end Ddwaf
