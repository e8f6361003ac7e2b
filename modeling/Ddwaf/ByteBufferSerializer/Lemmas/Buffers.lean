import Ddwaf.ByteBufferSerializer.Basic

/-!
This module contains the lemmas about the buffers of an arena: which addresses are in use, and that
this only grows when a position moves on or a buffer is added.
-/

namespace Ddwaf

abbrev Range := Nat × Nat

def Range.Disjoint (r r' : Range) : Prop := r.1 + r.2 ≤ r'.1 ∨ r'.1 + r'.2 ≤ r.1

theorem Range.Disjoint.symm {r r' : Range} (h : r.Disjoint r') : r'.Disjoint r := Or.symm h

def ByteBuffer.range (b : ByteBuffer) : Range := (b.address, b.capacity)

def ByteBuffer.Uses (b : ByteBuffer) (x : Nat) : Prop :=
  b.address ≤ x ∧ x < b.address + b.position

structure ByteBuffer.Ok (b : ByteBuffer) : Prop where
  pos : 0 < b.address
  le : b.address + b.capacity ≤ 2 ^ 63
  limit : b.limit = b.capacity
  position : b.position ≤ b.capacity

def UsedIn (bs : List ByteBuffer) (x : Nat) : Prop := ∃ b ∈ bs, b.Uses x

structure BuffersOk (bs : List ByteBuffer) (regions : List Range) : Prop where
  ok : ∀ b ∈ bs, b.Ok
  disjoint : (bs.map ByteBuffer.range).Pairwise Range.Disjoint
  regions : ∀ b ∈ bs, b.range ∈ regions

theorem mem_set {bs : List ByteBuffer} {i : Nat} {b c : ByteBuffer} (h : c ∈ bs.set i b) :
    c = b ∨ c ∈ bs := by
  rcases List.mem_or_eq_of_mem_set h with h | h
  . right
    exact h
  . left
    exact h

theorem map_range_set {bs : List ByteBuffer} {i : Nat} {b b' : ByteBuffer} (hi : bs[i]? = some b)
    (hrange : b'.range = b.range) :
    (bs.set i b').map ByteBuffer.range = bs.map ByteBuffer.range := by
  rw [List.map_set, hrange]
  apply List.ext_getElem?
  intro j
  rw [List.getElem?_set]
  split
  . next hij =>
    subst hij
    rw [List.getElem?_map, hi]
    have hlt := (List.getElem?_eq_some_iff.mp hi).1
    simp [hlt]
  . rfl

theorem BuffersOk.set {bs : List ByteBuffer} {regions : List Range} {i : Nat} {b b' : ByteBuffer}
    (h : BuffersOk bs regions) (hi : bs[i]? = some b) (hrange : b'.range = b.range) (hb' : b'.Ok) :
    BuffersOk (bs.set i b') regions := by
  have hmem : b ∈ bs := List.mem_of_getElem? hi
  constructor
  . intro c hc
    rcases mem_set hc with hc | hc
    . rw [hc]
      exact hb'
    . exact h.ok c hc
  . rw [map_range_set hi hrange]
    exact h.disjoint
  . intro c hc
    rcases mem_set hc with hc | hc
    . rw [hc, hrange]
      exact h.regions b hmem
    . exact h.regions c hc

theorem BuffersOk.mono {bs : List ByteBuffer} {regions regions' : List Range}
    (h : BuffersOk bs regions) (hsub : ∀ r ∈ regions, r ∈ regions') : BuffersOk bs regions' := by
  constructor
  . exact h.ok
  . exact h.disjoint
  . intro b hb
    exact hsub _ (h.regions b hb)

theorem BuffersOk.perm {bs bs' : List ByteBuffer} {regions : List Range} (h : BuffersOk bs regions)
    (hperm : bs'.Perm bs) : BuffersOk bs' regions := by
  constructor
  . intro b hb
    exact h.ok b (hperm.mem_iff.mp hb)
  . apply (hperm.map ByteBuffer.range).symm.pairwise h.disjoint
    intro r r' hr
    exact hr.symm
  . intro b hb
    exact h.regions b (hperm.mem_iff.mp hb)

theorem BuffersOk.cons {bs : List ByteBuffer} {regions : List Range} {b : ByteBuffer}
    (h : BuffersOk bs regions) (hb : b.Ok) (hnew : ∀ r ∈ regions, Range.Disjoint b.range r) :
    BuffersOk (b :: bs) (b.range :: regions) := by
  constructor
  . exact List.forall_mem_cons.mpr ⟨hb, h.ok⟩
  . rw [List.map_cons, List.pairwise_cons]
    refine ⟨?_, h.disjoint⟩
    intro r hr
    obtain ⟨c, hc, rfl⟩ := List.mem_map.mp hr
    exact hnew _ (h.regions c hc)
  . intro c hc
    rcases List.mem_cons.mp hc with hc | hc
    . rw [hc]
      exact List.mem_cons_self ..
    . exact List.mem_cons_of_mem _ (h.regions c hc)

theorem UsedIn.set {bs : List ByteBuffer} {i : Nat} {b b' : ByteBuffer} {x : Nat}
    (hx : UsedIn bs x) (hi : bs[i]? = some b) (haddress : b'.address = b.address)
    (hposition : b.position ≤ b'.position) : UsedIn (bs.set i b') x := by
  obtain ⟨c, hc, huses⟩ := hx
  obtain ⟨j, hj⟩ := List.getElem?_of_mem hc
  by_cases hij : i = j
  . subst hij
    rw [hi, Option.some.injEq] at hj
    have hlt := (List.getElem?_eq_some_iff.mp hi).1
    refine ⟨b', List.mem_set hlt b', ?_⟩
    unfold ByteBuffer.Uses at huses ⊢
    rw [← hj] at huses
    omega
  . refine ⟨c, ?_, huses⟩
    apply List.mem_of_getElem? (i := j)
    rw [List.getElem?_set_ne hij]
    exact hj

theorem BuffersOk.not_usedIn {bs : List ByteBuffer} {regions : List Range} {i : Nat} {b : ByteBuffer}
    (h : BuffersOk bs regions) (hi : bs[i]? = some b) {x : Nat} (hge : b.address + b.position ≤ x)
    (hlt : x < b.address + b.capacity) : ¬UsedIn bs x := by
  rintro ⟨c, hc, huses⟩
  obtain ⟨j, hj⟩ := List.getElem?_of_mem hc
  have hcap := (h.ok c hc).position
  unfold ByteBuffer.Uses at huses
  by_cases hij : i = j
  . rw [hij, hj, Option.some.injEq] at hi
    rw [hi] at huses
    omega
  . have hdisjoint : b.range.Disjoint c.range := by
      have hpair := List.pairwise_iff_getElem.mp h.disjoint
      obtain ⟨hilt, hib⟩ := List.getElem?_eq_some_iff.mp hi
      obtain ⟨hjlt, hjc⟩ := List.getElem?_eq_some_iff.mp hj
      rcases Nat.lt_or_gt_of_ne hij with hlt | hlt
      . have := hpair i j (by simpa using hilt) (by simpa using hjlt) hlt
        simpa [hib, hjc] using this
      . have := hpair j i (by simpa using hjlt) (by simpa using hilt) hlt
        simpa [hib, hjc] using this.symm
    unfold Range.Disjoint ByteBuffer.range at hdisjoint
    simp only at hdisjoint
    omega

end Ddwaf
