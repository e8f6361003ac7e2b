import Ddwaf.Native.Json.Impl

namespace Ddwaf

@[simp]
theorem jsonContent_nil : jsonContent [] = [] := by
  rfl

@[simp]
theorem jsonContent_cons (seg : JsonSegment) (chain : List JsonSegment) :
    jsonContent (seg :: chain) = seg.data ++ jsonContent chain := by
  rfl

theorem jsonLength_eq (chain : List JsonSegment) :
    jsonLength chain = (jsonContent chain).length % 2 ^ 64 := by
  have hfold : ∀ res, chain.foldl (fun res p => (res + p.len) % 2 ^ 64) (res % 2 ^ 64) =
      (res + (jsonContent chain).length) % 2 ^ 64 := by
    induction chain with
    | nil => simp
    | cons seg chain ih =>
      intro res
      rw [List.foldl_cons, Nat.mod_add_mod, ih, jsonContent_cons, List.length_append, JsonSegment.len,
        Nat.add_assoc]
  have := hfold 0
  rw [Nat.zero_add] at this
  exact this

def JsonIterator.content (it : JsonIterator) : List UInt8 := (jsonContent it.seg).drop it.pos

def JsonIterator.InSegment (it : JsonIterator) : Prop :=
  match it.seg with
  | [] => True
  | seg :: _ => it.pos ≤ seg.len

theorem JsonIterator.content_nil (pos : Nat) : (JsonIterator.mk [] pos).content = [] := by
  simp [JsonIterator.content]

theorem JsonIterator.content_cons {seg : JsonSegment} {pos : Nat} (chain : List JsonSegment)
    (h : pos ≤ seg.len) :
    (JsonIterator.mk (seg :: chain) pos).content = seg.data.drop pos ++ jsonContent chain := by
  rw [JsonIterator.content, jsonContent_cons, List.drop_append_of_le_length h]

namespace jsonItRead

variable {it : JsonIterator} {outLen : Nat}

structure Invariant (it : JsonIterator) (outLen : Nat) (s : State) : Prop where
  inSegment : s.it.InSegment
  written_le : s.written.length ≤ outLen
  content_eq : s.written ++ s.it.content = it.content

structure Complete (it : JsonIterator) (outLen : Nat) (s : State) : Prop where
  inSegment : s.it.InSegment
  written_eq : s.written = it.content.take outLen
  content_eq : s.it.content = it.content.drop outLen

def Post (it : JsonIterator) (outLen : Nat) (r : Native State) : Prop :=
  ∃ s, r = .ok s ∧ Complete it outLen s

theorem Invariant.complete {s : State} (hs : Invariant it outLen s)
    (h : s.it.content = [] ∨ outLen ≤ s.written.length) : Complete it outLen s := by
  have hle := hs.written_le
  have heq := hs.content_eq
  rcases h with h | h
  . rw [h, List.append_nil] at heq
    constructor
    . exact hs.inSegment
    . rw [← heq, List.take_of_length_le hle]
    . rw [← heq, h, List.drop_of_length_le hle]
  . have hlen : s.written.length = outLen := by omega
    constructor
    . exact hs.inSegment
    . rw [← heq, List.take_left' hlen]
    . rw [← heq, List.drop_left' hlen]

theorem Invariant.skip {seg : JsonSegment} {next : List JsonSegment} {pos : Nat}
    {written : List UInt8} (hs : Invariant it outLen ⟨⟨seg :: next, pos⟩, written⟩)
    (hpos : pos = seg.len) : Invariant it outLen ⟨⟨next, 0⟩, written⟩ := by
  have heq := hs.content_eq
  rw [JsonIterator.content_cons next (Nat.le_of_eq hpos), hpos, JsonSegment.len, List.drop_length,
    List.nil_append] at heq
  constructor
  . unfold JsonIterator.InSegment
    cases next <;> simp
  . exact hs.written_le
  . exact heq

theorem Invariant.copy {seg : JsonSegment} {next : List JsonSegment} {pos n : Nat}
    {written : List UInt8} (hs : Invariant it outLen ⟨⟨seg :: next, pos⟩, written⟩)
    (hpos : pos + n ≤ seg.len) (hout : written.length + n ≤ outLen) :
    Invariant it outLen ⟨⟨seg :: next, pos + n⟩, written ++ (seg.data.drop pos).take n⟩ := by
  have heq := hs.content_eq
  rw [JsonIterator.content_cons next (by omega)] at heq
  constructor
  . exact hpos
  . simp only [List.length_append, List.length_take, List.length_drop]
    omega
  . dsimp only
    rw [JsonIterator.content_cons next hpos, ← List.drop_drop, List.append_assoc,
      ← List.append_assoc (List.take _ _), List.take_append_drop]
    exact heq

theorem turn (hout : outLen ≤ sizeMax) (s : State) (hs : Invariant it outLen s) :
    Loop.Turn (body outLen) (Invariant it outLen)
      (fun s => s.it.seg.length + (outLen - s.written.length)) (Post it outLen) s := by
  obtain ⟨⟨chain, pos⟩, written⟩ := s
  unfold sizeMax at hout
  cases chain with
  | nil =>
    apply Loop.Turn.done ⟨⟨[], pos⟩, written⟩
    . rfl
    . exact ⟨_, rfl, hs.complete (Or.inl (JsonIterator.content_nil pos))⟩
  | cons seg next =>
    have hpos : pos ≤ seg.len := hs.inSegment
    have hlen : seg.len ≤ uint32Max := Nat.le_trans seg.len_le seg.size_le
    have hle : written.length ≤ outLen := hs.written_le
    by_cases hlt : written.length < outLen
    . have havail := subUint32_of_le hpos hlen
      have hleft := subSize_of_le hle (by omega)
      by_cases hzero : seg.len - pos = 0
      . apply Loop.Turn.next ⟨⟨next, 0⟩, written⟩
        . simp only [body, hlt, havail, hzero, ↓reduceIte]
        . exact hs.skip (by omega)
        . simp
      . generalize hcopy : (if seg.len - pos < outLen - written.length then seg.len - pos
          else outLen - written.length) = toCopy
        have hcopyPos : 0 < toCopy := by
          rw [← hcopy]
          split <;> omega
        have hcopySeg : pos + toCopy ≤ seg.len := by
          rw [← hcopy]
          split <;> omega
        have hcopyOut : written.length + toCopy ≤ outLen := by
          rw [← hcopy]
          split <;> omega
        have hcopyLen : ((seg.data.drop pos).take toCopy).length = toCopy := by
          rw [List.length_take_of_le]
          rw [List.length_drop]
          unfold JsonSegment.len at hcopySeg
          omega
        have hmod : (pos + toCopy) % 2 ^ 32 = pos + toCopy := by
          apply Nat.mod_eq_of_lt
          unfold uint32Max at hlen
          omega
        apply Loop.Turn.next ⟨⟨seg :: next, pos + toCopy⟩, written ++ (seg.data.drop pos).take toCopy⟩
        . simp only [body, hlt, havail, hleft, hzero, hcopy, ↓reduceIte, hmod]
          rw [loadRange_of_le hcopySeg, ok_bind, store_of_le (by omega)]
          rfl
        . exact hs.copy hcopySeg hcopyOut
        . simp only [List.length_append, hcopyLen]
          omega
    . apply Loop.Turn.done ⟨⟨seg :: next, pos⟩, written⟩
      . simp only [body, hlt, ↓reduceIte]
      . exact ⟨_, rfl, hs.complete (Or.inr (by simpa using hlt))⟩

end jsonItRead

open jsonItRead in
theorem jsonItRead_eq {it : JsonIterator} {outLen : Nat} (hit : it.InSegment)
    (hout : outLen ≤ sizeMax) :
    ∃ s, jsonItRead it outLen = .ok s ∧ jsonItRead.Complete it outLen s := by
  apply Loop.run_of_turn (turn hout)
  . constructor
    . exact hit
    . simp
    . rfl
  . simp only [List.length_nil]
    omega

end Ddwaf
