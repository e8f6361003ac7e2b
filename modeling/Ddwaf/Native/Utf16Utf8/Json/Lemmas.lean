import Ddwaf.Native.Json.Lemmas.Read
import Ddwaf.Native.Utf16Utf8.Json.Impl
import Ddwaf.Native.Utf16Utf8.Lemmas.Checked

namespace Ddwaf

namespace javaJsonToJstringChecked

def State.remaining (s : State) : List UInt8 := s.buffer.drop s.bufferCursor ++ s.it.content

structure Window (s : State) : Prop where
  inSegment : s.it.InSegment
  cursor_le : s.bufferCursor ≤ s.buffer.length
  buffer_le : s.buffer.length ≤ bufferSize
  eof : s.eof = true → s.it.content = []

/--
Only a window that is full or used up is refilled, so that the bytes left in it are moved by more
than their number.
-/
structure Invariant (content : List UInt8) (s : State) : Prop extends Window s where
  full : s.eof = false → s.buffer.length = bufferSize ∨ s.bufferCursor = s.buffer.length
  out_le : s.out.length + s.remaining.length ≤ content.length
  out_eq : s.out ++ jstringUnits (Utf8.decode s.remaining) = jstringUnits (Utf8.decode content)

theorem compact_eq {s : State} (hs : Window s)
    (hfull : s.buffer.length = bufferSize ∨ s.bufferCursor = s.buffer.length)
    (hleft : s.buffer.length - s.bufferCursor < 4) :
    compact s.buffer s.bufferCursor (s.buffer.length - s.bufferCursor) =
      .ok (s.buffer.drop s.bufferCursor) := by
  have hle := hs.cursor_le
  unfold bufferSize at hfull
  unfold compact
  rw [if_neg (by omega), loadRange_of_le (by omega), List.take_of_length_le]
  simp

def Ready (s : State) : Prop := 4 ≤ s.buffer.length - s.bufferCursor ∨ s.it.content = []

theorem refill_skip {content : List UInt8} {s : State} (hs : Invariant content s)
    (h : ¬ (s.buffer.length - s.bufferCursor < 4 ∧ (!s.eof) = true)) : Ready s := by
  unfold Ready
  cases heof : s.eof with
  | true => exact Or.inr (hs.eof heof)
  | false =>
    rw [heof] at h
    simp only [Bool.not_false, and_true] at h
    omega

theorem Invariant.refill {content : List UInt8} {s : State} (hs : Invariant content s)
    {read : jsonItRead.State} {maxRead : Nat}
    (hmax : s.buffer.length - s.bufferCursor + maxRead = bufferSize)
    (hread : jsonItRead.Complete s.it maxRead read) :
    ∃ s', s' = State.mk read.it (s.buffer.drop s.bufferCursor ++ read.written) 0
        (decide (read.written.length < maxRead)) s.out ∧
      Invariant content s' ∧ Ready s' ∧ s'.remaining = s.remaining := by
  refine ⟨_, rfl, ?_⟩
  generalize hs' : State.mk _ _ _ _ _ = s'
  have hwritten : read.written.length ≤ maxRead := by
    rw [hread.written_eq]
    exact List.length_take_le maxRead _
  have hlen : s'.buffer.length = s.buffer.length - s.bufferCursor + read.written.length := by
    rw [← hs', List.length_append, List.length_drop]
  have heof : s'.eof = decide (read.written.length < maxRead) := by rw [← hs']
  have hrest : s'.eof = true → s'.it.content = [] := by
    rw [heof, decide_eq_true_eq, hread.written_eq, List.length_take]
    intro hlt
    rw [← hs', hread.content_eq, List.drop_of_length_le (by omega)]
  have hfull : s'.eof = false → s'.buffer.length = bufferSize := by
    rw [heof, decide_eq_false_iff_not]
    omega
  have hremaining : s'.remaining = s.remaining := by
    rw [← hs', State.remaining, State.remaining, List.drop_zero, hread.content_eq, hread.written_eq,
      List.append_assoc, List.take_append_drop]
  refine ⟨?_, ?_, hremaining⟩
  . constructor
    . constructor
      . rw [← hs']
        exact hread.inSegment
      . rw [← hs']
        exact Nat.zero_le _
      . omega
      . exact hrest
    . intro h
      exact Or.inl (hfull h)
    . have := hs.out_le
      rw [hremaining, ← hs']
      exact this
    . have := hs.out_eq
      rw [hremaining, ← hs']
      exact this
  . cases h : s'.eof with
    | true => exact Or.inr (hrest h)
    | false =>
      left
      have hzero : s'.bufferCursor = 0 := by rw [← hs']
      rw [hfull h, hzero]
      decide

theorem refill_spec {content : List UInt8} {s : State} (hs : Invariant content s) :
    ∃ s', refill s = .ok s' ∧ Invariant content s' ∧ Ready s' ∧ s'.remaining = s.remaining := by
  have hle := hs.cursor_le
  have hbuf := hs.buffer_le
  have hsize : bufferSize = 256 := rfl
  have hsub : subSize s.buffer.length s.bufferCursor = s.buffer.length - s.bufferCursor := by
    apply subSize_of_le hle
    omega
  unfold refill
  rw [hsub]
  by_cases h : s.buffer.length - s.bufferCursor < 4 ∧ (!s.eof) = true
  . have heof : s.eof = false := by simpa using h.2
    have hmax : subSize bufferSize (s.buffer.length - s.bufferCursor) =
        bufferSize - (s.buffer.length - s.bufferCursor) := by
      apply subSize_of_le
      . omega
      . omega
    have hmaxSize : bufferSize - (s.buffer.length - s.bufferCursor) ≤ sizeMax := by
      unfold sizeMax
      omega
    obtain ⟨read, hread, hcomplete⟩ := jsonItRead_eq hs.inSegment hmaxSize
    obtain ⟨s', hs', hspec⟩ := hs.refill (by omega) hcomplete
    refine ⟨s', ?_, hspec⟩
    have hwritten : read.written.length ≤ bufferSize - (s.buffer.length - s.bufferCursor) := by
      rw [hcomplete.written_eq]
      exact List.length_take_le _ _
    rw [if_pos h, compact_eq hs.toWindow (hs.full heof) h.1]
    simp only [ok_bind, hmax, hread]
    rw [store_of_le, hs']
    . rfl
    . rw [List.length_drop]
      omega
  . rw [if_neg h]
    exact ⟨s, rfl, hs, refill_skip hs h, rfl⟩

theorem next_remaining {s : State} (hready : Ready s) :
    Utf8.next s.remaining = Utf8.next (s.buffer.drop s.bufferCursor) := by
  unfold State.remaining
  rcases hready with h | h
  . apply Utf8.next_append_of_four
    rw [List.length_drop]
    exact h
  . rw [h, List.append_nil]

def Post (content : List UInt8) (r : Native (List UInt16)) : Prop :=
  r = .ok (jstringUnits (Utf8.decode content))

theorem body_decode {content : List UInt8} {s : State} (hs : Invariant content s) (hready : Ready s)
    (hlt : s.bufferCursor < s.buffer.length) :
    ∃ cp out, getNextCodepointUtf8 s.buffer s.bufferCursor = .ok cp ∧
      storeCodepoint content.length s.out cp.orRepl = .ok out ∧ s.bufferCursor < cp.cursor ∧
      Invariant content { s with bufferCursor := cp.cursor, out } := by
  obtain ⟨cp, c, hcp, hdec, hunits⟩ :=
    getNextCodepointUtf8_step s.it.content hlt (next_remaining hready)
  have hcursor := hdec.lt
  have hle := hdec.le
  have hout := hs.out_le
  simp only [State.remaining, List.length_append, List.length_drop] at hout
  refine ⟨cp, s.out ++ writeUtf16Codeunits c.toNat, hcp, ?_, hcursor, ?_⟩
  . rw [hdec.orRepl]
    apply storeCodepoint_of_le
    omega
  . constructor
    . constructor
      . exact hs.inSegment
      . exact hle
      . exact hs.buffer_le
      . exact hs.eof
    . intro heof
      rcases hs.full heof with hfull | hfull
      . exact Or.inl hfull
      . omega
    . simp only [State.remaining, List.length_append, List.length_drop]
      omega
    . have hdecode := hdec.decode_eq
      have heq := hs.out_eq
      simp only [State.remaining] at heq hdecode ⊢
      rw [← heq, hdecode, jstringUnits_cons, List.append_assoc]

theorem turn {content : List UInt8} (s : State) (hs : Invariant content s) :
    Loop.Turn (body content.length) (Invariant content) (fun s => s.remaining.length)
      (Post content) s := by
  obtain ⟨s', hrefill, hs', hready, hremaining⟩ := refill_spec hs
  have hle := hs'.cursor_le
  have hbuf := hs'.buffer_le
  have hsub : subSize s'.buffer.length s'.bufferCursor = s'.buffer.length - s'.bufferCursor := by
    apply subSize_of_le hle
    unfold bufferSize at hbuf
    omega
  by_cases hleft : s'.buffer.length - s'.bufferCursor = 0
  . apply Loop.Turn.done s'.out
    . rw [body, hrefill, ok_bind, hsub, if_pos hleft]
      rfl
    . have hcontent : s'.it.content = [] := by
        rcases hready with h | h
        . omega
        . exact h
      have heq := hs'.out_eq
      rw [State.remaining, hcontent, List.drop_of_length_le (by omega), List.append_nil,
        Utf8.decode_nil, jstringUnits_nil, List.append_nil] at heq
      rw [Post, heq]
  . obtain ⟨cp, out, hcp, hout, hcursor, hinv⟩ := body_decode hs' hready (by omega)
    apply Loop.Turn.next { s' with bufferCursor := cp.cursor, out }
    . rw [body, hrefill, ok_bind, hsub, if_neg hleft]
      rw [hcp, ok_bind, hout]
      rfl
    . exact hinv
    . rw [← hremaining]
      simp only [State.remaining, List.length_append, List.length_drop]
      omega

theorem run_eq {seg : List JsonSegment} {outCap : Nat} (h : outCap = (jsonContent seg).length) :
    Loop.run (body outCap) .diverges (outCap + 1) ⟨⟨seg, 0⟩, [], 0, false, []⟩ =
      .ok (jstringUnits (Utf8.decode (jsonContent seg))) := by
  have hremaining : (State.mk ⟨seg, 0⟩ [] 0 false []).remaining = jsonContent seg := by
    simp [State.remaining, JsonIterator.content]
  subst h
  apply Loop.run_of_turn turn
  . constructor
    . constructor
      . unfold JsonIterator.InSegment
        cases seg <;> simp
      . simp
      . simp
      . simp
    . simp
    . simp [hremaining]
    . rw [hremaining]
      rfl
  . rw [hremaining]
    omega

end javaJsonToJstringChecked

theorem javaJsonToJstringChecked_eq (alloc : Alloc) {seg : List JsonSegment}
    (h : (jsonContent seg).length ≤ sizeMax) :
    javaJsonToJstringChecked alloc seg = javaUtf8ToJstringChecked alloc (jsonContent seg) := by
  have hlen : jsonLength seg = (jsonContent seg).length := by
    rw [jsonLength_eq]
    apply Nat.mod_eq_of_lt
    unfold sizeMax at h
    omega
  rw [javaJsonToJstringChecked, javaUtf8ToJstringChecked_eq, javaJsonToJstringChecked.run_eq hlen,
    hlen]
  rfl

theorem javaJsonToJstringChecked_refines (seg : List JsonSegment)
    (h : (jsonContent seg).length ≤ intMax) :
    (∀ alloc, javaJsonToJstringChecked alloc seg =
      javaUtf8ToJstringChecked alloc (jsonContent seg)) ∧
    (∃ s, javaUtf8ToJstringChecked .total (jsonContent seg) = .ok s) := by
  constructor
  . intro alloc
    apply javaJsonToJstringChecked_eq
    unfold intMax at h
    unfold sizeMax
    omega
  . exact ⟨_, javaUtf8ToJstringChecked_total h⟩

theorem javaJsonToJstringChecked_refines_split :
    let seg (data : List UInt8) (h : data.length ≤ minJsonSegmentSize) :=
      JsonSegment.mk minJsonSegmentSize data h (by decide)
    let chain := [seg [0x22, 0xC3] (by decide), seg [] (by decide), seg [0xA9, 0x22] (by decide)]
    (∀ alloc, javaJsonToJstringChecked alloc chain =
      javaUtf8ToJstringChecked alloc (jsonContent chain)) ∧
    (∃ s, javaUtf8ToJstringChecked .total (jsonContent chain) = .ok s) :=
  javaJsonToJstringChecked_refines _ (by decide)

end Ddwaf
