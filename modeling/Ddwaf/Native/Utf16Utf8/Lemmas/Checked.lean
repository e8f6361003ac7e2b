import Ddwaf.Native.Utf16Utf8.Lemmas.WriteCodeunits

namespace Ddwaf

def outOfMemory : Stop := .thrown ⟨.runtimeException, "out of memory"⟩

namespace javaUtf16ToUtf8Checked

variable {input : List UInt16}

/-- The capacity only doubles while it is less than what four bytes for every unit take up. -/
structure Invariant (input : List UInt16) (s : State) : Prop where
  cursor_le : s.inCursor ≤ input.length
  out_eq : s.out ++ Utf8.encode (Utf16.decode (input.drop s.inCursor)) =
    Utf8.encode (Utf16.decode input)
  out_le : s.out.length ≤ s.outCap
  out_le_cursor : s.out.length ≤ 4 * s.inCursor
  cap_ge : input.length + 3 ≤ s.outCap
  cap_le : s.outCap ≤ 8 * input.length + 8

theorem Invariant.init (input : List UInt16) (allocs : Nat) :
    Invariant input ⟨0, input.length + 3, [], allocs⟩ := by
  constructor <;> simp
  omega

theorem grow_spec (alloc : Alloc) {s : State} (hs : Invariant input s) (hlt : s.inCursor < input.length)
    (hlen : input.length ≤ intMax) :
    (grow alloc s = .error outOfMemory ∧ ∃ n, alloc n = false) ∨
    ∃ s', grow alloc s = .ok s' ∧ Invariant input s' ∧ s'.inCursor = s.inCursor ∧
      s'.out.length + 4 ≤ s'.outCap := by
  have hcap := hs.cap_le
  have hge := hs.cap_ge
  have hout := hs.out_le
  have hout' := hs.out_le_cursor
  unfold intMax at hlen
  unfold grow
  rw [subSize_of_le hs.out_le (by omega)]
  split
  . split
    . right
      refine ⟨_, rfl, ?_, rfl, ?_⟩
      . constructor
        . exact hs.cursor_le
        . exact hs.out_eq
        . dsimp only
          omega
        . exact hs.out_le_cursor
        . dsimp only
          omega
        . dsimp only
          omega
      . dsimp only
        omega
    . next h =>
      left
      exact ⟨rfl, s.allocs, by simpa using h⟩
  . right
    exact ⟨s, rfl, hs, rfl, by omega⟩

def Post (alloc : Alloc) (input : List UInt16) : Native State → Prop
  | .ok s => s.out = Utf8.encode (Utf16.decode input) ∧ s.out.length ≤ s.outCap
  | .error e => e = outOfMemory ∧ ∃ n, alloc n = false

theorem turn (alloc : Alloc) (hlen : input.length ≤ intMax) (s : State) (hs : Invariant input s) :
    Loop.Turn (body alloc input) (Invariant input) (fun s => input.length - s.inCursor)
      (Post alloc input) s := by
  by_cases hlt : s.inCursor < input.length
  . rcases grow_spec alloc hs hlt hlen with ⟨hgrow, halloc⟩ | ⟨s', hgrow, hs', hcur, hroom⟩
    . apply Loop.Turn.error outOfMemory
      . rw [body, if_pos hlt, hgrow]
        rfl
      . exact ⟨rfl, halloc⟩
    . obtain ⟨cp, c, hcp, hdec⟩ := getNextCodepointUtf16_decodes (hcur ▸ hlt)
      have hbytes := writeUtf8Codeunits.length_le c.toNat
      have hcursor := hdec.lt
      have hle := hdec.le
      have hwrite : store (s'.outCap + 1) s'.out (writeUtf8Codeunits c.toNat) =
          .ok (s'.out ++ writeUtf8Codeunits c.toNat) := by
        apply store_of_le
        omega
      apply Loop.Turn.next { s' with inCursor := cp.cursor, out := s'.out ++ writeUtf8Codeunits c.toNat }
      . rw [body, if_pos hlt, hgrow]
        simp only [ok_bind, hcp, hdec.orRepl, hwrite, pure_eq_ok]
      . constructor
        . exact hdec.le
        . rw [← hs'.out_eq, hdec.decode_eq, Utf8.encode_cons, writeUtf8Codeunits.eq_utf8EncodeChar]
          simp
        . rw [List.length_append]
          dsimp only
          omega
        . have := hs'.out_le_cursor
          rw [List.length_append]
          dsimp only
          omega
        . exact hs'.cap_ge
        . exact hs'.cap_le
      . dsimp only
        omega
  . apply Loop.Turn.done s
    . rw [body, if_neg hlt]
      rfl
    . have := hs.out_eq
      rw [List.drop_of_length_le (by omega)] at this
      simp only [Utf16.decode, Utf8.encode_nil, List.append_nil] at this
      exact ⟨this, hs.out_le⟩

end javaUtf16ToUtf8Checked

open javaUtf16ToUtf8Checked in
theorem javaUtf16ToUtf8Checked_spec (alloc : Alloc) {input : List UInt16}
    (hlen : input.length ≤ intMax) :
    javaUtf16ToUtf8Checked alloc input = .ok (Utf8.encode (Utf16.decode input)) ∨
    (javaUtf16ToUtf8Checked alloc input = .error outOfMemory ∧ ∃ n, alloc n = false) := by
  unfold javaUtf16ToUtf8Checked
  cases h0 : alloc 0 with
  | false => exact Or.inr ⟨by rfl, 0, h0⟩
  | true =>
    have hrun : Post alloc input (Loop.run (body alloc input) .diverges (input.length + 1)
        ⟨0, input.length + 3, [], 1⟩) := by
      apply Loop.run_of_turn (turn alloc hlen)
      . exact Invariant.init input 1
      . dsimp only
        omega
    simp only [Bool.not_true, Bool.false_eq_true, ↓reduceIte]
    cases hr : Loop.run (body alloc input) .diverges (input.length + 1)
        ⟨0, input.length + 3, [], 1⟩ with
    | error e =>
      rw [hr] at hrun
      obtain ⟨rfl, halloc⟩ := hrun
      exact Or.inr ⟨by rfl, halloc⟩
    | ok s =>
      rw [hr] at hrun
      obtain ⟨hout, hle⟩ := hrun
      left
      rw [ok_bind, store_of_le (by simpa using hle), hout]
      rfl

theorem javaUtf16ToUtf8Checked_eq {alloc : Alloc} (halloc : ∀ n, alloc n = true)
    {input : List UInt16} (hlen : input.length ≤ intMax) :
    javaUtf16ToUtf8Checked alloc input = .ok (Utf8.encode (Utf16.decode input)) := by
  rcases javaUtf16ToUtf8Checked_spec alloc hlen with h | ⟨_, n, hn⟩
  . exact h
  . rw [halloc n] at hn
    contradiction

open javaUtf16ToUtf8Checked in
/--
The output never gets longer than the capacity, and it is the encoding of the characters of the
input, where an unpaired surrogate is the replacement character and takes no other unit with it.
-/
theorem javaUtf16ToUtf8Checked_replaces (alloc : Alloc) {input : List UInt16}
    (hlen : input.length ≤ intMax) :
    (∀ s, Loop.Visits (body alloc input) ⟨0, input.length + 3, [], 1⟩ s →
      s.inCursor ≤ input.length ∧ s.out.length ≤ s.outCap) ∧
    ∃ cs, (javaUtf16ToUtf8Checked alloc input = .ok (Utf8.encode cs) ∨
        (javaUtf16ToUtf8Checked alloc input = .error outOfMemory ∧ ∃ n, alloc n = false)) ∧
      (∀ ds, input = Utf16.encode ds → cs = ds) ∧
      ∀ p u r, input = p ++ u :: r → Utf16.IsUnpaired p u r →
        cs = Utf16.decode p ++ Utf8.repl :: Utf16.decode r := by
  constructor
  . intro s hs
    have hinv := hs.inv (turn alloc hlen) (Invariant.init input 1)
    exact ⟨hinv.cursor_le, hinv.out_le⟩
  . refine ⟨Utf16.decode input, javaUtf16ToUtf8Checked_spec alloc hlen, ?_, ?_⟩
    . intro ds hds
      rw [hds, Utf16.decode_encode]
    . intro p u r hinput hunpaired
      rw [hinput, Utf16.decode_unpaired hunpaired]

theorem javaUtf16ToUtf8Checked_replaces_lead :
    ∃ cs, javaUtf16ToUtf8Checked .total [0xD800, 0x41] = .ok (Utf8.encode cs) ∧
      cs = [Utf8.repl, Char.ofNat 0x41] := by
  obtain ⟨-, cs, hresult, -, hunpaired⟩ :=
    javaUtf16ToUtf8Checked_replaces .total (show [0xD800, (0x41 : UInt16)].length ≤ intMax by decide)
  refine ⟨cs, ?_, hunpaired [] 0xD800 [0x41] rfl (Or.inl ⟨by decide, by simp [Utf16.isTrail]⟩)⟩
  rcases hresult with hresult | ⟨-, n, hn⟩
  . exact hresult
  . contradiction

theorem storeCodepoint_of_le {outCap : Nat} {out : List UInt16} {cp : Nat}
    (h : out.length + (writeUtf16Codeunits cp).length ≤ outCap) :
    storeCodepoint outCap out cp = .ok (out ++ writeUtf16Codeunits cp) := by
  have hpos := writeUtf16Codeunits.length_pos cp
  have htwo := writeUtf16Codeunits.length_eq_two_iff cp
  unfold storeCodepoint
  rw [if_neg, store_of_le]
  . omega
  . intro hcap
    rcases hcap with hcap | ⟨hcp, hcap⟩
    . omega
    . rw [htwo.mpr hcp] at h
      omega

theorem getNextCodepointUtf8_step {str : List UInt8} {pos : Nat} (r : List UInt8)
    (h : pos < str.length) (hr : Utf8.next (str.drop pos ++ r) = Utf8.next (str.drop pos)) :
    ∃ cp c, getNextCodepointUtf8 str pos = .ok cp ∧
      DecodesTo (fun s => Utf8.decode (s ++ r)) str pos cp c ∧
      pos + (writeUtf16Codeunits c.toNat).length ≤ cp.cursor := by
  obtain ⟨cp, c, hcp, hdec⟩ := getNextCodepointUtf8_decodes r h hr
  refine ⟨cp, c, hcp, hdec, ?_⟩
  have hle := writeUtf16Codeunits.length_le c.toNat
  have hpos := writeUtf16Codeunits.length_pos c.toNat
  have htwo := writeUtf16Codeunits.length_eq_two_iff c.toNat
  have hlt := hdec.lt
  by_cases hbig : 0xFFFF < c.toNat
  . rw [getNextCodepointUtf8.eq_next h, Except.ok.injEq] at hcp
    have hfour := Utf8.next_eq_four (s := str.drop pos)
    rw [← getNextCodepointUtf8.orRepl_ofNext _ pos, hcp, hdec.orRepl] at hfour
    rw [← hcp, getNextCodepointUtf8.cursor_ofNext, hfour hbig]
    omega
  . omega

namespace javaUtf8ToJstringChecked

variable {input : List UInt8}

structure Invariant (input : List UInt8) (s : State) : Prop where
  cursor_le : s.inCursor ≤ input.length
  out_le : s.out.length ≤ s.inCursor
  out_eq : s.out ++ jstringUnits (Utf8.decode (input.drop s.inCursor)) =
    jstringUnits (Utf8.decode input)

def Post (input : List UInt8) (r : Native (List UInt16)) : Prop :=
  r = .ok (jstringUnits (Utf8.decode input)) ∧
    (jstringUnits (Utf8.decode input)).length ≤ input.length

theorem turn (s : State) (hs : Invariant input s) :
    Loop.Turn (body input) (Invariant input) (fun s => input.length - s.inCursor)
      (Post input) s := by
  by_cases hlt : s.inCursor < input.length
  . obtain ⟨cp, c, hcp, hdec, hunits⟩ := getNextCodepointUtf8_step [] hlt (by rw [List.append_nil])
    have hdecode := hdec.decode_eq
    simp only [List.append_nil] at hdecode
    have hcursor := hdec.lt
    have hle := hdec.le
    have hout := hs.out_le
    have hstore : storeCodepoint input.length s.out c.toNat =
        .ok (s.out ++ writeUtf16Codeunits c.toNat) := by
      apply storeCodepoint_of_le
      omega
    apply Loop.Turn.next ⟨cp.cursor, s.out ++ writeUtf16Codeunits c.toNat⟩
    . rw [body, if_pos hlt, hcp]
      simp only [ok_bind, hdec.orRepl, hstore, pure_eq_ok]
    . constructor
      . exact hle
      . rw [List.length_append]
        dsimp only
        omega
      . rw [← hs.out_eq, hdecode, jstringUnits_cons]
        simp
    . dsimp only
      omega
  . apply Loop.Turn.done s.out
    . rw [body, if_neg hlt]
      rfl
    . have hout := hs.out_eq
      have hle := hs.out_le
      have hcur := hs.cursor_le
      rw [List.drop_of_length_le (by omega), Utf8.decode_nil, jstringUnits_nil,
        List.append_nil] at hout
      rw [Post, ← hout]
      exact ⟨rfl, by omega⟩

theorem run_eq (input : List UInt8) :
    Post input (Loop.run (body input) .diverges (input.length + 1) ⟨0, []⟩) := by
  apply Loop.run_of_turn turn
  . constructor <;> simp
  . dsimp only
    omega

end javaUtf8ToJstringChecked

theorem jstringUnits_decode_length_le (input : List UInt8) :
    (jstringUnits (Utf8.decode input)).length ≤ input.length :=
  (javaUtf8ToJstringChecked.run_eq input).2

theorem javaUtf8ToJstringChecked_eq (alloc : Alloc) (input : List UInt8) :
    javaUtf8ToJstringChecked alloc input =
      (do mallocUtf16 alloc input.length
          newString alloc input.length (jstringUnits (Utf8.decode input))) := by
  rw [javaUtf8ToJstringChecked, (javaUtf8ToJstringChecked.run_eq input).1]
  rfl

theorem mallocUtf16_total {n : Nat} (h : n ≤ 4 * intMax) : mallocUtf16 .total n = .ok () := by
  have : ¬ n > sizeMax / 2 - 1 := by
    unfold sizeMax intMax at *
    omega
  simp [mallocUtf16, this, Alloc.total]

theorem newString_total {outCap : Nat} {out : List UInt16} (hcap : out.length ≤ outCap)
    (h : out.length ≤ intMax) : newString .total outCap out = .ok out := by
  have : ¬ out.length > intMax := by omega
  rw [newString, store_of_le (by simpa using hcap)]
  simp [this, Alloc.total]

theorem javaUtf8ToJstringChecked_total {input : List UInt8} (h : input.length ≤ intMax) :
    javaUtf8ToJstringChecked .total input = .ok (jstringUnits (Utf8.decode input)) := by
  have hunits := jstringUnits_decode_length_le input
  rw [javaUtf8ToJstringChecked_eq, mallocUtf16_total (by omega), ok_bind]
  exact newString_total hunits (by omega)

def ReturnsOrThrows (r : Native α) : Prop := (∃ a, r = .ok a) ∨ ∃ exc, r = .error (.thrown exc)

theorem mallocUtf16_returnsOrThrows (alloc : Alloc) (outCap : Nat) :
    ReturnsOrThrows (mallocUtf16 alloc outCap) := by
  unfold mallocUtf16
  split
  . exact .inr ⟨_, rfl⟩
  . split
    . exact .inr ⟨_, rfl⟩
    . exact .inl ⟨_, rfl⟩

theorem newString_returnsOrThrows (alloc : Alloc) {outCap : Nat} {out : List UInt16}
    (hcap : out.length ≤ outCap) : ReturnsOrThrows (newString alloc outCap out) := by
  rw [newString, store_of_le (by simpa using hcap), ok_bind]
  split
  . exact .inr ⟨_, rfl⟩
  . split
    . exact .inr ⟨_, rfl⟩
    . exact .inl ⟨_, rfl⟩

theorem javaUtf8ToJstringChecked_returnsOrThrows (alloc : Alloc) (input : List UInt8) :
    ReturnsOrThrows (javaUtf8ToJstringChecked alloc input) := by
  rw [javaUtf8ToJstringChecked_eq]
  rcases mallocUtf16_returnsOrThrows alloc input.length with ⟨_, hmalloc⟩ | ⟨exc, hmalloc⟩
  . rw [hmalloc, ok_bind]
    exact newString_returnsOrThrows alloc (jstringUnits_decode_length_le input)
  . rw [hmalloc, error_bind]
    exact .inr ⟨exc, rfl⟩

end Ddwaf
