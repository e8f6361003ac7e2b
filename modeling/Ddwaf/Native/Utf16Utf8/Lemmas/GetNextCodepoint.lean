import Ddwaf.Lib.Utf16
import Ddwaf.Lib.Utf8Sequence
import Ddwaf.Native.Utf16Utf8.Impl

namespace Ddwaf

def Codepoint.ofNext (r : Option Char × Nat) (pos : Nat) : Codepoint :=
  match r with
  | (some c, n) => mbSuccess c.toNat (pos + n)
  | (none, n) => mbFailure pos n

theorem utf8Lead_eq (b : UInt8) : utf8Lead b = Utf8.isLead b := by
  rfl

theorem utf8Trail_eq (b : UInt8) : utf8Trail b = Utf8.isTrail b := by
  rfl

section Load

variable {str : List α} {pos : Nat} {c : α} {rest : List α}

theorem length_sub (h : str.drop pos = c :: rest) : str.length - pos = rest.length + 1 := by
  rw [← List.length_drop, h]
  rfl

theorem load_pos (h : str.drop pos = c :: rest) : load str pos = .ok c := by
  rw [show pos = pos + 0 by rfl, ← load_drop, h]
  rfl

theorem load_add (h : str.drop pos = c :: rest) (i : Nat) :
    load str (pos + (i + 1)) = load rest i := by
  rw [← load_drop, h]
  rfl

theorem getElem?_of_drop (h : str.drop pos = c :: rest) {i : Nat} (hi : pos < i) :
    str[i]? = rest[i - pos - 1]? := by
  obtain ⟨k, rfl⟩ : ∃ k, i = pos + (k + 1) := ⟨i - pos - 1, by omega⟩
  rw [← List.getElem?_drop, h, List.getElem?_cons_succ]
  congr 1
  omega

end Load

namespace getNextCodepointUtf8

theorem shift_or (x : Nat) {i y : Nat} (h : y < 2 ^ i) : (x <<< i) ||| y = x * 2 ^ i + y := by
  rw [← Nat.shiftLeft_add_eq_or_of_lt h, Nat.shiftLeft_eq]

theorem bits2 (c d : UInt8) :
    (c.toNat &&& 0x1f) <<< 6 ||| (d.toNat &&& 0x3f) = Utf8.scalar2 c d := by
  rw [Nat.and_two_pow_sub_one_eq_mod c.toNat 5, Nat.and_two_pow_sub_one_eq_mod d.toNat 6]
  rw [shift_or]
  . rfl
  . omega

theorem bits3 (c d e : UInt8) :
    (c.toNat &&& 0x0f) <<< 12 ||| (d.toNat &&& 0x3f) <<< 6 ||| (e.toNat &&& 0x3f) =
      Utf8.scalar3 c d e := by
  rw [Nat.and_two_pow_sub_one_eq_mod c.toNat 4, Nat.and_two_pow_sub_one_eq_mod d.toNat 6,
    Nat.and_two_pow_sub_one_eq_mod e.toNat 6]
  have hd : (d.toNat % 2 ^ 6) <<< 6 < 2 ^ 12 := by
    rw [Nat.shiftLeft_eq]
    omega
  rw [shift_or _ hd, Nat.shiftLeft_eq]
  rw [show c.toNat % 2 ^ 4 * 2 ^ 12 + d.toNat % 2 ^ 6 * 2 ^ 6 =
    (c.toNat % 2 ^ 4 * 2 ^ 6 + d.toNat % 2 ^ 6) <<< 6 by rw [Nat.shiftLeft_eq]; omega]
  rw [shift_or, Utf8.scalar3] <;> omega

theorem bits4 (c d e f : UInt8) :
    (c.toNat &&& 0x07) <<< 18 ||| (d.toNat &&& 0x3f) <<< 12 ||| (e.toNat &&& 0x3f) <<< 6 |||
      (f.toNat &&& 0x3f) = Utf8.scalar4 c d e f := by
  rw [Nat.and_two_pow_sub_one_eq_mod c.toNat 3, Nat.and_two_pow_sub_one_eq_mod d.toNat 6,
    Nat.and_two_pow_sub_one_eq_mod e.toNat 6, Nat.and_two_pow_sub_one_eq_mod f.toNat 6]
  have hd : (d.toNat % 2 ^ 6) <<< 12 < 2 ^ 18 := by
    rw [Nat.shiftLeft_eq]
    omega
  have he : (e.toNat % 2 ^ 6) <<< 6 < 2 ^ 12 := by
    rw [Nat.shiftLeft_eq]
    omega
  rw [shift_or _ hd, Nat.shiftLeft_eq]
  rw [show c.toNat % 2 ^ 3 * 2 ^ 18 + d.toNat % 2 ^ 6 * 2 ^ 12 =
    (c.toNat % 2 ^ 3 * 2 ^ 6 + d.toNat % 2 ^ 6) <<< 12 by rw [Nat.shiftLeft_eq]; omega]
  rw [shift_or _ he, Nat.shiftLeft_eq]
  rw [show (c.toNat % 2 ^ 3 * 2 ^ 6 + d.toNat % 2 ^ 6) * 2 ^ 12 + e.toNat % 2 ^ 6 * 2 ^ 6 =
    ((c.toNat % 2 ^ 3 * 2 ^ 6 + d.toNat % 2 ^ 6) * 2 ^ 6 + e.toNat % 2 ^ 6) <<< 6 by
      rw [Nat.shiftLeft_eq]; omega]
  rw [shift_or, Utf8.scalar4] <;> omega

variable {str : List UInt8} {pos : Nat} {c : UInt8} {rest : List UInt8}

theorem eq_next2 (h : str.drop pos = c :: rest) (h1 : ¬ c < 0x80) (h2 : ¬ c < 0xc2)
    (h3 : c < 0xe0) :
    getNextCodepointUtf8 str pos = .ok (Codepoint.ofNext (Utf8.next2 c rest) pos) := by
  cases rest with
  | nil =>
    simp [getNextCodepointUtf8, length_sub h, load_pos h, h1, Utf8.next2, Codepoint.ofNext]
  | cons d rest =>
    have hd : load str (pos + 1) = .ok d := load_add h 0
    have hshort : ¬ Utf8.scalar2 c d < 0x80 := by
      simp only [UInt8.lt_iff_toNat_lt, UInt8.reduceToNat] at h2 h3
      unfold Utf8.scalar2
      omega
    have hvalid : (Char.ofNat (Utf8.scalar2 c d)).toNat = Utf8.scalar2 c d := by
      apply Utf8.toNat_ofNat_of_isValidChar
      unfold Utf8.scalar2 Nat.isValidChar
      omega
    simp only [getNextCodepointUtf8, length_sub h, load_pos h, notTrail, isLead, trailBits, hd,
      pure_eq_ok, ok_bind, utf8Trail_eq, utf8Lead_eq, bits2, h1, h2, h3, hshort, ↓reduceIte]
    rw [if_neg (by simp)]
    cases ht : Utf8.isTrail d with
    | false => simp [Utf8.next2, Codepoint.ofNext, ht]
    | true => simp [Utf8.next2, Codepoint.ofNext, ht, hvalid]

theorem ofNext_ite3 (n : Nat) {k m : Nat} (hn : n < 0x110000) :
    Except.ok (ε := Stop) (Codepoint.ofNext
      (if n.isValidChar ∧ m ≤ n then (some (Char.ofNat n), k) else (none, k)) pos) =
    if n < m then .ok (mbFailure pos k)
    else if 0xd800 ≤ n ∧ n ≤ 0xdfff then .ok (mbFailure pos k)
    else .ok (mbSuccess n (pos + k)) := by
  unfold Nat.isValidChar
  split
  . next hv =>
    rw [if_neg (by omega), if_neg (by omega)]
    simp only [Codepoint.ofNext]
    rw [Utf8.toNat_ofNat_of_isValidChar hv.1]
  . next hv =>
    split
    . rfl
    . rw [if_pos (by omega)]
      rfl

theorem ofNext_ite4 (n : Nat) {k : Nat} :
    Except.ok (ε := Stop) (Codepoint.ofNext
      (if n.isValidChar ∧ 0x10000 ≤ n then (some (Char.ofNat n), k) else (none, k)) pos) =
    if n < 0x10000 ∨ 0x10FFFF < n then .ok (mbFailure pos k) else .ok (mbSuccess n (pos + k)) := by
  unfold Nat.isValidChar
  split
  . next hv =>
    rw [if_neg (by omega)]
    simp only [Codepoint.ofNext]
    rw [Utf8.toNat_ofNat_of_isValidChar hv.1]
  . next hv =>
    rw [if_pos (by omega)]
    rfl

theorem eq_next3 (h : str.drop pos = c :: rest) (h2 : ¬ c < 0xc2) (h3 : ¬ c < 0xe0)
    (h4 : c < 0xf0) :
    getNextCodepointUtf8 str pos = .ok (Codepoint.ofNext (Utf8.next3 c rest) pos) := by
  have h1 : ¬ c < 0x80 := by
    simp only [UInt8.lt_iff_toNat_lt, UInt8.reduceToNat] at h2 ⊢
    omega
  simp only [getNextCodepointUtf8, length_sub h, load_pos h, notTrail, isLead, trailBits,
    pure_eq_ok, ok_bind, utf8Trail_eq, utf8Lead_eq, h1, h2, h3, h4, ↓reduceIte]
  rcases rest with _ | ⟨d, _ | ⟨e, rest⟩⟩
  . simp [Utf8.next3, Codepoint.ofNext]
  . have hd : load str (pos + 1) = .ok d := load_add h 0
    cases hld : Utf8.isLead d <;> simp [Utf8.next3, Codepoint.ofNext, hd, hld]
  . have hd : load str (pos + 1) = .ok d := load_add h 0
    have he : load str (pos + 2) = .ok e := load_add h 1
    have hlt : Utf8.scalar3 c d e < 0x110000 := by
      unfold Utf8.scalar3
      omega
    have hl2 : ¬ rest.length + 1 + 1 + 1 < 2 := by omega
    have hl3 : ¬ rest.length + 1 + 1 + 1 < 3 := by omega
    simp only [hd, he, ok_bind, ok_or, bits3, List.length_cons, Utf8.next3]
    cases htd : Utf8.isTrail d with
    | false =>
      cases hld : Utf8.isLead d <;> cases hle : Utf8.isLead e <;> simp [Codepoint.ofNext, hl2, hl3]
    | true =>
      have hld := Utf8.not_isLead_of_isTrail htd
      cases hte : Utf8.isTrail e with
      | false => cases hle : Utf8.isLead e <;> simp [Codepoint.ofNext, hld, hl2, hl3]
      | true => simp [ofNext_ite3 _ hlt, hl3]

theorem eq_next4 (h : str.drop pos = c :: rest) (h2 : ¬ c < 0xc2) (h3 : ¬ c < 0xe0)
    (h4 : ¬ c < 0xf0) (h5 : c < 0xf5) :
    getNextCodepointUtf8 str pos = .ok (Codepoint.ofNext (Utf8.next4 c rest) pos) := by
  have h1 : ¬ c < 0x80 := by
    simp only [UInt8.lt_iff_toNat_lt, UInt8.reduceToNat] at h2 ⊢
    omega
  simp only [getNextCodepointUtf8, length_sub h, load_pos h, notTrail, isLead, trailBits,
    pure_eq_ok, ok_bind, utf8Trail_eq, utf8Lead_eq, h1, h2, h3, h4, h5, ↓reduceIte]
  rcases rest with _ | ⟨d, _ | ⟨e, _ | ⟨f, rest⟩⟩⟩
  . simp [Utf8.next4, Codepoint.ofNext]
  . have hd : load str (pos + 1) = .ok d := load_add h 0
    cases hld : Utf8.isLead d <;> simp [Utf8.next4, Codepoint.ofNext, hd, hld]
  . have hd : load str (pos + 1) = .ok d := load_add h 0
    have he : load str (pos + 2) = .ok e := load_add h 1
    cases hld : Utf8.isLead d <;> cases hle : Utf8.isLead e <;>
      simp [Utf8.next4, Codepoint.ofNext, hd, he, hld, hle]
  . have hd : load str (pos + 1) = .ok d := load_add h 0
    have he : load str (pos + 2) = .ok e := load_add h 1
    have hf : load str (pos + 3) = .ok f := load_add h 2
    have hl2 : ¬ rest.length + 1 + 1 + 1 + 1 < 2 := by omega
    have hl3 : ¬ rest.length + 1 + 1 + 1 + 1 < 3 := by omega
    have hl4 : ¬ rest.length + 1 + 1 + 1 + 1 < 4 := by omega
    simp only [hd, he, hf, ok_bind, ok_or, bits4, List.length_cons, Utf8.next4]
    cases htd : Utf8.isTrail d with
    | false =>
      cases hld : Utf8.isLead d <;> cases hle : Utf8.isLead e <;> cases hlf : Utf8.isLead f <;>
        simp [Codepoint.ofNext, hl2, hl3, hl4]
    | true =>
      have hld := Utf8.not_isLead_of_isTrail htd
      cases hte : Utf8.isTrail e with
      | false =>
        cases hle : Utf8.isLead e <;> cases hlf : Utf8.isLead f <;>
          simp [Codepoint.ofNext, hld, hl2, hl3, hl4]
      | true =>
        have hle := Utf8.not_isLead_of_isTrail hte
        cases htf : Utf8.isTrail f with
        | false =>
          cases hlf : Utf8.isLead f <;> simp [Codepoint.ofNext, hld, hle, hl2, hl3, hl4]
        | true => simp [ofNext_ite4, hl4]

theorem eq_next (h : pos < str.length) :
    getNextCodepointUtf8 str pos = .ok (Codepoint.ofNext (Utf8.next (str.drop pos)) pos) := by
  obtain ⟨c, rest, hs⟩ : ∃ c rest, str.drop pos = c :: rest :=
    List.exists_cons_of_ne_nil (by simp [h])
  rw [hs, Utf8.next]
  split
  . next h1 =>
    have hvalid : (Char.ofNat c.toNat).toNat = c.toNat := by
      apply Utf8.toNat_ofNat_of_isValidChar
      have := c.toNat_lt
      unfold Nat.isValidChar
      omega
    simp only [getNextCodepointUtf8, load_pos hs, h1, Codepoint.ofNext, hvalid, ok_bind, ↓reduceIte,
      pure_eq_ok]
  . next h1 =>
    split
    . next h2 => simp [getNextCodepointUtf8, load_pos hs, h1, h2, Codepoint.ofNext]
    . next h2 =>
      split
      . next h3 => exact eq_next2 hs h1 h2 h3
      . next h3 =>
        split
        . next h4 => exact eq_next3 hs h2 h3 h4
        . next h4 =>
          split
          . next h5 => exact eq_next4 hs h2 h3 h4 h5
          . next h5 => simp [getNextCodepointUtf8, load_pos hs, h1, h2, h3, h4, h5, Codepoint.ofNext]

theorem not_sequence_of_next {b : UInt8} {n k : Nat} {seq : List UInt8}
    (h : Utf8.next (b :: rest) = (none, n)) (hk : k < n - 1) (hhead : seq.head? = rest[k]?) :
    ¬Utf8.Sequence seq := by
  intro hseq
  cases seq with
  | nil => exact hseq.ne_nil rfl
  | cons a seq =>
    have hmem : a ∈ rest.take (n - 1) := by
      rw [List.mem_iff_getElem?]
      refine ⟨k, ?_⟩
      rw [List.getElem?_take_of_lt hk, ← hhead]
      rfl
    have hlead := hseq.isLead
    rw [Utf8.not_isLead_of_next h a hmem] at hlead
    contradiction

theorem orRepl_ofNext (r : Option Char × Nat) (pos : Nat) :
    (Codepoint.ofNext r pos).orRepl = (r.1.getD Utf8.repl).toNat := by
  rcases r with ⟨_ | c, n⟩
  . rfl
  . rfl

theorem cursor_ofNext (r : Option Char × Nat) (pos : Nat) :
    (Codepoint.ofNext r pos).cursor = pos + r.2 := by
  rcases r with ⟨_ | c, n⟩
  . rfl
  . rfl

end getNextCodepointUtf8

namespace getNextCodepointUtf16

variable {str : List UInt16} {pos : Nat} {u v : UInt16} {rest : List UInt16}

theorem utf16Lead_eq (u : UInt16) : utf16Lead u = Utf16.isLead u := by
  rfl

theorem utf16Trail_eq (u : UInt16) : utf16Trail u = Utf16.isTrail u := by
  rfl

theorem eq_pair (h : str.drop pos = u :: v :: rest) (hu : Utf16.isLead u = true)
    (hv : Utf16.isTrail v = true) :
    getNextCodepointUtf16 str pos = .ok (mbSuccess (Utf16.pair u v).toNat (pos + 2)) := by
  have hload : load str (pos + 1) = .ok v := load_add h 0
  have hlen : ¬ rest.length + 1 + 1 < 2 := by omega
  rw [Utf16.toNat_pair hu hv]
  simp [getNextCodepointUtf16, length_sub h, load_pos h, hload, utf16Lead_eq, utf16Trail_eq, hu, hv,
    hlen]

theorem eq_trail (h : str.drop pos = u :: rest) (hu : Utf16.isTrail u = true) :
    getNextCodepointUtf16 str pos = .ok (mbFailure pos 1) := by
  simp [getNextCodepointUtf16, length_sub h, load_pos h, utf16Lead_eq, utf16Trail_eq, hu,
    Utf16.not_isLead_of_isTrail hu]

theorem eq_single (h : str.drop pos = u :: rest) (hu : Utf16.isSurrogate u = false) :
    getNextCodepointUtf16 str pos = .ok (mbSuccess u.toNat (pos + 1)) := by
  rw [Utf16.isSurrogate, Bool.or_eq_false_iff] at hu
  simp [getNextCodepointUtf16, length_sub h, load_pos h, utf16Lead_eq, utf16Trail_eq, hu]

theorem eq_lead_end (h : str.drop pos = [u]) (hu : Utf16.isLead u = true) :
    getNextCodepointUtf16 str pos = .ok (mbFailure pos 1) := by
  simp [getNextCodepointUtf16, length_sub h, load_pos h, utf16Lead_eq, hu]

theorem eq_lead_unpaired (h : str.drop pos = u :: v :: rest) (hu : Utf16.isLead u = true)
    (hv : Utf16.isTrail v = false) :
    getNextCodepointUtf16 str pos = .ok (mbFailure pos 1) := by
  have hload : load str (pos + 1) = .ok v := load_add h 0
  simp [getNextCodepointUtf16, length_sub h, load_pos h, hload, utf16Lead_eq, utf16Trail_eq, hu, hv]

end getNextCodepointUtf16

/--
What is left of the input when a decoder has moved its cursor from `pos` to `cp.cursor` and made one
character of what it passed.
-/
structure DecodesTo (decode : List α → List Char) (str : List α) (pos : Nat) (cp : Codepoint)
    (c : Char) : Prop where
  lt : pos < cp.cursor
  le : cp.cursor ≤ str.length
  orRepl : cp.orRepl = c.toNat
  decode_eq : decode (str.drop pos) = c :: decode (str.drop cp.cursor)

theorem decodesTo_of_drop {decode : List α → List Char} {str s : List α} {pos n : Nat}
    {cp : Codepoint} {c : Char} (hs : str.drop pos = s) (hpos : 0 < n) (hle : n ≤ s.length)
    (hcursor : cp.cursor = pos + n) (hrepl : cp.orRepl = c.toNat)
    (hdecode : decode s = c :: decode (s.drop n)) :
    DecodesTo decode str pos cp c := by
  subst hs
  rw [List.length_drop] at hle
  constructor
  . omega
  . omega
  . exact hrepl
  . rw [hdecode, hcursor, List.drop_drop]

theorem getNextCodepointUtf8_decodes {str : List UInt8} {pos : Nat} (r : List UInt8)
    (h : pos < str.length) (hr : Utf8.next (str.drop pos ++ r) = Utf8.next (str.drop pos)) :
    ∃ cp c, getNextCodepointUtf8 str pos = .ok cp ∧
      DecodesTo (fun s => Utf8.decode (s ++ r)) str pos cp c := by
  obtain ⟨c, rest, hs⟩ := List.exists_cons_of_ne_nil (l := str.drop pos) (by simp [h])
  have hle := Utf8.next_le (c :: rest)
  refine ⟨_, (Utf8.next (str.drop pos)).1.getD Utf8.repl, getNextCodepointUtf8.eq_next h, ?_⟩
  apply decodesTo_of_drop hs (n := (Utf8.next (c :: rest)).2)
  . apply Utf8.next_pos
  . exact hle
  . rw [getNextCodepointUtf8.cursor_ofNext, hs]
  . rw [getNextCodepointUtf8.orRepl_ofNext]
  . rw [hs] at hr ⊢
    rw [Utf8.decode_of_ne_nil (by simp), hr, List.drop_append_of_le_length hle]

/-- Any bytes `p` may be in front of the position; they are not looked at. -/
theorem getNextCodepointUtf8_spec {str : List UInt8} {pos : Nat} (h : pos < str.length) :
    ∃ cp, getNextCodepointUtf8 str pos = .ok cp ∧
      (∀ p : List UInt8, p.length = pos → getNextCodepointUtf8 (p ++ str.drop pos) pos = .ok cp) ∧
      pos < cp.cursor ∧ cp.cursor ≤ str.length ∧
      (cp.status = true ↔ ∃ seq, Utf8.Sequence seq ∧ seq <+: str.drop pos) ∧
      (∀ seq, Utf8.Sequence seq → seq <+: str.drop pos →
        ∃ c, seq = String.utf8EncodeChar c ∧ cp = mbSuccess c.toNat (pos + seq.length)) ∧
      (cp.status = false → ∀ i, pos < i → i < cp.cursor →
        ∀ seq, Utf8.Sequence seq → seq.head? ≠ str[i]?) := by
  obtain ⟨b, rest, hs⟩ : ∃ b rest, str.drop pos = b :: rest :=
    List.exists_cons_of_ne_nil (by simp [h])
  have hlen := length_sub hs
  have hpos := Utf8.next_pos b rest
  have hle := Utf8.next_le (b :: rest)
  have hseq : ∀ seq, Utf8.Sequence seq → seq <+: str.drop pos →
      ∃ c, seq = String.utf8EncodeChar c ∧ Utf8.next (b :: rest) = (some c, seq.length) := by
    intro seq hseq ⟨r, hr⟩
    rw [hs] at hr
    rw [← hr]
    exact Utf8.next_of_sequence hseq r
  refine ⟨_, getNextCodepointUtf8.eq_next h, ?_, ?_, ?_, ?_, ?_, ?_⟩
  . intro p hp
    subst hp
    rw [getNextCodepointUtf8.eq_next]
    . rw [List.drop_left]
    . rw [List.length_append, List.length_drop]
      omega
  . rw [getNextCodepointUtf8.cursor_ofNext, hs]
    omega
  . rw [getNextCodepointUtf8.cursor_ofNext, hs]
    rw [List.length_cons] at hle
    omega
  . constructor
    . intro hstatus
      rw [hs] at hstatus ⊢
      cases hnext : Utf8.next (b :: rest) with
      | mk c n =>
        rw [hnext] at hstatus
        cases c with
        | none => contradiction
        | some c => exact ⟨_, Utf8.sequence_of_next hnext, List.take_prefix n _⟩
    . rintro ⟨seq, hwf, hpre⟩
      obtain ⟨c, -, hnext⟩ := hseq seq hwf hpre
      rw [hs, hnext]
      rfl
  . intro seq hwf hpre
    obtain ⟨c, hc, hnext⟩ := hseq seq hwf hpre
    refine ⟨c, hc, ?_⟩
    rw [hs, hnext]
    rfl
  . intro hstatus i hi hlt seq hwf hhead
    rw [hs] at hstatus hlt
    cases hnext : Utf8.next (b :: rest) with
    | mk c n =>
      rw [hnext] at hstatus hlt
      cases c with
      | some c => contradiction
      | none =>
        rw [getElem?_of_drop hs hi] at hhead
        exact getNextCodepointUtf8.not_sequence_of_next hnext
          (show i - pos - 1 < n - 1 by
            have : i < pos + n := hlt
            omega) hhead hwf

theorem getNextCodepointUtf8_spec_euro :
    ∃ cp, getNextCodepointUtf8 [0x41, 0xE2, 0x82, 0xAC] 1 = .ok cp ∧ cp.cursor ≤ 4 := by
  obtain ⟨cp, hcp, -, -, hle, -⟩ :=
    getNextCodepointUtf8_spec (show 1 < [0x41, 0xE2, 0x82, (0xAC : UInt8)].length by decide)
  exact ⟨cp, hcp, hle⟩

theorem orRepl_mbFailure {u : UInt16} (pos : Nat) (h : Utf16.isSurrogate u = true) :
    (mbFailure pos 1).orRepl = (Utf16.single u).toNat := by
  rw [Utf16.single, if_pos h]
  rfl

theorem orRepl_mbSuccess {u : UInt16} (pos : Nat) (h : Utf16.isSurrogate u = false) :
    (mbSuccess u.toNat pos).orRepl = (Utf16.single u).toNat := by
  rw [Utf16.single, if_neg (by simp [h])]
  rw [Utf8.toNat_ofNat_of_isValidChar (Utf16.toNat_not_surrogate h)]
  rfl

theorem getNextCodepointUtf16_decodes {str : List UInt16} {pos : Nat} (h : pos < str.length) :
    ∃ cp c, getNextCodepointUtf16 str pos = .ok cp ∧ DecodesTo Utf16.decode str pos cp c := by
  obtain ⟨u, rest, hs⟩ := List.exists_cons_of_ne_nil (l := str.drop pos) (by simp [h])
  cases hu : Utf16.isLead u with
  | false =>
    have hdecode := Utf16.decode_cons_of_not_isLead rest hu
    cases ht : Utf16.isTrail u with
    | true =>
      have hsur : Utf16.isSurrogate u = true := by simp [Utf16.isSurrogate, ht]
      refine ⟨_, Utf16.single u, getNextCodepointUtf16.eq_trail hs ht, ?_⟩
      exact decodesTo_of_drop hs Nat.one_pos (by simp) rfl (orRepl_mbFailure pos hsur) hdecode
    | false =>
      have hsur : Utf16.isSurrogate u = false := by simp [Utf16.isSurrogate, hu, ht]
      refine ⟨_, Utf16.single u, getNextCodepointUtf16.eq_single hs hsur, ?_⟩
      exact decodesTo_of_drop hs Nat.one_pos (by simp) rfl (orRepl_mbSuccess _ hsur) hdecode
  | true =>
    have hsur : Utf16.isSurrogate u = true := by simp [Utf16.isSurrogate, hu]
    rcases rest with _ | ⟨v, rest⟩
    . refine ⟨_, Utf16.single u, getNextCodepointUtf16.eq_lead_end hs hu, ?_⟩
      exact decodesTo_of_drop hs Nat.one_pos (by simp) rfl (orRepl_mbFailure pos hsur) rfl
    . cases hv : Utf16.isTrail v with
      | false =>
        refine ⟨_, Utf16.single u, getNextCodepointUtf16.eq_lead_unpaired hs hu hv, ?_⟩
        apply decodesTo_of_drop hs Nat.one_pos (by simp) rfl (orRepl_mbFailure pos hsur)
        simp [Utf16.decode, hv]
      | true =>
        refine ⟨_, Utf16.pair u v, getNextCodepointUtf16.eq_pair hs hu hv, ?_⟩
        have hrepl (pos : Nat) : (mbSuccess (Utf16.pair u v).toNat pos).orRepl =
            (Utf16.pair u v).toNat := by
          simp [mbSuccess, Codepoint.orRepl]
        apply decodesTo_of_drop hs Nat.two_pos (by simp) rfl (hrepl _)
        simp [Utf16.decode, hu, hv]

end Ddwaf
