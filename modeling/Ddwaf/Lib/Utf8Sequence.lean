import Ddwaf.Lib.Utf8

/-!
This module contains the well-formed byte sequences of UTF-8 as a table of the ranges of their bytes,
and that these are what the decoder takes for a character.
-/

namespace Utf8

def table : List (List (Nat × Nat)) :=
  [[(0x00, 0x7F)],
   [(0xC2, 0xDF), (0x80, 0xBF)],
   [(0xE0, 0xE0), (0xA0, 0xBF), (0x80, 0xBF)],
   [(0xE1, 0xEC), (0x80, 0xBF), (0x80, 0xBF)],
   [(0xED, 0xED), (0x80, 0x9F), (0x80, 0xBF)],
   [(0xEE, 0xEF), (0x80, 0xBF), (0x80, 0xBF)],
   [(0xF0, 0xF0), (0x90, 0xBF), (0x80, 0xBF), (0x80, 0xBF)],
   [(0xF1, 0xF3), (0x80, 0xBF), (0x80, 0xBF), (0x80, 0xBF)],
   [(0xF4, 0xF4), (0x80, 0x8F), (0x80, 0xBF), (0x80, 0xBF)]]

def InRow : List UInt8 → List (Nat × Nat) → Prop
  | [], [] => True
  | b :: bs, (low, high) :: row => low ≤ b.toNat ∧ b.toNat ≤ high ∧ InRow bs row
  | _, _ => False

def Sequence (seq : List UInt8) : Prop := ∃ row ∈ table, InRow seq row

theorem sequence_one_iff {a : UInt8} : Sequence [a] ↔ a.toNat ≤ 0x7F := by
  simp [Sequence, table, InRow]

theorem sequence_two_iff {c d : UInt8} :
    Sequence [c, d] ↔ (0xC2 ≤ c.toNat ∧ c.toNat ≤ 0xDF) ∧ 0x80 ≤ d.toNat ∧ d.toNat ≤ 0xBF := by
  simp [Sequence, table, InRow, and_assoc]

theorem sequence_three_iff {c d e : UInt8} :
    Sequence [c, d, e] ↔ (0xE0 ≤ c.toNat ∧ c.toNat ≤ 0xEF) ∧ (0x80 ≤ d.toNat ∧ d.toNat ≤ 0xBF) ∧
      (0x80 ≤ e.toNat ∧ e.toNat ≤ 0xBF) ∧ (c.toNat = 0xE0 → 0xA0 ≤ d.toNat) ∧
      (c.toNat = 0xED → d.toNat ≤ 0x9F) := by
  simp [Sequence, table, InRow]
  omega

theorem sequence_four_iff {c d e f : UInt8} :
    Sequence [c, d, e, f] ↔ (0xF0 ≤ c.toNat ∧ c.toNat ≤ 0xF4) ∧
      (0x80 ≤ d.toNat ∧ d.toNat ≤ 0xBF) ∧ (0x80 ≤ e.toNat ∧ e.toNat ≤ 0xBF) ∧
      (0x80 ≤ f.toNat ∧ f.toNat ≤ 0xBF) ∧ (c.toNat = 0xF0 → 0x90 ≤ d.toNat) ∧
      (c.toNat = 0xF4 → d.toNat ≤ 0x8F) := by
  simp [Sequence, table, InRow]
  omega

theorem sequence_cases {seq : List UInt8} (h : Sequence seq) :
    (∃ a, seq = [a]) ∨ (∃ c d, seq = [c, d]) ∨ (∃ c d e, seq = [c, d, e]) ∨
      ∃ c d e f, seq = [c, d, e, f] := by
  rcases seq with _ | ⟨a, _ | ⟨b, _ | ⟨c, _ | ⟨d, _ | ⟨e, seq⟩⟩⟩⟩⟩
  . simp [Sequence, table, InRow] at h
  . simp
  . simp
  . simp
  . simp
  . simp [Sequence, table, InRow] at h

theorem Sequence.ne_nil {seq : List UInt8} (h : Sequence seq) : seq ≠ [] := by
  rintro rfl
  simp [Sequence, table, InRow] at h

theorem isTrail_iff {b : UInt8} : isTrail b = true ↔ 0x80 ≤ b.toNat ∧ b.toNat ≤ 0xBF := by
  simp [isTrail, UInt8.le_iff_toNat_le]

theorem isLead_iff {b : UInt8} :
    isLead b = true ↔ b.toNat ≤ 0x7F ∨ (0xC2 ≤ b.toNat ∧ b.toNat ≤ 0xF4) := by
  simp only [isLead, Bool.or_eq_true, Bool.and_eq_true, decide_eq_true_eq, UInt8.lt_iff_toNat_lt,
    UInt8.le_iff_toNat_le, UInt8.reduceToNat]
  omega

theorem Sequence.isLead {b : UInt8} {seq : List UInt8} (h : Sequence (b :: seq)) :
    isLead b = true := by
  rw [isLead_iff]
  rcases sequence_cases h with ⟨a, heq⟩ | ⟨c, d, heq⟩ | ⟨c, d, e, heq⟩ | ⟨c, d, e, f, heq⟩
  . cases heq
    have := sequence_one_iff.mp h
    omega
  . cases heq
    have := sequence_two_iff.mp h
    omega
  . cases heq
    have := sequence_three_iff.mp h
    omega
  . cases heq
    have := sequence_four_iff.mp h
    omega

section Some

variable {c d e f : UInt8} {rest : List UInt8} {char : Char} {n : Nat}

theorem isValidChar_iff (n : Nat) : n.isValidChar ↔ n < 0xD800 ∨ (0xDFFF < n ∧ n < 0x110000) :=
  Iff.rfl

theorem eq_ofNat {n : Nat} {b : UInt8} (h : b.toNat = n) : b = UInt8.ofNat n := by
  rw [← h, UInt8.ofNat_toNat]

theorem encodeChar_of_two (h : Sequence [c, d]) :
    String.utf8EncodeChar (Char.ofNat (scalar2 c d)) = [c, d] := by
  obtain ⟨hc, hd⟩ := sequence_two_iff.mp h
  have hvalid : (Char.ofNat (scalar2 c d)).val.toNat = scalar2 c d := by
    apply toNat_ofNat_of_isValidChar
    rw [isValidChar_iff, scalar2]
    omega
  simp only [String.utf8EncodeChar, hvalid]
  unfold scalar2
  rw [if_neg (by omega), if_pos (by omega), List.cons.injEq, List.cons.injEq]
  refine ⟨(eq_ofNat ?_).symm, (eq_ofNat ?_).symm, rfl⟩ <;> omega

theorem encodeChar_of_three (h : Sequence [c, d, e]) :
    String.utf8EncodeChar (Char.ofNat (scalar3 c d e)) = [c, d, e] := by
  obtain ⟨hc, hd, he, h1, h2⟩ := sequence_three_iff.mp h
  have hvalid : (Char.ofNat (scalar3 c d e)).val.toNat = scalar3 c d e := by
    apply toNat_ofNat_of_isValidChar
    rw [isValidChar_iff, scalar3]
    omega
  simp only [String.utf8EncodeChar, hvalid]
  unfold scalar3
  rw [if_neg (by omega), if_neg (by omega), if_pos (by omega), List.cons.injEq, List.cons.injEq,
    List.cons.injEq]
  refine ⟨(eq_ofNat ?_).symm, (eq_ofNat ?_).symm, (eq_ofNat ?_).symm, rfl⟩ <;> omega

theorem encodeChar_of_four (h : Sequence [c, d, e, f]) :
    String.utf8EncodeChar (Char.ofNat (scalar4 c d e f)) = [c, d, e, f] := by
  obtain ⟨hc, hd, he, hf, h1, h2⟩ := sequence_four_iff.mp h
  have hvalid : (Char.ofNat (scalar4 c d e f)).val.toNat = scalar4 c d e f := by
    apply toNat_ofNat_of_isValidChar
    rw [isValidChar_iff, scalar4]
    omega
  simp only [String.utf8EncodeChar, hvalid]
  unfold scalar4
  rw [if_neg (by omega), if_neg (by omega), if_neg (by omega), List.cons.injEq, List.cons.injEq,
    List.cons.injEq, List.cons.injEq]
  refine ⟨(eq_ofNat ?_).symm, (eq_ofNat ?_).symm, (eq_ofNat ?_).symm, (eq_ofNat ?_).symm, rfl⟩ <;>
    omega

theorem sequence_encodeChar {seq : List UInt8} (h : Sequence seq) :
    ∃ c, seq = String.utf8EncodeChar c := by
  rcases sequence_cases h with ⟨a, rfl⟩ | ⟨c, d, rfl⟩ | ⟨c, d, e, rfl⟩ | ⟨c, d, e, f, rfl⟩
  . refine ⟨Char.ofNat a.toNat, ?_⟩
    have ha := sequence_one_iff.mp h
    have hvalid : (Char.ofNat a.toNat).val.toNat = a.toNat := by
      apply toNat_ofNat_of_isValidChar
      rw [isValidChar_iff]
      omega
    simp only [String.utf8EncodeChar, hvalid]
    rw [if_pos ha, UInt8.ofNat_toNat]
  . exact ⟨_, (encodeChar_of_two h).symm⟩
  . exact ⟨_, (encodeChar_of_three h).symm⟩
  . exact ⟨_, (encodeChar_of_four h).symm⟩

theorem sequence_of_next2 (hc : 0xC2 ≤ c.toNat) (hc' : c.toNat < 0xE0)
    (h : next2 c rest = (some char, n)) : Sequence ((c :: rest).take n) := by
  cases rest with
  | nil => simp [next2] at h
  | cons d rest =>
    simp only [next2] at h
    split at h
    . next hd =>
      cases h
      have := isTrail_iff.mp hd
      apply sequence_two_iff.mpr
      omega
    . simp at h

theorem sequence_of_next3 (hc : 0xE0 ≤ c.toNat) (hc' : c.toNat < 0xF0)
    (h : next3 c rest = (some char, n)) : Sequence ((c :: rest).take n) := by
  rcases rest with _ | ⟨d, _ | ⟨e, rest⟩⟩
  . simp [next3] at h
  . simp [next3] at h
  . simp only [next3] at h
    split at h
    . next htrail =>
      rw [Bool.and_eq_true, isTrail_iff, isTrail_iff] at htrail
      split at h
      . next hvalid =>
        cases h
        rw [isValidChar_iff] at hvalid
        unfold scalar3 at hvalid
        apply sequence_three_iff.mpr
        omega
      . simp at h
    . simp at h

theorem sequence_of_next4 (hc : 0xF0 ≤ c.toNat) (hc' : c.toNat < 0xF5)
    (h : next4 c rest = (some char, n)) : Sequence ((c :: rest).take n) := by
  rcases rest with _ | ⟨d, _ | ⟨e, _ | ⟨f, rest⟩⟩⟩
  . simp [next4] at h
  . simp [next4] at h
  . simp [next4] at h
  . simp only [next4] at h
    split at h
    . next htrail =>
      rw [Bool.and_eq_true, Bool.and_eq_true, isTrail_iff, isTrail_iff, isTrail_iff] at htrail
      split at h
      . next hvalid =>
        cases h
        rw [isValidChar_iff] at hvalid
        unfold scalar4 at hvalid
        apply sequence_four_iff.mpr
        omega
      . simp at h
    . simp at h

theorem sequence_of_next {s : List UInt8} (h : next s = (some char, n)) : Sequence (s.take n) := by
  cases s with
  | nil => simp [next] at h
  | cons c rest =>
    simp only [next, UInt8.lt_iff_toNat_lt, UInt8.reduceToNat] at h
    split at h
    . next hc =>
      cases h
      apply sequence_one_iff.mpr
      omega
    . split at h
      . simp at h
      . split at h
        . exact sequence_of_next2 (by omega) (by omega) h
        . split at h
          . exact sequence_of_next3 (by omega) (by omega) h
          . split at h
            . exact sequence_of_next4 (by omega) (by omega) h
            . simp at h

end Some

section None

variable {c : UInt8} {rest : List UInt8} {n : Nat}

theorem not_isLead_of_isTrail {b : UInt8} (h : isTrail b = true) : isLead b = false := by
  rw [Bool.eq_false_iff, Ne, isLead_iff]
  rw [isTrail_iff] at h
  omega

theorem not_isLead_of_next2 (h : next2 c rest = (none, n)) :
    ∀ b ∈ rest.take (n - 1), isLead b = false := by
  cases rest with
  | nil => simp
  | cons d rest =>
    simp only [next2] at h
    split at h
    . cases h
    . cases h
      cases hd : isLead d <;> simp [hd]

theorem not_isLead_of_next3 (h : next3 c rest = (none, n)) :
    ∀ b ∈ rest.take (n - 1), isLead b = false := by
  rcases rest with _ | ⟨d, _ | ⟨e, rest⟩⟩
  . simp
  . cases h
    cases hd : isLead d <;> simp [hd]
  . simp only [next3] at h
    split at h
    . next htrail =>
      rw [Bool.and_eq_true] at htrail
      split at h
      . cases h
      . cases h
        simp [not_isLead_of_isTrail htrail.1, not_isLead_of_isTrail htrail.2]
    . cases h
      cases hd : isLead d <;> cases he : isLead e <;> simp [hd, he]

theorem not_isLead_of_next4 (h : next4 c rest = (none, n)) :
    ∀ b ∈ rest.take (n - 1), isLead b = false := by
  rcases rest with _ | ⟨d, _ | ⟨e, _ | ⟨f, rest⟩⟩⟩
  . simp
  . cases h
    cases hd : isLead d <;> simp [hd]
  . cases h
    cases hd : isLead d <;> cases he : isLead e <;> simp [hd, he]
  . simp only [next4] at h
    split at h
    . next htrail =>
      rw [Bool.and_eq_true, Bool.and_eq_true] at htrail
      split at h
      . cases h
      . cases h
        simp [not_isLead_of_isTrail htrail.1.1, not_isLead_of_isTrail htrail.1.2,
          not_isLead_of_isTrail htrail.2]
    . cases h
      cases hd : isLead d <;> cases he : isLead e <;> cases hf : isLead f <;> simp [hd, he, hf]

theorem not_isLead_of_next (h : next (c :: rest) = (none, n)) :
    ∀ b ∈ rest.take (n - 1), isLead b = false := by
  simp only [next] at h
  split at h
  . cases h
  . split at h
    . cases h
      simp
    . split at h
      . exact not_isLead_of_next2 h
      . split at h
        . exact not_isLead_of_next3 h
        . split at h
          . exact not_isLead_of_next4 h
          . cases h
            simp

end None

theorem next_of_sequence {seq : List UInt8} (h : Sequence seq) (r : List UInt8) :
    ∃ c, seq = String.utf8EncodeChar c ∧ next (seq ++ r) = (some c, seq.length) := by
  obtain ⟨c, rfl⟩ := sequence_encodeChar h
  exact ⟨c, rfl, next_encodeChar c r⟩

end Utf8
