import Mathlib.Algebra.Group.Int.Defs
import Mathlib.Algebra.Group.Nat.Defs
import Mathlib.Tactic.Common
import Mathlib.Data.List.Basic

/-!
This module contains UTF-8 decoding of arbitrary byte strings. Ill-formed parts are skipped so that
no byte that can start a character is skipped with them, and become one replacement character for
each skip.
-/

namespace Utf8

def encode (cs : List Char) : List UInt8 := cs.flatMap String.utf8EncodeChar

@[simp]
theorem encode_nil : encode [] = [] := by
  rfl

@[simp]
theorem encode_cons (c : Char) (cs : List Char) :
    encode (c :: cs) = String.utf8EncodeChar c ++ encode cs := by
  rfl

theorem length_encode_le (cs : List Char) : (encode cs).length ≤ 4 * cs.length := by
  induction cs with
  | nil => simp
  | cons c cs ih =>
    have := c.utf8Size_le_four
    rw [encode_cons, List.length_append, String.length_utf8EncodeChar, List.length_cons]
    omega

def repl : Char := Char.ofNat 0xFFFD

def isLead (b : UInt8) : Bool := b < 0x80 || (0xC2 ≤ b && b ≤ 0xF4)

def isTrail (b : UInt8) : Bool := 0x80 ≤ b && b ≤ 0xBF

def scalar2 (c d : UInt8) : Nat := c.toNat % 32 * 64 + d.toNat % 64

def scalar3 (c d e : UInt8) : Nat := c.toNat % 16 * 4096 + d.toNat % 64 * 64 + e.toNat % 64

def scalar4 (c d e f : UInt8) : Nat :=
  c.toNat % 8 * 262144 + d.toNat % 64 * 4096 + e.toNat % 64 * 64 + f.toNat % 64

def next2 (c : UInt8) : List UInt8 → Option Char × Nat
  | [] => (none, 1)
  | d :: _ =>
    if isTrail d then
      (some (Char.ofNat (scalar2 c d)), 2)
    else
      (none, if isLead d then 1 else 2)

def next3 (c : UInt8) : List UInt8 → Option Char × Nat
  | [] => (none, 1)
  | [d] => (none, if isLead d then 1 else 2)
  | d :: e :: _ =>
    if isTrail d && isTrail e then
      if (scalar3 c d e).isValidChar ∧ 0x800 ≤ scalar3 c d e then
        (some (Char.ofNat (scalar3 c d e)), 3)
      else
        (none, 3)
    else
      (none, if isLead d then 1 else if isLead e then 2 else 3)

def next4 (c : UInt8) : List UInt8 → Option Char × Nat
  | [] => (none, 1)
  | [d] => (none, if isLead d then 1 else 2)
  | [d, e] => (none, if isLead d then 1 else if isLead e then 2 else 3)
  | d :: e :: f :: _ =>
    if isTrail d && isTrail e && isTrail f then
      if (scalar4 c d e f).isValidChar ∧ 0x10000 ≤ scalar4 c d e f then
        (some (Char.ofNat (scalar4 c d e f)), 4)
      else
        (none, 4)
    else
      (none, if isLead d then 1 else if isLead e then 2 else if isLead f then 3 else 4)

/--
The character at the start of a byte string, if there is one, and the number of bytes to go on
behind.
-/
def next : List UInt8 → Option Char × Nat
  | [] => (none, 0)
  | c :: rest =>
    if c < 0x80 then
      (some (Char.ofNat c.toNat), 1)
    else if c < 0xC2 then
      (none, 1)
    else if c < 0xE0 then
      next2 c rest
    else if c < 0xF0 then
      next3 c rest
    else if c < 0xF5 then
      next4 c rest
    else
      (none, 1)

theorem next2_bounds (c : UInt8) (rest : List UInt8) :
    0 < (next2 c rest).2 ∧ (next2 c rest).2 ≤ rest.length + 1 := by
  cases rest with
  | nil => simp [next2]
  | cons d rest =>
    simp only [next2, List.length_cons]
    split_ifs <;> omega

theorem next3_bounds (c : UInt8) (rest : List UInt8) :
    0 < (next3 c rest).2 ∧ (next3 c rest).2 ≤ rest.length + 1 := by
  rcases rest with _ | ⟨d, _ | ⟨e, rest⟩⟩
  . simp [next3]
  . simp only [next3, List.length_cons]
    split_ifs <;> omega
  . simp only [next3, List.length_cons]
    split_ifs <;> omega

theorem next4_bounds (c : UInt8) (rest : List UInt8) :
    0 < (next4 c rest).2 ∧ (next4 c rest).2 ≤ rest.length + 1 := by
  rcases rest with _ | ⟨d, _ | ⟨e, _ | ⟨f, rest⟩⟩⟩
  . simp [next4]
  . simp only [next4, List.length_cons]
    split_ifs <;> omega
  . simp only [next4, List.length_cons]
    split_ifs <;> omega
  . simp only [next4, List.length_cons]
    split_ifs <;> omega

theorem next_bounds (c : UInt8) (rest : List UInt8) :
    0 < (next (c :: rest)).2 ∧ (next (c :: rest)).2 ≤ rest.length + 1 := by
  have h2 := next2_bounds c rest
  have h3 := next3_bounds c rest
  have h4 := next4_bounds c rest
  simp only [next]
  split_ifs <;> omega

theorem next_pos (c : UInt8) (rest : List UInt8) : 0 < (next (c :: rest)).2 :=
  (next_bounds c rest).1

theorem next_le (s : List UInt8) : (next s).2 ≤ s.length := by
  cases s with
  | nil => simp [next]
  | cons c rest => exact (next_bounds c rest).2

theorem toNat_ofNat_le (n : Nat) : (Char.ofNat n).toNat ≤ n := by
  by_cases h : n.isValidChar
  . rw [Char.ofNat, dif_pos h]
    exact Nat.le_refl n
  . rw [Char.ofNat, dif_neg h]
    exact Nat.zero_le n

theorem toNat_ofNat_of_isValidChar {n : Nat} (h : n.isValidChar) : (Char.ofNat n).toNat = n := by
  rw [Char.ofNat, dif_pos h]
  rfl

theorem toNat_repl : repl.toNat = 0xFFFD := by
  rfl

theorem next2_toNat_le (c : UInt8) (rest : List UInt8) :
    ((next2 c rest).1.getD repl).toNat ≤ 0xFFFF := by
  cases rest with
  | nil => simp [next2, toNat_repl]
  | cons d rest =>
    simp only [next2]
    split
    . apply Nat.le_trans (toNat_ofNat_le _)
      unfold scalar2
      omega
    . simp [toNat_repl]

theorem next3_toNat_le (c : UInt8) (rest : List UInt8) :
    ((next3 c rest).1.getD repl).toNat ≤ 0xFFFF := by
  rcases rest with _ | ⟨d, _ | ⟨e, rest⟩⟩
  . simp [next3, toNat_repl]
  . simp [next3, toNat_repl]
  . simp only [next3]
    split
    . split
      . apply Nat.le_trans (toNat_ofNat_le _)
        unfold scalar3
        omega
      . simp [toNat_repl]
    . simp [toNat_repl]

theorem next4_eq_four {c : UInt8} {rest : List UInt8} (h : (next4 c rest).1 ≠ none) :
    (next4 c rest).2 = 4 := by
  rcases rest with _ | ⟨d, _ | ⟨e, _ | ⟨f, rest⟩⟩⟩
  . simp [next4] at h
  . simp [next4] at h
  . simp [next4] at h
  . revert h
    simp only [next4]
    split
    . split <;> simp
    . simp

theorem next_eq_four {s : List UInt8} (h : 0xFFFF < ((next s).1.getD repl).toNat) :
    (next s).2 = 4 := by
  cases s with
  | nil => simp [next, toNat_repl] at h
  | cons c rest =>
    revert h
    simp only [next]
    split
    . intro h
      have := toNat_ofNat_le c.toNat
      have := c.toNat_lt
      simp only [Option.getD_some] at h
      omega
    . split
      . simp [toNat_repl]
      . split
        . have := next2_toNat_le c rest
          omega
        . split
          . have := next3_toNat_le c rest
            omega
          . split
            . intro h
              apply next4_eq_four
              intro hnone
              simp [hnone, toNat_repl] at h
            . simp [toNat_repl]

theorem next_append_of_four {p : List UInt8} (r : List UInt8) (h : 4 ≤ p.length) :
    next (p ++ r) = next p := by
  rcases p with _ | ⟨c, _ | ⟨d, _ | ⟨e, _ | ⟨f, p⟩⟩⟩⟩ <;> simp at h
  simp [next, next2, next3, next4]

theorem isLead_of_ascii {a : UInt8} (ha : a < 0x80) : isLead a = true := by
  simp [isLead, ha]

theorem isTrail_of_ascii {a : UInt8} (ha : a < 0x80) : isTrail a = false := by
  have : ¬ 0x80 ≤ a := UInt8.not_le.mpr ha
  simp [isTrail, this]

theorem next_append_ascii {p : List UInt8} (r : List UInt8) {a : UInt8} (hp : p ≠ [])
    (ha : a < 0x80) : next (p ++ a :: r) = next p := by
  have hlead := isLead_of_ascii ha
  have htrail := isTrail_of_ascii ha
  rcases p with _ | ⟨c, _ | ⟨d, _ | ⟨e, _ | ⟨f, p⟩⟩⟩⟩
  . contradiction
  . rcases r with _ | ⟨x, _ | ⟨y, r⟩⟩ <;> simp [next, next2, next3, next4, hlead, htrail]
  . rcases r with _ | ⟨x, r⟩ <;> simp [next, next2, next3, next4, hlead, htrail]
  . simp [next, next2, next3, next4, hlead, htrail]
  . simp [next, next2, next3, next4]

def decode : List UInt8 → List Char
  | [] => []
  | c :: rest =>
    (next (c :: rest)).1.getD repl :: decode ((c :: rest).drop (next (c :: rest)).2)
termination_by s => s.length
decreasing_by
  have := next_pos c rest
  simp only [List.length_drop, List.length_cons]
  omega

@[simp]
theorem decode_nil : decode [] = [] := by
  unfold decode
  rfl

theorem decode_of_ne_nil {s : List UInt8} (h : s ≠ []) :
    decode s = (next s).1.getD repl :: decode (s.drop (next s).2) := by
  cases s with
  | nil => contradiction
  | cons c rest => rw [decode]

theorem next_ascii {a : UInt8} (r : List UInt8) (ha : a < 0x80) :
    next (a :: r) = (some (Char.ofNat a.toNat), 1) := by
  simp [next, ha]

theorem decode_ascii_cons {a : UInt8} (r : List UInt8) (ha : a < 0x80) :
    decode (a :: r) = Char.ofNat a.toNat :: decode r := by
  rw [decode_of_ne_nil (by simp), next_ascii r ha]
  simp

theorem decode_append_ascii (p r : List UInt8) {a : UInt8} (ha : a < 0x80) :
    decode (p ++ a :: r) = decode p ++ decode (a :: r) := by
  induction hn : p.length using Nat.strongRecOn generalizing p with
  | ind n ih =>
    by_cases hp : p = []
    . simp [hp]
    . have hle := next_le p
      have hpos : 0 < (next p).2 := by
        cases p with
        | nil => contradiction
        | cons c rest => apply next_pos
      rw [decode_of_ne_nil (by simp), next_append_ascii r hp ha, decode_of_ne_nil hp]
      rw [List.drop_append_of_le_length hle]
      rw [ih (p.drop (next p).2).length (by simp only [List.length_drop]; omega) _ rfl]
      rfl

section NonAscii

theorem next2_ge {c : UInt8} (rest : List UInt8) (h : 0xC2 ≤ c.toNat) (h' : c.toNat < 0xE0) :
    0x80 ≤ ((next2 c rest).1.getD repl).toNat := by
  cases rest with
  | nil => simp [next2, toNat_repl]
  | cons d rest =>
    simp only [next2]
    split
    . rw [Option.getD_some, toNat_ofNat_of_isValidChar]
      . unfold scalar2
        omega
      . unfold scalar2 Nat.isValidChar
        omega
    . simp [toNat_repl]

theorem next3_ge (c : UInt8) (rest : List UInt8) :
    0x80 ≤ ((next3 c rest).1.getD repl).toNat := by
  rcases rest with _ | ⟨d, _ | ⟨e, rest⟩⟩
  . simp [next3, toNat_repl]
  . simp [next3, toNat_repl]
  . simp only [next3]
    split
    . split
      . next hvalid =>
        rw [Option.getD_some, toNat_ofNat_of_isValidChar hvalid.1]
        omega
      . simp [toNat_repl]
    . simp [toNat_repl]

theorem next4_ge (c : UInt8) (rest : List UInt8) :
    0x80 ≤ ((next4 c rest).1.getD repl).toNat := by
  rcases rest with _ | ⟨d, _ | ⟨e, _ | ⟨f, rest⟩⟩⟩
  . simp [next4, toNat_repl]
  . simp [next4, toNat_repl]
  . simp [next4, toNat_repl]
  . simp only [next4]
    split
    . split
      . next hvalid =>
        rw [Option.getD_some, toNat_ofNat_of_isValidChar hvalid.1]
        omega
      . simp [toNat_repl]
    . simp [toNat_repl]

theorem next_ge {c : UInt8} (rest : List UInt8) (h : 0x80 ≤ c) :
    0x80 ≤ ((next (c :: rest)).1.getD repl).toNat := by
  simp only [UInt8.le_iff_toNat_le, UInt8.reduceToNat] at h
  simp only [next, UInt8.lt_iff_toNat_lt, UInt8.reduceToNat]
  rw [if_neg (by omega)]
  split
  . simp [toNat_repl]
  . split
    . exact next2_ge rest (by omega) (by omega)
    . split
      . exact next3_ge c rest
      . split
        . exact next4_ge c rest
        . simp [toNat_repl]

theorem decode_ge {s : List UInt8} (h : ∀ b ∈ s, 0x80 ≤ b) : ∀ c ∈ decode s, 0x80 ≤ c.toNat := by
  induction s using decode.induct with
  | case1 => simp
  | case2 c rest ih =>
    rw [decode, List.forall_mem_cons]
    constructor
    . exact next_ge rest (h c (by simp))
    . apply ih
      intro b hb
      exact h b (List.mem_of_mem_drop hb)

end NonAscii

section Encode

theorem toNat_ofNat_of_lt {n : Nat} (h : n < 256) : (UInt8.ofNat n).toNat = n := by
  simp [Nat.mod_eq_of_lt h]

theorem isTrail_ofNat (n : Nat) : isTrail (UInt8.ofNat (n % 64 + 0x80)) = true := by
  have : (UInt8.ofNat (n % 64 + 0x80)).toNat = n % 64 + 0x80 := toNat_ofNat_of_lt (by omega)
  simp only [isTrail, UInt8.le_iff_toNat_le, this, Bool.and_eq_true, decide_eq_true_eq]
  constructor
  . simp
  . simp
    omega

theorem next_encodeChar_one {c : Char} (r : List UInt8) (h : c.toNat ≤ 0x7F) :
    next (UInt8.ofNat c.toNat :: r) = (some c, 1) := by
  have hc : (UInt8.ofNat c.toNat).toNat = c.toNat := toNat_ofNat_of_lt (by omega)
  rw [next_ascii]
  . simp [hc]
  . simp only [UInt8.lt_iff_toNat_lt, hc]
    simp
    omega

theorem next_encodeChar_two {c : Char} (r : List UInt8) (h : 0x7F < c.toNat)
    (h' : c.toNat ≤ 0x7FF) :
    next (UInt8.ofNat (c.toNat / 64 % 32 + 0xC0) :: UInt8.ofNat (c.toNat % 64 + 0x80) :: r) =
      (some c, 2) := by
  have hc : (UInt8.ofNat (c.toNat / 64 % 32 + 0xC0)).toNat = c.toNat / 64 + 0xC0 := by
    rw [toNat_ofNat_of_lt] <;> omega
  have hd : (UInt8.ofNat (c.toNat % 64 + 0x80)).toNat = c.toNat % 64 + 0x80 :=
    toNat_ofNat_of_lt (by omega)
  have hs : scalar2 (UInt8.ofNat (c.toNat / 64 % 32 + 0xC0)) (UInt8.ofNat (c.toNat % 64 + 0x80)) =
      c.toNat := by
    simp only [scalar2, hc, hd]
    omega
  simp only [next, UInt8.lt_iff_toNat_lt, hc, UInt8.reduceToNat]
  rw [if_neg (by omega), if_neg (by omega), if_pos (by omega)]
  simp only [next2, isTrail_ofNat, hs]
  simp

theorem next_encodeChar_three {c : Char} (r : List UInt8) (h : 0x7FF < c.toNat)
    (h' : c.toNat ≤ 0xFFFF) :
    next (UInt8.ofNat (c.toNat / 4096 % 16 + 0xE0) :: UInt8.ofNat (c.toNat / 64 % 64 + 0x80) ::
      UInt8.ofNat (c.toNat % 64 + 0x80) :: r) = (some c, 3) := by
  have hc : (UInt8.ofNat (c.toNat / 4096 % 16 + 0xE0)).toNat = c.toNat / 4096 + 0xE0 := by
    rw [toNat_ofNat_of_lt] <;> omega
  have hd : (UInt8.ofNat (c.toNat / 64 % 64 + 0x80)).toNat = c.toNat / 64 % 64 + 0x80 :=
    toNat_ofNat_of_lt (by omega)
  have he : (UInt8.ofNat (c.toNat % 64 + 0x80)).toNat = c.toNat % 64 + 0x80 :=
    toNat_ofNat_of_lt (by omega)
  have hs : scalar3 (UInt8.ofNat (c.toNat / 4096 % 16 + 0xE0))
      (UInt8.ofNat (c.toNat / 64 % 64 + 0x80)) (UInt8.ofNat (c.toNat % 64 + 0x80)) = c.toNat := by
    simp only [scalar3, hc, hd, he]
    omega
  have hvalid : c.toNat.isValidChar := c.valid
  simp only [next, UInt8.lt_iff_toNat_lt, hc, UInt8.reduceToNat]
  rw [if_neg (by omega), if_neg (by omega), if_neg (by omega),
    if_pos (by omega)]
  simp only [next3, isTrail_ofNat, hs]
  simp only [Bool.and_self, ↓reduceIte]
  rw [if_pos ⟨hvalid, by omega⟩]
  simp

theorem next_encodeChar_four {c : Char} (r : List UInt8) (h : 0xFFFF < c.toNat) :
    next (UInt8.ofNat (c.toNat / 262144 % 8 + 0xF0) :: UInt8.ofNat (c.toNat / 4096 % 64 + 0x80) ::
      UInt8.ofNat (c.toNat / 64 % 64 + 0x80) :: UInt8.ofNat (c.toNat % 64 + 0x80) :: r) =
      (some c, 4) := by
  have hvalid : c.toNat.isValidChar := c.valid
  have hmax : c.toNat < 0x110000 := by
    rcases hvalid with hvalid | hvalid <;> omega
  have hc : (UInt8.ofNat (c.toNat / 262144 % 8 + 0xF0)).toNat = c.toNat / 262144 + 0xF0 := by
    rw [toNat_ofNat_of_lt] <;> omega
  have hd : (UInt8.ofNat (c.toNat / 4096 % 64 + 0x80)).toNat = c.toNat / 4096 % 64 + 0x80 :=
    toNat_ofNat_of_lt (by omega)
  have he : (UInt8.ofNat (c.toNat / 64 % 64 + 0x80)).toNat = c.toNat / 64 % 64 + 0x80 :=
    toNat_ofNat_of_lt (by omega)
  have hf : (UInt8.ofNat (c.toNat % 64 + 0x80)).toNat = c.toNat % 64 + 0x80 :=
    toNat_ofNat_of_lt (by omega)
  have hs : scalar4 (UInt8.ofNat (c.toNat / 262144 % 8 + 0xF0))
      (UInt8.ofNat (c.toNat / 4096 % 64 + 0x80)) (UInt8.ofNat (c.toNat / 64 % 64 + 0x80))
      (UInt8.ofNat (c.toNat % 64 + 0x80)) = c.toNat := by
    simp only [scalar4, hc, hd, he, hf]
    omega
  simp only [next, UInt8.lt_iff_toNat_lt, hc, UInt8.reduceToNat]
  rw [if_neg (by omega), if_neg (by omega), if_neg (by omega),
    if_neg (by omega), if_pos (by omega)]
  simp only [next4, isTrail_ofNat, hs]
  simp only [Bool.and_self, ↓reduceIte]
  rw [if_pos ⟨hvalid, by omega⟩]
  simp

theorem next_encodeChar (c : Char) (r : List UInt8) :
    next (String.utf8EncodeChar c ++ r) = (some c, (String.utf8EncodeChar c).length) := by
  have hv : c.val.toNat = c.toNat := rfl
  simp only [String.utf8EncodeChar, hv]
  split
  . next h1 => exact next_encodeChar_one r h1
  . next h1 =>
    split
    . next h2 => exact next_encodeChar_two r (by omega) h2
    . next h2 =>
      split
      . next h3 => exact next_encodeChar_three r (by omega) h3
      . next h3 => exact next_encodeChar_four r (by omega)

theorem decode_encodeChar_append (c : Char) (r : List UInt8) :
    decode (String.utf8EncodeChar c ++ r) = c :: decode r := by
  rw [decode_of_ne_nil]
  . simp [next_encodeChar]
  . simp [String.utf8EncodeChar_ne_nil]

@[simp]
theorem decode_encode (cs : List Char) : decode (encode cs) = cs := by
  induction cs with
  | nil => simp
  | cons c cs ih => rw [encode_cons, decode_encodeChar_append, ih]

end Encode

end Utf8
