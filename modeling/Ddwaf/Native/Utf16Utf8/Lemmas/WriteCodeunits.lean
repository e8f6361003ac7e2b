import Ddwaf.Native.Utf16Utf8.Lemmas.GetNextCodepoint

namespace Ddwaf

theorem add_or {n b : Nat} (i : Nat) (hn : 2 ^ i * (n / 2 ^ i) = n) (h : b < 2 ^ i) :
    n ||| b = n + b := by
  rw [← hn]
  exact (Nat.two_pow_add_eq_or_of_lt h (n / 2 ^ i)).symm

namespace writeUtf8Codeunits

theorem trail_bits (k : Nat) : 0x80 ||| (k &&& 0x3f) = k % 64 + 0x80 := by
  rw [Nat.and_two_pow_sub_one_eq_mod k 6, add_or 6 (by decide) (by omega)]
  omega

theorem lead2_bits {k : Nat} (h : k < 0x800) : 0xc0 ||| (k >>> 6) = k / 64 % 32 + 0xc0 := by
  rw [Nat.shiftRight_eq_div_pow, add_or 5 (by decide) (by omega)]
  omega

theorem lead3_bits {k : Nat} (h : k < 0x10000) : 0xe0 ||| (k >>> 12) = k / 4096 % 16 + 0xe0 := by
  rw [Nat.shiftRight_eq_div_pow, add_or 4 (by decide) (by omega)]
  omega

theorem lead4_bits {k : Nat} (h : k < 0x110000) :
    0xf0 ||| (k >>> 18) = k / 262144 % 8 + 0xf0 := by
  rw [Nat.shiftRight_eq_div_pow, add_or 3 (by decide) (by omega)]
  omega

theorem eq_utf8EncodeChar (c : Char) : writeUtf8Codeunits c.toNat = String.utf8EncodeChar c := by
  have hc := Utf16.toNat_lt c
  have hv : c.val.toNat = c.toNat := rfl
  rw [writeUtf8Codeunits, String.utf8EncodeChar]
  simp only [hv, trail_bits]
  by_cases h1 : c.toNat < 0x80
  . rw [if_pos h1, if_pos (show c.toNat ≤ 0x7f by omega)]
  . rw [if_neg h1, if_neg (show ¬ c.toNat ≤ 0x7f by omega)]
    by_cases h2 : c.toNat < 0x800
    . rw [if_pos h2, if_pos (show c.toNat ≤ 0x7ff by omega), lead2_bits h2]
    . rw [if_neg h2, if_neg (show ¬ c.toNat ≤ 0x7ff by omega)]
      by_cases h3 : c.toNat < 0x10000
      . rw [if_pos h3, if_pos (show c.toNat ≤ 0xffff by omega), lead3_bits h3,
          Nat.shiftRight_eq_div_pow]
      . rw [if_neg h3, if_neg (show ¬ c.toNat ≤ 0xffff by omega), lead4_bits hc,
          Nat.shiftRight_eq_div_pow, Nat.shiftRight_eq_div_pow]

theorem length_le (k : Nat) : (writeUtf8Codeunits k).length ≤ 4 := by
  unfold writeUtf8Codeunits
  split_ifs <;> simp

end writeUtf8Codeunits

namespace writeUtf16Codeunits

theorem eq_of_lt {k : Nat} (h : k < 0x10000) : writeUtf16Codeunits k = [UInt16.ofNat k] := by
  rw [writeUtf16Codeunits, if_pos h]

theorem eq_of_le {k : Nat} (h : 0x10000 ≤ k) :
    writeUtf16Codeunits k =
      [UInt16.ofNat (0xD800 + k % 0x10000 / 0x400), UInt16.ofNat (0xDC00 + k % 0x400)] := by
  rw [writeUtf16Codeunits, if_neg (by omega)]
  rw [Nat.and_two_pow_sub_one_eq_mod k 16, Nat.and_two_pow_sub_one_eq_mod k 10]
  rw [Nat.shiftRight_eq_div_pow, add_or 11 (by decide) (by omega), add_or 10 (by decide) (by omega)]

theorem length_pos (k : Nat) : 0 < (writeUtf16Codeunits k).length := by
  unfold writeUtf16Codeunits
  split <;> simp

theorem length_le (k : Nat) : (writeUtf16Codeunits k).length ≤ 2 := by
  unfold writeUtf16Codeunits
  split <;> simp

theorem length_eq_two_iff (k : Nat) : (writeUtf16Codeunits k).length = 2 ↔ 0xFFFF < k := by
  unfold writeUtf16Codeunits
  split
  . simp
    omega
  . simp
    omega

theorem length_eq (c : Char) :
    (writeUtf16Codeunits c.toNat).length = (Utf16.encodeChar c).length := by
  rw [writeUtf16Codeunits, Utf16.encodeChar]
  by_cases h : c.toNat < 0x10000
  . rw [if_pos h, if_pos h]
  . rw [if_neg h, if_neg h]
    simp only [List.length_cons, List.length_nil]

theorem eq_encodeChar_iff (c : Char) :
    writeUtf16Codeunits c.toNat = Utf16.encodeChar c ↔ c.toNat < 0x20000 := by
  have hc := Utf16.toNat_lt c
  unfold Utf16.encodeChar
  split
  . next h =>
    rw [eq_of_lt h]
    simp
    omega
  . next h =>
    rw [eq_of_le (by omega)]
    constructor
    . intro heq
      rw [List.cons.injEq] at heq
      have hlead := congrArg UInt16.toNat heq.1
      rw [Utf16.toNat_ofNat_of_lt (by omega), Utf16.toNat_ofNat_of_lt (by omega)] at hlead
      omega
    . intro hlt
      rw [show c.toNat % 0x10000 = c.toNat - 0x10000 by omega,
        show c.toNat % 0x400 = (c.toNat - 0x10000) % 0x400 by omega]

end writeUtf16Codeunits

def jstringUnits (cs : List Char) : List UInt16 := cs.flatMap fun c => writeUtf16Codeunits c.toNat

@[simp]
theorem jstringUnits_nil : jstringUnits [] = [] := by
  rfl

@[simp]
theorem jstringUnits_cons (c : Char) (cs : List Char) :
    jstringUnits (c :: cs) = writeUtf16Codeunits c.toNat ++ jstringUnits cs := by
  rfl

@[simp]
theorem jstringUnits_append (cs ds : List Char) :
    jstringUnits (cs ++ ds) = jstringUnits cs ++ jstringUnits ds := by
  simp [jstringUnits]

theorem jstringUnits_length (cs : List Char) :
    (jstringUnits cs).length = (Utf16.encode cs).length := by
  induction cs with
  | nil => rw [jstringUnits_nil, Utf16.encode_nil]
  | cons c cs ih =>
    rw [jstringUnits_cons, Utf16.encode_cons, List.length_append, List.length_append]
    rw [writeUtf16Codeunits.length_eq, ih]

theorem jstringUnits_eq_encode_iff (cs : List Char) :
    jstringUnits cs = Utf16.encode cs ↔ ∀ c ∈ cs, c.toNat < 0x20000 := by
  induction cs with
  | nil => simp
  | cons c cs ih =>
    rw [jstringUnits_cons, Utf16.encode_cons]
    constructor
    . intro h
      have := List.append_inj h (writeUtf16Codeunits.length_eq c)
      rw [writeUtf16Codeunits.eq_encodeChar_iff, ih] at this
      simpa using this
    . intro h
      rw [List.forall_mem_cons, ← writeUtf16Codeunits.eq_encodeChar_iff, ← ih] at h
      rw [h.1, h.2]

end Ddwaf
