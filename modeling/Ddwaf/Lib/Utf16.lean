import Ddwaf.Lib.Utf8

/-!
This module contains UTF-16 and its decoding when surrogates may be unpaired. An unpaired surrogate
becomes one replacement character.
-/

namespace Utf16

def isLead (u : UInt16) : Bool := 0xD800 ≤ u && u ≤ 0xDBFF

def isTrail (u : UInt16) : Bool := 0xDC00 ≤ u && u ≤ 0xDFFF

def isSurrogate (u : UInt16) : Bool := isLead u || isTrail u

def encodeChar (c : Char) : List UInt16 :=
  if c.toNat < 0x10000 then
    [UInt16.ofNat c.toNat]
  else
    [UInt16.ofNat (0xD800 + (c.toNat - 0x10000) / 0x400),
      UInt16.ofNat (0xDC00 + (c.toNat - 0x10000) % 0x400)]

def encode (cs : List Char) : List UInt16 := cs.flatMap encodeChar

@[simp]
theorem encode_nil : encode [] = [] := by
  rfl

@[simp]
theorem encode_cons (c : Char) (cs : List Char) : encode (c :: cs) = encodeChar c ++ encode cs := by
  rfl

theorem length_encodeChar_pos (c : Char) : 0 < (encodeChar c).length := by
  unfold encodeChar
  split
  . exact Nat.one_pos
  . exact Nat.two_pos

theorem length_le_encode (cs : List Char) : cs.length ≤ (encode cs).length := by
  induction cs with
  | nil => simp
  | cons c cs ih =>
    have := length_encodeChar_pos c
    rw [encode_cons, List.length_append, List.length_cons]
    omega

def single (u : UInt16) : Char := if isSurrogate u then Utf8.repl else Char.ofNat u.toNat

def pair (u v : UInt16) : Char :=
  Char.ofNat (0x10000 + ((u.toNat - 0xD800) * 0x400 + (v.toNat - 0xDC00)))

def decode : List UInt16 → List Char
  | [] => []
  | [u] => [single u]
  | u :: v :: rest =>
    if isLead u && isTrail v then
      pair u v :: decode rest
    else
      single u :: decode (v :: rest)

def WellFormed : List UInt16 → Bool
  | [] => true
  | [u] => !isSurrogate u
  | u :: v :: rest =>
    if isLead u && isTrail v then
      WellFormed rest
    else
      !isSurrogate u && WellFormed (v :: rest)

theorem not_isLead_of_isTrail {u : UInt16} (h : isTrail u = true) : isLead u = false := by
  simp only [isTrail, Bool.and_eq_true, decide_eq_true_eq, UInt16.le_iff_toNat_le,
    UInt16.reduceToNat] at h
  simp only [isLead, Bool.and_eq_false_iff, decide_eq_false_iff_not, UInt16.le_iff_toNat_le,
    UInt16.reduceToNat]
  omega

theorem toNat_not_surrogate {u : UInt16} (h : isSurrogate u = false) : u.toNat.isValidChar := by
  simp only [isSurrogate, isLead, isTrail, Bool.or_eq_false_iff, Bool.and_eq_false_iff,
    decide_eq_false_iff_not, UInt16.le_iff_toNat_le, UInt16.reduceToNat] at h
  have := u.toNat_lt
  unfold Nat.isValidChar
  omega

theorem decode_cons_of_not_isLead {u : UInt16} (s : List UInt16) (h : isLead u = false) :
    decode (u :: s) = single u :: decode s := by
  cases s with
  | nil => rfl
  | cons v s => simp [decode, h]

theorem decode_append (p r : List UInt16)
    (h : ∀ u v, p.getLast? = some u → r.head? = some v → isLead u = false ∨ isTrail v = false) :
    decode (p ++ r) = decode p ++ decode r := by
  induction p using decode.induct with
  | case1 => rfl
  | case2 u =>
    cases r with
    | nil => rfl
    | cons v r =>
      have hpair : ¬(isLead u && isTrail v) = true := by
        rcases h u v rfl rfl with hu | hv
        . simp [hu]
        . simp [hv]
      show decode (u :: v :: r) = single u :: decode (v :: r)
      rw [decode, if_neg hpair]
  | case3 u v rest hpair ih =>
    rw [List.cons_append, List.cons_append, decode, decode, if_pos hpair, if_pos hpair, ih]
    . rfl
    . intro x y hx hy
      apply h x y _ hy
      rw [List.getLast?_cons, List.getLast?_cons, hx]
      rfl
  | case4 u v rest hpair ih =>
    rw [List.cons_append, List.cons_append, decode, decode, if_neg hpair, if_neg hpair,
      ← List.cons_append, ih]
    . rfl
    . intro x y hx hy
      apply h x y _ hy
      rw [List.getLast?_cons, hx]
      rfl

def IsUnpaired (p : List UInt16) (u : UInt16) (r : List UInt16) : Prop :=
  (isLead u = true ∧ ∀ v, r.head? = some v → isTrail v = false) ∨
    (isTrail u = true ∧ ∀ v, p.getLast? = some v → isLead v = false)

theorem decode_unpaired {p r : List UInt16} {u : UInt16} (h : IsUnpaired p u r) :
    decode (p ++ u :: r) = decode p ++ Utf8.repl :: decode r := by
  have hsurrogate : isSurrogate u = true := by
    rcases h with ⟨hu, -⟩ | ⟨hu, -⟩
    . simp [isSurrogate, hu]
    . simp [isSurrogate, hu]
  have hrest : decode ([u] ++ r) = decode [u] ++ decode r := by
    apply decode_append
    intro x v hx hv
    cases hx
    rcases h with ⟨-, hr⟩ | ⟨hu, -⟩
    . exact Or.inr (hr v hv)
    . exact Or.inl (not_isLead_of_isTrail hu)
  rw [decode_append, ← List.singleton_append, hrest]
  . rw [decode, single, if_pos hsurrogate]
    rfl
  . intro x v hx hv
    cases hv
    rcases h with ⟨hu, -⟩ | ⟨-, hp⟩
    . right
      cases ht : isTrail u with
      | false => rfl
      | true =>
        rw [not_isLead_of_isTrail ht] at hu
        contradiction
    . exact Or.inl (hp x hx)

theorem wellFormed_cons_of_not_isLead {u : UInt16} (s : List UInt16) (h : isLead u = false) :
    WellFormed (u :: s) = (!isSurrogate u && WellFormed s) := by
  cases s with
  | nil => simp [WellFormed]
  | cons v s => simp [WellFormed, h]

section Encode

theorem toNat_ofNat_of_lt {n : Nat} (h : n < 65536) : (UInt16.ofNat n).toNat = n := by
  simp [Nat.mod_eq_of_lt h]

theorem not_isSurrogate_ofNat {c : Char} (h : c.toNat < 0x10000) :
    isSurrogate (UInt16.ofNat c.toNat) = false := by
  have hvalid : c.toNat.isValidChar := c.valid
  simp only [isSurrogate, isLead, isTrail, Bool.or_eq_false_iff, Bool.and_eq_false_iff,
    decide_eq_false_iff_not, UInt16.le_iff_toNat_le, UInt16.reduceToNat, toNat_ofNat_of_lt h]
  unfold Nat.isValidChar at hvalid
  omega

theorem isLead_ofNat {n : Nat} (h : n < 0x400) : isLead (UInt16.ofNat (0xD800 + n)) = true := by
  have : (UInt16.ofNat (0xD800 + n)).toNat = 0xD800 + n := toNat_ofNat_of_lt (by omega)
  simp only [isLead, Bool.and_eq_true, decide_eq_true_eq, UInt16.le_iff_toNat_le,
    UInt16.reduceToNat, this]
  omega

theorem isTrail_ofNat {n : Nat} (h : n < 0x400) : isTrail (UInt16.ofNat (0xDC00 + n)) = true := by
  have : (UInt16.ofNat (0xDC00 + n)).toNat = 0xDC00 + n := toNat_ofNat_of_lt (by omega)
  simp only [isTrail, Bool.and_eq_true, decide_eq_true_eq, UInt16.le_iff_toNat_le,
    UInt16.reduceToNat, this]
  omega

theorem toNat_lt (c : Char) : c.toNat < 0x110000 := by
  have hvalid : c.toNat.isValidChar := c.valid
  unfold Nat.isValidChar at hvalid
  omega

theorem decode_encodeChar_append (c : Char) (s : List UInt16) :
    decode (encodeChar c ++ s) = c :: decode s := by
  unfold encodeChar
  split
  . next h =>
    have hs := not_isSurrogate_ofNat h
    have hlead : isLead (UInt16.ofNat c.toNat) = false := by
      simp only [isSurrogate, Bool.or_eq_false_iff] at hs
      exact hs.1
    rw [List.cons_append, List.nil_append, decode_cons_of_not_isLead s hlead]
    simp only [single, hs, toNat_ofNat_of_lt h]
    simp
  . next h =>
    have hc := toNat_lt c
    have hu : (c.toNat - 0x10000) / 0x400 < 0x400 := by omega
    have hv : (c.toNat - 0x10000) % 0x400 < 0x400 := by omega
    simp only [List.cons_append, List.nil_append, decode, isLead_ofNat hu, isTrail_ofNat hv,
      Bool.and_self, ↓reduceIte, List.cons.injEq, and_true]
    simp only [pair]
    rw [toNat_ofNat_of_lt (by omega), toNat_ofNat_of_lt (by omega)]
    rw [show 0x10000 + ((0xD800 + (c.toNat - 0x10000) / 0x400 - 0xD800) * 0x400 +
      (0xDC00 + (c.toNat - 0x10000) % 0x400 - 0xDC00)) = c.toNat by omega]
    simp

@[simp]
theorem decode_encode (cs : List Char) : decode (encode cs) = cs := by
  induction cs with
  | nil => rfl
  | cons c cs ih => rw [encode_cons, decode_encodeChar_append, ih]

theorem encodeChar_single {u : UInt16} (h : isSurrogate u = false) :
    encodeChar (single u) = [u] := by
  have := u.toNat_lt
  simp only [single, h, Bool.false_eq_true, ↓reduceIte]
  rw [encodeChar, Utf8.toNat_ofNat_of_isValidChar (toNat_not_surrogate h), if_pos (by omega)]
  simp

theorem toNat_pair {u v : UInt16} (hu : isLead u = true) (hv : isTrail v = true) :
    (pair u v).toNat = 0x10000 + ((u.toNat - 0xD800) * 0x400 + (v.toNat - 0xDC00)) := by
  simp only [isLead, isTrail, Bool.and_eq_true, decide_eq_true_eq, UInt16.le_iff_toNat_le,
    UInt16.reduceToNat] at hu hv
  apply Utf8.toNat_ofNat_of_isValidChar
  unfold Nat.isValidChar
  omega

theorem encodeChar_pair {u v : UInt16} (hu : isLead u = true) (hv : isTrail v = true) :
    encodeChar (pair u v) = [u, v] := by
  rw [encodeChar, toNat_pair hu hv]
  simp only [isLead, isTrail, Bool.and_eq_true, decide_eq_true_eq, UInt16.le_iff_toNat_le,
    UInt16.reduceToNat] at hu hv
  have hsub : 0x10000 + ((u.toNat - 0xD800) * 0x400 + (v.toNat - 0xDC00)) - 0x10000 =
      (u.toNat - 0xD800) * 0x400 + (v.toNat - 0xDC00) := by omega
  have hdiv : ((u.toNat - 0xD800) * 0x400 + (v.toNat - 0xDC00)) / 0x400 = u.toNat - 0xD800 := by
    omega
  have hmod : ((u.toNat - 0xD800) * 0x400 + (v.toNat - 0xDC00)) % 0x400 = v.toNat - 0xDC00 := by
    omega
  rw [if_neg (by omega), hsub, hdiv, hmod, Nat.add_sub_cancel' hu.1, Nat.add_sub_cancel' hv.1]
  simp

theorem encode_decode {s : List UInt16} (h : WellFormed s = true) : encode (decode s) = s := by
  induction s using decode.induct with
  | case1 => rfl
  | case2 u =>
    simp only [WellFormed, Bool.not_eq_true'] at h
    simp [decode, encodeChar_single h]
  | case3 u v rest hpair ih =>
    simp only [WellFormed, hpair, ↓reduceIte] at h
    simp only [Bool.and_eq_true] at hpair
    simp [decode, hpair, encodeChar_pair hpair.1 hpair.2, ih h]
  | case4 u v rest hpair ih =>
    simp only [WellFormed, hpair, Bool.false_eq_true, ↓reduceIte, Bool.and_eq_true,
      Bool.not_eq_true'] at h
    rw [decode, if_neg hpair, encode_cons, encodeChar_single h.1, ih h.2]
    rfl

theorem wellFormed_encodeChar_append (c : Char) (s : List UInt16) :
    WellFormed (encodeChar c ++ s) = WellFormed s := by
  unfold encodeChar
  split
  . next h =>
    have hs := not_isSurrogate_ofNat h
    have hlead : isLead (UInt16.ofNat c.toNat) = false := by
      simp only [isSurrogate, Bool.or_eq_false_iff] at hs
      exact hs.1
    rw [List.cons_append, List.nil_append, wellFormed_cons_of_not_isLead s hlead]
    simp [hs]
  . next h =>
    have hc := toNat_lt c
    have hu : (c.toNat - 0x10000) / 0x400 < 0x400 := by omega
    have hv : (c.toNat - 0x10000) % 0x400 < 0x400 := by omega
    simp only [List.cons_append, List.nil_append, WellFormed, isLead_ofNat hu, isTrail_ofNat hv,
      Bool.and_self, ↓reduceIte]

theorem wellFormed_encode (cs : List Char) : WellFormed (encode cs) = true := by
  induction cs with
  | nil => rfl
  | cons c cs ih => rw [encode_cons, wellFormed_encodeChar_append, ih]

end Encode

theorem utf8Size_single_le (u : UInt16) : (single u).utf8Size ≤ 3 := by
  have hle : (single u).toNat ≤ 0xFFFF := by
    have := u.toNat_lt
    unfold single
    split
    . rw [Utf8.toNat_repl]
      omega
    . have := Utf8.toNat_ofNat_le u.toNat
      omega
  have hval : (single u).val ≤ 0xFFFF := UInt32.le_iff_toNat_le.mpr hle
  unfold Char.utf8Size
  simp only
  split
  . omega
  . split
    . omega
    . split
      . omega
      . contradiction

theorem length_encode_decode_le (s : List UInt16) :
    (Utf8.encode (decode s)).length ≤ 3 * s.length := by
  fun_induction decode s with
  | case1 => simp
  | case2 u =>
    have := utf8Size_single_le u
    simpa [String.length_utf8EncodeChar] using this
  | case3 u v rest h ih =>
    have := (pair u v).utf8Size_le_four
    rw [Utf8.encode_cons, List.length_append, String.length_utf8EncodeChar, List.length_cons,
      List.length_cons]
    omega
  | case4 u v rest h ih =>
    have := utf8Size_single_le u
    rw [Utf8.encode_cons, List.length_append, String.length_utf8EncodeChar, List.length_cons]
    omega

end Utf16
