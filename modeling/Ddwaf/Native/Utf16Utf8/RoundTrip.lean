import Ddwaf.Native.Utf16Utf8.Lemmas.Checked

/-!
This module contains the round trip of a Java string through UTF-8.
-/

namespace Ddwaf

def leadBeyondPlane1 (u : UInt16) : Bool := 0xD840 ≤ u && u ≤ 0xDBFF

theorem toNat_single_lt (u : UInt16) : (Utf16.single u).toNat < 0x20000 := by
  have := u.toNat_lt
  unfold Utf16.single
  split
  . rw [Utf8.toNat_repl]
    omega
  . have := Utf8.toNat_ofNat_le u.toNat
    omega

theorem leadBeyondPlane1_eq_false {u : UInt16} (h : Utf16.isLead u = false) :
    leadBeyondPlane1 u = false := by
  simp only [Utf16.isLead, leadBeyondPlane1, Bool.and_eq_false_iff, decide_eq_false_iff_not,
    UInt16.le_iff_toNat_le, UInt16.reduceToNat] at h ⊢
  omega

theorem leadBeyondPlane1_pair {u v : UInt16} (hu : Utf16.isLead u = true)
    (hv : Utf16.isTrail v = true) :
    (Utf16.pair u v).toNat < 0x20000 ↔ leadBeyondPlane1 u = false := by
  rw [Utf16.toNat_pair hu hv]
  simp only [Utf16.isLead, Utf16.isTrail, Bool.and_eq_true, decide_eq_true_eq,
    UInt16.le_iff_toNat_le, UInt16.reduceToNat] at hu hv
  simp only [leadBeyondPlane1, Bool.and_eq_false_iff, decide_eq_false_iff_not,
    UInt16.le_iff_toNat_le, UInt16.reduceToNat]
  omega

theorem decode_lt_iff {s : List UInt16} (h : Utf16.WellFormed s = true) :
    (∀ c ∈ Utf16.decode s, c.toNat < 0x20000) ↔ ∀ u ∈ s, leadBeyondPlane1 u = false := by
  induction s using Utf16.decode.induct with
  | case1 => simp [Utf16.decode]
  | case2 u =>
    simp only [Utf16.WellFormed, Utf16.isSurrogate, Bool.not_or, Bool.and_eq_true,
      Bool.not_eq_true'] at h
    simp [Utf16.decode, toNat_single_lt, leadBeyondPlane1_eq_false h.1]
  | case3 u v rest hpair ih =>
    simp only [Utf16.WellFormed, hpair, ↓reduceIte] at h
    rw [Utf16.decode, if_pos hpair, List.forall_mem_cons, ih h]
    rw [Bool.and_eq_true] at hpair
    have hv : leadBeyondPlane1 v = false := by
      apply leadBeyondPlane1_eq_false
      exact Utf16.not_isLead_of_isTrail hpair.2
    simp [leadBeyondPlane1_pair hpair.1 hpair.2, hv]
  | case4 u v rest hpair ih =>
    simp only [Utf16.WellFormed, hpair, Bool.false_eq_true, ↓reduceIte, Utf16.isSurrogate,
      Bool.not_or, Bool.and_eq_true, Bool.not_eq_true'] at h
    rw [Utf16.decode, if_neg hpair, List.forall_mem_cons, ih h.2]
    simp [toNat_single_lt, leadBeyondPlane1_eq_false h.1.1]

theorem javaUtf8ToJstringChecked_encode {cs : List Char}
    (h : (Utf16.encode cs).length ≤ intMax) :
    javaUtf8ToJstringChecked .total (Utf8.encode cs) = .ok (jstringUnits cs) := by
  have hchars := Utf16.length_le_encode cs
  have hbytes := Utf8.length_encode_le cs
  have hunits := jstringUnits_decode_length_le (Utf8.encode cs)
  rw [Utf8.decode_encode] at hunits
  rw [javaUtf8ToJstringChecked_eq, mallocUtf16_total (by omega), ok_bind, Utf8.decode_encode]
  rw [newString_total hunits]
  rw [jstringUnits_length]
  exact h

def roundTrip (alloc : Alloc) (s : List UInt16) : Native (List UInt16) := do
  javaUtf8ToJstringChecked alloc (← javaUtf16ToUtf8Checked alloc s)

theorem roundTrip_eq {s : List UInt16} (h : s.length ≤ intMax)
    (hwf : Utf16.WellFormed s = true) :
    roundTrip .total s = .ok (jstringUnits (Utf16.decode s)) := by
  have htotal : ∀ n, Alloc.total n = true := fun _ => rfl
  rw [roundTrip, javaUtf16ToUtf8Checked_eq htotal h, ok_bind]
  apply javaUtf8ToJstringChecked_encode
  rw [Utf16.encode_decode hwf]
  exact h

/--
The encoder is right on every string, the decoder only up to plane 1.
-/
theorem roundTrip_eq_iff (s : List UInt16) (cs : List Char) :
    (s.length ≤ intMax → Utf16.WellFormed s = true →
      (roundTrip .total s = .ok s ↔ ∀ u ∈ s, leadBeyondPlane1 u = false)) ∧
    ((Utf16.encode cs).length ≤ intMax →
      (javaUtf8ToJstringChecked .total (Utf8.encode cs) = .ok (Utf16.encode cs)
        ↔
      ∀ c ∈ cs, c.toNat < 0x20000)) := by
  constructor
  . intro hlen hwf
    rw [roundTrip_eq hlen hwf, Except.ok.injEq, ← decode_lt_iff hwf, ← jstringUnits_eq_encode_iff]
    rw [Utf16.encode_decode hwf]
  . intro hlen
    rw [javaUtf8ToJstringChecked_encode hlen, Except.ok.injEq, jstringUnits_eq_encode_iff]

theorem roundTrip_emoji :
    roundTrip .total [0xD83D, 0xDE00] = .ok [0xD83D, 0xDE00] ∧
    javaUtf8ToJstringChecked .total (Utf8.encode [Char.ofNat 0x20000]) ≠
      .ok (Utf16.encode [Char.ofNat 0x20000]) := by
  constructor
  . rw [(roundTrip_eq_iff _ []).1]
    . simp [leadBeyondPlane1]
    . decide
    . decide
  . rw [Ne, (roundTrip_eq_iff [] _).2]
    . simp
    . decide

theorem roundTrip_plane2 :
    Utf16.WellFormed [0xD840, 0xDC00] = true ∧
    roundTrip .total [0xD840, 0xDC00] = .ok [0xD800, 0xDC00] ∧
    roundTrip .total [0xD840, 0xDC00] ≠ .ok [0xD840, 0xDC00] := by
  decide

end Ddwaf
