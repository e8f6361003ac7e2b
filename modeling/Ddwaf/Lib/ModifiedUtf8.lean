import Mathlib.Tactic.Common

/-!
This module contains modified UTF-8, which encodes each UTF-16 unit on its own, and what is lost when
its bytes are cut off at the number of units.
-/

namespace ModifiedUtf8

def isSingle (u : UInt16) : Bool := 0x01 ≤ u && u ≤ 0x7F

def encodeUnit (u : UInt16) : List UInt8 :=
  if isSingle u then
    [UInt8.ofNat u.toNat]
  else if u ≤ 0x7FF then
    [UInt8.ofNat (0xC0 + u.toNat / 64), UInt8.ofNat (0x80 + u.toNat % 64)]
  else
    [UInt8.ofNat (0xE0 + u.toNat / 4096), UInt8.ofNat (0x80 + u.toNat / 64 % 64),
      UInt8.ofNat (0x80 + u.toNat % 64)]

def encode (s : List UInt16) : List UInt8 := s.flatMap encodeUnit

@[simp]
theorem encode_nil : encode [] = [] := by
  rfl

@[simp]
theorem encode_cons (u : UInt16) (s : List UInt16) : encode (u :: s) = encodeUnit u ++ encode s := by
  rfl

@[simp]
theorem encode_append (s t : List UInt16) : encode (s ++ t) = encode s ++ encode t := by
  simp [encode]

theorem isSingle_iff (u : UInt16) : isSingle u = true ↔ 1 ≤ u.toNat ∧ u.toNat ≤ 0x7F := by
  simp only [isSingle, Bool.and_eq_true, decide_eq_true_eq, UInt16.le_iff_toNat_le,
    UInt16.reduceToNat]

def lead (u : UInt16) : Nat :=
  if isSingle u then u.toNat else if u ≤ 0x7FF then 0xC0 + u.toNat / 64 else 0xE0 + u.toNat / 4096

theorem lead_eq (u : UInt16) :
    lead u =
      if 1 ≤ u.toNat ∧ u.toNat ≤ 0x7F then
        u.toNat
      else if u.toNat ≤ 0x7FF then
        0xC0 + u.toNat / 64
      else
        0xE0 + u.toNat / 4096 := by
  simp only [lead, isSingle_iff, UInt16.le_iff_toNat_le, UInt16.reduceToNat]

theorem lead_lt (u : UInt16) : lead u < 256 := by
  have := u.toNat_lt
  rw [lead_eq]
  split
  . omega
  . split <;> omega

theorem encodeUnit_eq_lead (u : UInt16) : ∃ r, encodeUnit u = UInt8.ofNat (lead u) :: r := by
  unfold encodeUnit lead
  split
  . exact ⟨[], rfl⟩
  . split
    . exact ⟨_, rfl⟩
    . exact ⟨_, rfl⟩

theorem encodeUnit_of_isSingle {u : UInt16} (h : isSingle u = true) :
    encodeUnit u = [UInt8.ofNat u.toNat] := by
  simp [encodeUnit, h]

theorem length_encodeUnit_pos (u : UInt16) : 1 ≤ (encodeUnit u).length := by
  obtain ⟨r, hr⟩ := encodeUnit_eq_lead u
  simp [hr]

theorem two_le_length_encodeUnit {u : UInt16} (h : isSingle u = false) :
    2 ≤ (encodeUnit u).length := by
  simp only [encodeUnit, h, Bool.false_eq_true, if_false]
  split <;> simp

theorem length_le_encode (s : List UInt16) : s.length ≤ (encode s).length := by
  induction s with
  | nil => simp
  | cons u s ih =>
    have := length_encodeUnit_pos u
    simp only [encode_cons, List.length_cons, List.length_append]
    omega

/-- The bytes that are left when the number of units is taken for the number of bytes. -/
def truncated (s : List UInt16) : List UInt8 := (encode s).take s.length

theorem length_truncated (s : List UInt16) : (truncated s).length = s.length := by
  have := length_le_encode s
  simp only [truncated, List.length_take]
  omega

/--
The strings that no other string is cut off to: NUL takes up two bytes, but no other unit has its
first byte.
-/
def Determined : List UInt16 → Bool
  | [] => true
  | [u] => u ≤ 0x7F
  | u :: v :: rest => isSingle u && Determined (v :: rest)

theorem eq_of_lead {u v : UInt16} (hu : u ≤ 0x7F) (h : lead v = lead u) : v = u := by
  have := v.toNat_lt
  apply UInt16.toNat_inj.mp
  simp only [UInt16.le_iff_toNat_le, UInt16.reduceToNat] at hu
  rw [lead_eq, lead_eq, if_pos (Nat.le_trans hu (by omega : 0x7F ≤ 0x7FF))] at h
  split at h
  . split at h <;> omega
  . split at h
    . split at h <;> omega
    . split at h <;> omega

theorem truncated_singleton (u : UInt16) : truncated [u] = [UInt8.ofNat (lead u)] := by
  obtain ⟨r, hr⟩ := encodeUnit_eq_lead u
  simp [truncated, hr]

theorem ofNat_inj_of_lt {m n : Nat} (hm : m < 256) (hn : n < 256)
    (h : UInt8.ofNat m = UInt8.ofNat n) : m = n := by
  have := congrArg UInt8.toNat h
  simpa [Nat.mod_eq_of_lt hm, Nat.mod_eq_of_lt hn] using this

theorem lead_eq_of_truncated {u v : UInt16} {s t : List UInt16}
    (h : truncated (v :: t) = truncated (u :: s)) : lead v = lead u := by
  obtain ⟨r, hr⟩ := encodeUnit_eq_lead u
  obtain ⟨r', hr'⟩ := encodeUnit_eq_lead v
  apply ofNat_inj_of_lt (lead_lt v) (lead_lt u)
  simp only [truncated, encode_cons, hr, hr', List.length_cons, List.cons_append,
    List.take_succ_cons, List.cons.injEq] at h
  exact h.1

theorem truncated_cons_of_isSingle {u : UInt16} (s : List UInt16) (h : isSingle u = true) :
    truncated (u :: s) = UInt8.ofNat u.toNat :: truncated s := by
  simp [truncated, encodeUnit_of_isSingle h]

theorem eq_of_truncated {s : List UInt16} (hs : Determined s = true) {t : List UInt16}
    (h : truncated t = truncated s) : t = s := by
  have hlen : t.length = s.length := by
    rw [← length_truncated, h, length_truncated]
  fun_induction Determined s generalizing t with
  | case1 => exact List.length_eq_zero_iff.mp hlen
  | case2 u =>
    obtain ⟨v, rfl⟩ := List.length_eq_one_iff.mp hlen
    rw [eq_of_lead (of_decide_eq_true hs) (lead_eq_of_truncated h)]
  | case3 u v rest ih =>
    cases t with
    | nil => simp at hlen
    | cons w t =>
      rw [Bool.and_eq_true] at hs
      have hu : u ≤ 0x7F := by
        have := (isSingle_iff u).mp hs.1
        simp only [UInt16.le_iff_toNat_le, UInt16.reduceToNat]
        exact this.2
      have hw : w = u := eq_of_lead hu (lead_eq_of_truncated h)
      rw [hw, truncated_cons_of_isSingle _ hs.1, truncated_cons_of_isSingle _ hs.1,
        List.cons.injEq] at h
      rw [hw, ih hs.2 h.2 (by simpa using hlen)]

def twin (u : UInt16) : UInt16 := UInt16.ofNat (u.toNat / 2 * 2 + (1 - u.toNat % 2))

theorem toNat_twin (u : UInt16) : (twin u).toNat = u.toNat / 2 * 2 + (1 - u.toNat % 2) := by
  have := u.toNat_lt
  unfold twin
  rw [UInt16.toNat_ofNat']
  omega

theorem twin_ne (u : UInt16) : twin u ≠ u := by
  intro h
  have := congrArg UInt16.toNat h
  rw [toNat_twin] at this
  omega

theorem lead_twin {u : UInt16} (h : ¬u ≤ 0x7F) : lead (twin u) = lead u := by
  have htwin := toNat_twin u
  simp only [UInt16.le_iff_toNat_le, UInt16.reduceToNat] at h
  have ht : ¬(1 ≤ (twin u).toNat ∧ (twin u).toNat ≤ 0x7F) := by omega
  have hu : ¬(1 ≤ u.toNat ∧ u.toNat ≤ 0x7F) := by omega
  rw [lead_eq, lead_eq, if_neg ht, if_neg hu]
  split
  . split <;> omega
  . split <;> omega

theorem truncated_concat {u : UInt16} (s : List UInt16) (v w : UInt16) (h : isSingle u = false) :
    truncated (u :: s ++ [v]) = truncated (u :: s ++ [w]) := by
  have hu := two_le_length_encodeUnit h
  have hs := length_le_encode s
  have hlen : ∀ x, (u :: s ++ [x]).length ≤ (encode (u :: s)).length := by
    intro x
    simp only [List.cons_append, List.length_cons, List.length_append, List.length_nil, encode_cons]
    omega
  unfold truncated
  rw [encode_append, encode_append, List.take_append_of_le_length (hlen v),
    List.take_append_of_le_length (hlen w)]
  simp

theorem exists_truncated_eq {s : List UInt16} (hs : Determined s = false) :
    ∃ t, t ≠ s ∧ truncated t = truncated s := by
  fun_induction Determined s with
  | case1 => contradiction
  | case2 u =>
    refine ⟨[twin u], ?_, ?_⟩
    . simpa using twin_ne u
    . rw [truncated_singleton, truncated_singleton, lead_twin (of_decide_eq_false hs)]
  | case3 u v rest ih =>
    by_cases hu : isSingle u = true
    . rw [hu, Bool.true_and] at hs
      obtain ⟨t, hne, ht⟩ := ih hs
      refine ⟨u :: t, ?_, ?_⟩
      . simpa using hne
      . rw [truncated_cons_of_isSingle _ hu, truncated_cons_of_isSingle _ hu, ht]
    . obtain ⟨m, x, hm⟩ : ∃ m x, v :: rest = m ++ [x] :=
        ⟨_, _, (List.dropLast_concat_getLast (List.cons_ne_nil v rest)).symm⟩
      refine ⟨u :: m ++ [twin x], ?_, ?_⟩
      . rw [hm]
        simpa using twin_ne x
      . rw [hm]
        exact truncated_concat m (twin x) x (Bool.eq_false_iff.mpr hu)

/--
Cutting the bytes off at the number of units keeps a string apart from every other one if it
consists of units of one byte, of which the last one may also be NUL.
-/
theorem truncated_inj_iff (s : List UInt16) :
    (∀ t, truncated t = truncated s → t = s) ↔ Determined s = true := by
  constructor
  . intro h
    by_contra hs
    obtain ⟨t, hne, ht⟩ := exists_truncated_eq (Bool.eq_false_iff.mpr hs)
    exact hne (h t ht)
  . intro hs t h
    exact eq_of_truncated hs h

end ModifiedUtf8
