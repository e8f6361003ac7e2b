import Ddwaf.Lib.Decimal
import Ddwaf.Native.Utf16Utf8.Lemmas.Checked
import Ddwaf.WafContext.Impl

/-!
This module contains the run timeout that is read when the library is loaded: which values of the
system property become the timeout, and which ones leave the default in place.
-/

namespace Ddwaf

section Strtoll

open Decimal (leading)

def byteValues (s : List UInt8) : List Nat := s.map UInt8.toNat

def unitValues (s : List UInt16) : List Nat := s.map UInt16.toNat

theorem isSpace_eq (c : UInt8) : isSpace c = Decimal.isSpace c.toNat := by
  rw [Bool.eq_iff_iff]
  simp [isSpace, Decimal.isSpace, UInt8.le_iff_toNat_le, ← UInt8.toNat_inj]

theorem isDecimalDigit_eq (c : UInt8) : isDecimalDigit c = Decimal.isDigit c.toNat := by
  rw [Bool.eq_iff_iff]
  simp [isDecimalDigit, Decimal.isDigit, UInt8.le_iff_toNat_le]

theorem byteValues_dropWhile (s : List UInt8) :
    byteValues (s.dropWhile isSpace) = (byteValues s).dropWhile Decimal.isSpace := by
  have hspace : Decimal.isSpace ∘ UInt8.toNat = isSpace := by
    funext c
    rw [Function.comp_apply, isSpace_eq]
  rw [byteValues, byteValues, List.dropWhile_map, hspace]

theorem byteValues_takeWhile (s : List UInt8) :
    byteValues (s.takeWhile isDecimalDigit) = (byteValues s).takeWhile Decimal.isDigit := by
  have hdigit : Decimal.isDigit ∘ UInt8.toNat = isDecimalDigit := by
    funext c
    rw [Function.comp_apply, isDecimalDigit_eq]
  rw [byteValues, byteValues, List.takeWhile_map, hdigit]

theorem strtollSign_cons (c : UInt8) (s : List UInt8) :
    strtollSign (c :: s) =
      if c = 0x2D then (true, s) else if c = 0x2B then (false, s) else (false, c :: s) := by
  split
  . next h => rw [h, strtollSign]
  . next h =>
    split
    . next h' => rw [h', strtollSign]
    . next h' =>
      rw [strtollSign]
      . exact fun s' hs => h (List.cons.inj hs).1
      . exact fun s' hs => h' (List.cons.inj hs).1

theorem sign_byteValues (s : List UInt8) :
    Decimal.sign (byteValues s) = ((strtollSign s).1, byteValues (strtollSign s).2) := by
  cases s with
  | nil => rfl
  | cons c s =>
    have hminus : c.toNat = 0x2D ↔ c = 0x2D := by rw [← UInt8.toNat_inj]; rfl
    have hplus : c.toNat = 0x2B ↔ c = 0x2B := by rw [← UInt8.toNat_inj]; rfl
    rw [byteValues, List.map_cons, Decimal.sign_cons, strtollSign_cons]
    simp only [hminus, hplus]
    split
    . rfl
    . split
      . rfl
      . rfl

theorem strtoll_fst (str : List UInt8) :
    (strtoll str).1 = Int64.ofIntClamp (leading (byteValues str)) := by
  have hfold (digits : List UInt8) :
      Decimal.natValue (byteValues digits) =
        digits.foldl (fun (val : Nat) c => val * 10 + (c.toNat - 0x30)) 0 := by
    rw [Decimal.natValue, byteValues, List.foldl_map]
  simp only [strtoll, leading]
  rw [← byteValues_dropWhile, sign_byteValues, ← byteValues_takeWhile, hfold]
  split
  . next h =>
    rw [h, List.foldl_nil, Decimal.signed_zero]
    rfl
  . rfl

theorem strtoll_terminated (str : List UInt8) :
    (strtoll (str.takeWhile (· ≠ 0))).1 = Int64.ofIntClamp (leading (byteValues str)) := by
  have hzero : byteValues (str.takeWhile (· ≠ 0)) = (byteValues str).takeWhile (· ≠ 0) := by
    rw [byteValues, byteValues, List.takeWhile_map]
    congr 2
    funext c
    simp [← UInt8.toNat_inj]
  rw [strtoll_fst, hzero, Decimal.leading_takeWhile_ne_zero]

end Strtoll

section Encode

open Decimal (SameStart)

theorem utf8EncodeChar_of_lt {c : Char} (h : c.toNat < 0x80) :
    String.utf8EncodeChar c = [UInt8.ofNat c.toNat] := by
  have hval : c.val.toNat = c.toNat := rfl
  rw [String.utf8EncodeChar]
  simp only [hval]
  rw [if_pos (by omega)]

theorem utf8EncodeChar_of_ge {c : Char} (h : 0x80 ≤ c.toNat) :
    ∀ b, (String.utf8EncodeChar c).head? = some b → 0x80 ≤ b.toNat := by
  have hval : c.val.toNat = c.toNat := rfl
  intro b hb
  rw [String.utf8EncodeChar] at hb
  simp only [hval] at hb
  rw [if_neg (by omega)] at hb
  split at hb
  . rw [← Option.some.inj hb, Utf8.toNat_ofNat_of_lt (by omega)]
    omega
  . split at hb
    . rw [← Option.some.inj hb, Utf8.toNat_ofNat_of_lt (by omega)]
      omega
    . rw [← Option.some.inj hb, Utf8.toNat_ofNat_of_lt (by omega)]
      omega

theorem toNat_single_of_lt {u : UInt16} (h : u.toNat < 0x80) : (Utf16.single u).toNat = u.toNat := by
  have hsurrogate : Utf16.isSurrogate u = false := by
    simp only [Utf16.isSurrogate, Utf16.isLead, Utf16.isTrail, Bool.or_eq_false_iff,
      Bool.and_eq_false_iff, decide_eq_false_iff_not, UInt16.le_iff_toNat_le, UInt16.reduceToNat]
    omega
  rw [Utf16.single, hsurrogate]
  exact Utf8.toNat_ofNat_of_isValidChar (Utf16.toNat_not_surrogate hsurrogate)

theorem toNat_single_of_ge {u : UInt16} (h : 0x80 ≤ u.toNat) : 0x80 ≤ (Utf16.single u).toNat := by
  unfold Utf16.single
  split
  . rw [Utf8.toNat_repl]
    omega
  . next hsurrogate =>
    rw [Bool.not_eq_true] at hsurrogate
    rw [Utf8.toNat_ofNat_of_isValidChar (Utf16.toNat_not_surrogate hsurrogate)]
    exact h

theorem head?_decode_of_ge {u : UInt16} (s : List UInt16) (h : 0x80 ≤ u.toNat) :
    ∃ c cs, Utf16.decode (u :: s) = c :: cs ∧ 0x80 ≤ c.toNat := by
  cases s with
  | nil => exact ⟨_, _, rfl, toNat_single_of_ge h⟩
  | cons v s =>
    rw [Utf16.decode]
    split
    . next hpair =>
      rw [Bool.and_eq_true] at hpair
      refine ⟨_, _, rfl, ?_⟩
      rw [Utf16.toNat_pair hpair.1 hpair.2]
      omega
    . exact ⟨_, _, rfl, toNat_single_of_ge h⟩

theorem not_isLead_of_lt {u : UInt16} (h : u.toNat < 0x80) : Utf16.isLead u = false := by
  simp only [Utf16.isLead, Bool.and_eq_false_iff, decide_eq_false_iff_not, UInt16.le_iff_toNat_le,
    UInt16.reduceToNat]
  omega

theorem sameStart_encode_decode (s : List UInt16) :
    SameStart (byteValues (Utf8.encode (Utf16.decode s))) (unitValues s) := by
  induction s with
  | nil => exact .stop Decimal.startsForeign_nil Decimal.startsForeign_nil
  | cons u s ih =>
    by_cases hlt : u.toNat < 0x80
    . have hsingle := toNat_single_of_lt hlt
      rw [Utf16.decode_cons_of_not_isLead s (not_isLead_of_lt hlt), Utf8.encode_cons,
        utf8EncodeChar_of_lt (by omega), hsingle]
      have hbyte : (UInt8.ofNat u.toNat).toNat = u.toNat := Utf8.toNat_ofNat_of_lt (by omega)
      simp only [byteValues, unitValues, List.cons_append, List.nil_append, List.map_cons, hbyte]
      exact .cons u.toNat ih
    . have ⟨c, cs, hdecode, hc⟩ := head?_decode_of_ge s (Nat.le_of_not_lt hlt)
      apply SameStart.stop
      . intro b hb
        apply Decimal.isForeign_of_ge
        rw [hdecode, Utf8.encode_cons, byteValues, List.map_append] at hb
        cases hseq : String.utf8EncodeChar c with
        | nil => exact absurd hseq (String.utf8EncodeChar_ne_nil)
        | cons a bs =>
          rw [hseq] at hb
          rw [← Option.some.inj hb]
          apply utf8EncodeChar_of_ge hc a
          rw [hseq]
          rfl
      . exact Decimal.startsForeign_cons _ (Decimal.isForeign_of_ge (Nat.le_of_not_lt hlt))

end Encode

/--
How the calls that read the property end: a method or a string that could not be made, an exception,
`null`, or a string, whose units may be unavailable.
-/
structure PropertyCalls where
  javaMethInit : Bool
  envKey : Bool
  getProperty : Except Throwable (Option JString)
  getStringLength : Bool
  getStringChars : Bool
  alloc : Alloc

namespace PropertyCalls

variable (calls : PropertyCalls)

def javaToUtf8Checked (str : JString) : Native (List UInt8) :=
  if !calls.getStringLength then
    throwRte "Error getting the length of putative string"
  else if !calls.getStringChars then
    throwRte "Error calling GetStringChars"
  else
    javaUtf16ToUtf8Checked calls.alloc str.units

/--
The result `val` is overwritten before it is known whether the string is a number, and a string that
is not one is only logged.
-/
def getPwRunTimeoutChecked (ddwafRunTimeout : Int64) : Int64 :=
  let val := ddwafRunTimeout
  if !calls.javaMethInit then
    val
  else if !calls.envKey then
    val
  else
    match calls.getProperty with
    | .error _ => val
    | .ok none => val
    | .ok (some valJstr) =>
      match calls.javaToUtf8Checked valJstr with
      | .error _ => val
      | .ok valCstr =>
        let (val, fin) := strtoll (valCstr.takeWhile (· ≠ 0))
        if fin ≠ [] then
          val
        else
          val

def property : Option JString :=
  if calls.javaMethInit && calls.envKey then
    match calls.getProperty with
    | .ok (some valJstr) => if (calls.javaToUtf8Checked valJstr).isOk then some valJstr else none
    | _ => none
  else
    none

variable {calls}

theorem javaToUtf8Checked_ok {str : JString} {valCstr : List UInt8}
    (h : calls.javaToUtf8Checked str = .ok valCstr) :
    valCstr = Utf8.encode (Utf16.decode str.units) := by
  unfold javaToUtf8Checked at h
  split at h
  . contradiction
  . split at h
    . contradiction
    . rcases javaUtf16ToUtf8Checked_spec calls.alloc str.length_le with hok | ⟨herror, _⟩
      . rw [hok] at h
        exact (Except.ok.inj h).symm
      . rw [herror] at h
        contradiction

theorem getPwRunTimeoutChecked_of_some {str : JString} (ddwafRunTimeout : Int64)
    (h : calls.property = some str) :
    calls.getPwRunTimeoutChecked ddwafRunTimeout =
      Int64.ofIntClamp (Decimal.leading (unitValues str.units)) := by
  unfold property at h
  split at h
  . next hcalls =>
    rw [Bool.and_eq_true] at hcalls
    split at h
    . next valJstr hget =>
      split at h
      . next hisOk =>
        cases h
        have ⟨valCstr, hvalCstr⟩ := exists_ok_of_isOk hisOk
        simp only [getPwRunTimeoutChecked, hcalls, hget, hvalCstr, ite_self]
        simp only [Bool.not_true, Bool.false_eq_true, ↓reduceIte]
        rw [strtoll_terminated, javaToUtf8Checked_ok hvalCstr,
          (sameStart_encode_decode str.units).leading_eq]
      . contradiction
    . contradiction
  . contradiction

theorem getPwRunTimeoutChecked_of_none (ddwafRunTimeout : Int64) (h : calls.property = none) :
    calls.getPwRunTimeoutChecked ddwafRunTimeout = ddwafRunTimeout := by
  unfold getPwRunTimeoutChecked
  dsimp only
  split
  . rfl
  . next hinit =>
    split
    . rfl
    . next hkey =>
      rw [Bool.not_eq_true, Bool.not_eq_false'] at hinit hkey
      split
      . rfl
      . rfl
      . next valJstr hget =>
        split
        . rfl
        . next valCstr hvalCstr =>
    simp [property, hinit, hkey, hget, hvalCstr, Except.isOk, Except.toBool] at h

end PropertyCalls

theorem getPwRunTimeoutChecked_eq (ddwafRunTimeout : Int64) (property : Option JString) :
    getPwRunTimeoutChecked ddwafRunTimeout (property.map JString.units)
      =
    .ok (PropertyCalls.getPwRunTimeoutChecked ⟨true, true, .ok property, true, true, .total⟩
      ddwafRunTimeout) := by
  cases property with
  | none => rfl
  | some str =>
    have hutf8 : javaUtf16ToUtf8Checked .total str.units =
        .ok (Utf8.encode (Utf16.decode str.units)) :=
      javaUtf16ToUtf8Checked_eq (fun _ => rfl) str.length_le
    simp [getPwRunTimeoutChecked, PropertyCalls.getPwRunTimeoutChecked,
      PropertyCalls.javaToUtf8Checked, hutf8]

def DenotesInt64 (str : JString) (val : Int64) : Prop :=
  Decimal.value? (unitValues str.units) = some val.toInt

/--
The timeout is the integer that the property is, or the default when there is no property that is an
integer of 64 bits.
-/
structure IsRunTimeout (ddwafRunTimeout : Int64) (property : Option JString) (val : Int64) : Prop where
  denoted : ∀ str v, property = some str → DenotesInt64 str v → val = v
  default : (∀ str v, property = some str → ¬DenotesInt64 str v) → val = ddwafRunTimeout

theorem ofIntClamp_of_denotes {str : JString} {v : Int64} (h : DenotesInt64 str v) :
    Int64.ofIntClamp (Decimal.leading (unitValues str.units)) = v := by
  rw [Decimal.leading_of_value? h, ← Int64.toInt_inj]
  apply Int64.toInt_ofIntClamp
  . exact v.minValue_le_toInt
  . exact v.toInt_le

theorem PropertyCalls.getPwRunTimeoutChecked_iff (calls : PropertyCalls) (ddwafRunTimeout : Int64) :
    IsRunTimeout ddwafRunTimeout calls.property (calls.getPwRunTimeoutChecked ddwafRunTimeout)
      ↔
    ∀ str, calls.property = some str →
      (∃ v, DenotesInt64 str v) ∨
        Int64.ofIntClamp (Decimal.leading (unitValues str.units)) = ddwafRunTimeout := by
  cases hproperty : calls.property with
  | none =>
    rw [getPwRunTimeoutChecked_of_none ddwafRunTimeout hproperty]
    constructor
    . intro _ str hstr
      contradiction
    . intro _
      constructor
      . intro str v hstr
        contradiction
      . intro _
        rfl
  | some str =>
    rw [getPwRunTimeoutChecked_of_some ddwafRunTimeout hproperty]
    constructor
    . intro h str' hstr
      cases hstr
      by_cases hdenotes : ∃ v, DenotesInt64 str v
      . exact Or.inl hdenotes
      . right
        apply h.default
        intro str' v hstr hv
        cases hstr
        exact hdenotes ⟨v, hv⟩
    . intro h
      constructor
      . intro str' v hstr hv
        cases hstr
        exact ofIntClamp_of_denotes hv
      . intro hnone
        rcases h str rfl with ⟨v, hv⟩ | hdefault
        . exact absurd hv (hnone str v rfl)
        . exact hdefault

def PropertyCalls.empty : PropertyCalls := ⟨true, true, .ok (some ⟨[], by decide⟩), true, true, .total⟩

theorem PropertyCalls.getPwRunTimeoutChecked_empty :
    empty.getPwRunTimeoutChecked 5000 = 0 ∧
    ¬IsRunTimeout 5000 empty.property (empty.getPwRunTimeoutChecked 5000) := by
  refine ⟨by decide, ?_⟩
  intro hempty
  have hzero : (0 : Int64) = 5000 := by
    apply hempty.default
    intro str v hstr hv
    cases hstr
    cases hv
  revert hzero
  decide

end Ddwaf
