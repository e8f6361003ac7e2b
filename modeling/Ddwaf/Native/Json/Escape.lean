import Ddwaf.Native.Output.ConvertJson.RoundTrip

/-!
This module contains the text that `json_encode_str` writes for a string: it is as long as the string's
encoded size, it cannot end the string that it stands in, and nothing of the string is lost.
-/

namespace Ddwaf

inductive QuotesEscaped : List UInt8 → Prop where
  | nil : QuotesEscaped []
  | plain (b : UInt8) (hquote : b ≠ 0x22) (hbackslash : b ≠ 0x5C) (h : QuotesEscaped t) :
    QuotesEscaped (b :: t)
  | escape (b : UInt8) (h : QuotesEscaped t) : QuotesEscaped (0x5C :: b :: t)

theorem hexDigitUpper_ge (n : Nat) (h : n < 16) :
    0x20 ≤ hexDigitUpper n ∧ hexDigitUpper n ≠ 0x22 ∧ hexDigitUpper n ≠ 0x5C := by
  revert n
  decide

theorem isControl_iff (c : UInt8) : isControl c = true ↔ c < 0x20 := by
  simp only [isControl, Bool.and_eq_true, decide_eq_true_eq, UInt8.lt_iff_toNat_lt,
    UInt8.reduceToNat]
  omega

theorem QuotesEscaped.jsonEscape_append (c : UInt8) {t : List UInt8} (h : QuotesEscaped t) :
    QuotesEscaped (jsonEscape c ++ t) := by
  unfold jsonEscape
  split
  . exact .escape c h
  . next hc =>
    rw [not_or] at hc
    split
    . next hcontrol =>
      have hhigh := hexDigitUpper_ge (c.toNat / 16) (by have := c.toNat_lt; omega)
      have hlow := hexDigitUpper_ge (c.toNat % 16) (by omega)
      apply QuotesEscaped.escape
      apply QuotesEscaped.plain 0x30 (by decide) (by decide)
      apply QuotesEscaped.plain 0x30 (by decide) (by decide)
      apply QuotesEscaped.plain _ hhigh.2.1 hhigh.2.2
      exact .plain _ hlow.2.1 hlow.2.2 h
    . exact .plain c hc.2 hc.1 h

theorem quotesEscaped_jsonEncodeStrTo (s : List UInt8) : QuotesEscaped (jsonEncodeStrTo s) := by
  induction s with
  | nil => exact .nil
  | cons c s ih =>
    rw [jsonEncodeStrTo_cons]
    exact ih.jsonEscape_append c

theorem jsonEscape_ge (c : UInt8) : ∀ b ∈ jsonEscape c, 0x20 ≤ b := by
  intro b hb
  unfold jsonEscape at hb
  split at hb
  . next hc =>
    simp only [List.mem_cons, List.not_mem_nil, or_false] at hb
    cases hb with
    | inl hb =>
      rw [hb]
      decide
    | inr hb =>
      rw [hb]
      cases hc with
      | inl hc =>
        rw [hc]
        decide
      | inr hc =>
        rw [hc]
        decide
  . split at hb
    . next hcontrol =>
      have hhigh := hexDigitUpper_ge (c.toNat / 16) (by have := c.toNat_lt; omega)
      have hlow := hexDigitUpper_ge (c.toNat % 16) (by omega)
      simp only [List.mem_cons, List.not_mem_nil, or_false] at hb
      rcases hb with hb | hb | hb | hb | hb | hb
      . rw [hb]
        decide
      . rw [hb]
        decide
      . rw [hb]
        decide
      . rw [hb]
        decide
      . rw [hb]
        exact hhigh.1
      . rw [hb]
        exact hlow.1
    . next hcontrol =>
      rw [isControl_iff, UInt8.not_lt] at hcontrol
      rw [List.mem_singleton.mp hb]
      exact hcontrol

theorem jsonEncodeStrTo_ge (s : List UInt8) : ∀ b ∈ jsonEncodeStrTo s, 0x20 ≤ b := by
  intro b hb
  rw [jsonEncodeStrTo, List.mem_flatMap] at hb
  have ⟨c, _, hbc⟩ := hb
  exact jsonEscape_ge c b hbc

/--
A text between quotation marks that stands for `s`: the first quotation mark behind it that is not
escaped is the one that ends it.
-/
structure IsStringText (s text : List UInt8) : Prop where
  no_control : ∀ b ∈ text, 0x20 ≤ b
  quotes : QuotesEscaped text
  ends : ∀ r, Json.stringBody (text ++ 0x22 :: r) = some (text, r)
  unescape : Json.unescape text = some s

theorem isStringText_jsonEncodeStrTo (s : List UInt8) : IsStringText s (jsonEncodeStrTo s) := by
  constructor
  . exact jsonEncodeStrTo_ge s
  . exact quotesEscaped_jsonEncodeStrTo s
  . intro r
    exact Json.stringBody_of_unescape r (unescape_jsonEncodeStrTo s)
  . exact unescape_jsonEncodeStrTo s

theorem jsonEncodeStrTo_of_encodedSize {s : List UInt8}
    (hsize : jsonStrEncodedSize s = (jsonEncodeStrTo s).length)
    (hsame : jsonStrEncodedSize s = s.length) : jsonEncodeStrTo s = s := by
  apply jsonEncodeStrTo_eq_self
  rw [← hsize, hsame]

theorem jsonEncodeStr_appends (alloc : Alloc) {h : JsonHeap} (hl : h.IsLinked) {s : List UInt8}
    (hsize : (jsonEncodeStrTo s).length < 2 ^ 64) :
    ∃ seg h', jsonEncodeStr alloc (some h.last) s h = .ok (seg, h') ∧
      (seg ≠ none → seg = some h'.last ∧ h'.text = h.text ++ jsonEncodeStrTo s) := by
  generalize hr : jsonEncodeStr alloc (some h.last) s h = r
  have hwrites := jsonEncodeStr_spec alloc hl s
  rw [hr] at hwrites
  cases hwrites with
  | done h' _ _ htext =>
    refine ⟨some h'.last, h', rfl, ?_⟩
    intro _
    exact ⟨rfl, htext⟩
  | null h' _ _ => exact ⟨none, h', rfl, fun hne => absurd rfl hne⟩
  | stop e hlong =>
    rw [jsonEncodeStr_too_long alloc h.last h (Nat.lt_of_not_le hlong) hsize] at hr
    contradiction

theorem jsonEncodeStr_escapes {s : List UInt8} (hsize : (jsonEncodeStrTo s).length < 2 ^ 64) :
    IsStringText s (jsonEncodeStrTo s) ∧
    jsonStrEncodedSize s = (jsonEncodeStrTo s).length ∧
    (jsonStrEncodedSize s = s.length → jsonEncodeStrTo s = s) ∧
    ∀ alloc (h : JsonHeap), h.IsLinked →
      ∃ seg h', jsonEncodeStr alloc (some h.last) s h = .ok (seg, h') ∧
        (seg ≠ none → seg = some h'.last ∧ h'.text = h.text ++ jsonEncodeStrTo s) := by
  have hencoded : jsonStrEncodedSize s = (jsonEncodeStrTo s).length := by
    rw [jsonStrEncodedSize_eq, Nat.mod_eq_of_lt hsize]
  refine ⟨isStringText_jsonEncodeStrTo s, hencoded, ?_, ?_⟩
  . exact jsonEncodeStrTo_of_encodedSize hencoded
  . intro alloc h hl
    exact jsonEncodeStr_appends alloc hl hsize

theorem jsonEncodeStr_escapes_nul :
    IsStringText [0x00, 0x22] [0x5C, 0x75, 0x30, 0x30, 0x30, 0x30, 0x5C, 0x22] := by
  exact (jsonEncodeStr_escapes (s := [0x00, 0x22]) (by decide)).1

theorem jsonStrEncodedSize_wraps :
    ∃ s, s = List.replicate 3074457345618258603 1 ∧
      jsonStrEncodedSize s ≠ (jsonEncodeStrTo s).length := by
  refine ⟨_, rfl, ?_⟩
  intro hsize
  rw [jsonStrEncodedSize_eq, length_jsonEncodeStrTo_replicate] at hsize
  contradiction

end Ddwaf
