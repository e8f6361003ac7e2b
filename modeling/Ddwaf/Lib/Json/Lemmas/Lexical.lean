import Ddwaf.Lib.Json.Parser
import Mathlib.Data.List.TakeWhile

/-!
This module contains what the parts of a number and of a string look like, so that they can be told
from what stands behind them.
-/

namespace Json

def NumberPrefix (t r : List UInt8) : Prop :=
  ∃ p, t = p ++ r ∧ ∀ b ∈ p, isNumberByte b = true

theorem NumberPrefix.refl (t : List UInt8) : NumberPrefix t t :=
  ⟨[], by simp⟩

theorem NumberPrefix.cons {b : UInt8} {t r : List UInt8} (hb : isNumberByte b = true)
    (h : NumberPrefix t r) : NumberPrefix (b :: t) r := by
  obtain ⟨p, hp, hall⟩ := h
  refine ⟨b :: p, ?_, ?_⟩
  . rw [hp, List.cons_append]
  . simpa [hb] using hall

theorem NumberPrefix.trans {t u r : List UInt8} (h : NumberPrefix t u) (h' : NumberPrefix u r) :
    NumberPrefix t r := by
  obtain ⟨p, hp, hall⟩ := h
  obtain ⟨p', hp', hall'⟩ := h'
  refine ⟨p ++ p', ?_, ?_⟩
  . rw [hp, hp', List.append_assoc]
  . intro b hb
    rcases List.mem_append.mp hb with hb | hb
    . exact hall b hb
    . exact hall' b hb

theorem isNumberByte_of_isDigit {b : UInt8} (h : isDigit b = true) : isNumberByte b = true := by
  simp [isNumberByte, h]

theorem takeDigits_spec {t ds r : List UInt8} (h : takeDigits t = some (ds, r)) :
    NumberPrefix t r ∧ t ≠ r := by
  unfold takeDigits at h
  split at h
  . contradiction
  . next hne =>
    rw [Option.some.injEq, Prod.mk.injEq] at h
    have happ := List.takeWhile_append_dropWhile (p := isDigit) (l := t)
    rw [h.1, h.2] at happ
    constructor
    . refine ⟨ds, happ.symm, ?_⟩
      intro b hb
      rw [← h.1] at hb
      exact isNumberByte_of_isDigit (List.mem_takeWhile_imp hb)
    . intro heq
      rw [heq] at happ
      rw [h.1, List.append_left_eq_self.mp happ] at hne
      simp at hne

theorem takeInt_spec {t ds r : List UInt8} (h : takeInt t = some (ds, r)) :
    NumberPrefix t r ∧ t ≠ r := by
  simp only [takeInt, Option.bind_eq_bind, Option.bind_eq_some_iff] at h
  obtain ⟨⟨ds', r'⟩, htake, h⟩ := h
  split at h
  . contradiction
  . rw [Option.some.injEq, Prod.mk.injEq] at h
    rw [← h.2]
    exact takeDigits_spec htake

theorem takeMinus_spec (t : List UInt8) : NumberPrefix t (takeMinus t).2 := by
  cases t with
  | nil => exact NumberPrefix.refl []
  | cons b t =>
    rw [takeMinus]
    split
    . next hb => exact NumberPrefix.cons (by simp [isNumberByte, hb]) (NumberPrefix.refl t)
    . exact NumberPrefix.refl _

theorem takeSign_spec (t : List UInt8) : NumberPrefix t (takeSign t).2 := by
  cases t with
  | nil => exact NumberPrefix.refl []
  | cons b t =>
    rw [takeSign]
    split
    . next hb => exact NumberPrefix.cons (by simp [isNumberByte, hb]) (NumberPrefix.refl t)
    . split
      . next hb => exact NumberPrefix.cons (by simp [isNumberByte, hb]) (NumberPrefix.refl t)
      . exact NumberPrefix.refl _

theorem takeFrac_spec {t ds r : List UInt8} (h : takeFrac t = some (ds, r)) : NumberPrefix t r := by
  cases t with
  | nil =>
    rw [takeFrac, Option.some.injEq, Prod.mk.injEq] at h
    rw [← h.2]
    exact NumberPrefix.refl []
  | cons b t =>
    rw [takeFrac] at h
    split at h
    . next hb => exact NumberPrefix.cons (by simp [isNumberByte, hb]) (takeDigits_spec h).1
    . rw [Option.some.injEq, Prod.mk.injEq] at h
      rw [← h.2]
      exact NumberPrefix.refl _

theorem takeExp_spec {t r : List UInt8} {e : Int} (h : takeExp t = some (e, r)) :
    NumberPrefix t r := by
  cases t with
  | nil =>
    rw [takeExp, Option.some.injEq, Prod.mk.injEq] at h
    rw [← h.2]
    exact NumberPrefix.refl []
  | cons b t =>
    rw [takeExp] at h
    split at h
    . next hb =>
      simp only [Option.bind_eq_bind, Option.bind_eq_some_iff, Option.pure_def, Option.some.injEq,
        Prod.mk.injEq] at h
      obtain ⟨⟨ds, r'⟩, htake, -, rfl⟩ := h
      apply NumberPrefix.cons
      . rcases hb with hb | hb <;> simp [isNumberByte, hb]
      . exact (takeSign_spec t).trans (takeDigits_spec htake).1
    . rw [Option.some.injEq, Prod.mk.injEq] at h
      rw [← h.2]
      exact NumberPrefix.refl _

theorem numberValue_bytes {t : List UInt8} {q : ℚ} (h : numberValue t = some q) :
    t ≠ [] ∧ ∀ b ∈ t, isNumberByte b = true := by
  simp only [numberValue, Option.bind_eq_bind, Option.bind_eq_some_iff] at h
  obtain ⟨⟨int, t1⟩, hint, ⟨frac, t2⟩, hfrac, ⟨e, t3⟩, hexp, h⟩ := h
  split at h
  . next ht3 =>
    dsimp only at hint hfrac hexp ht3
    obtain ⟨p, hp, hall⟩ := ((takeMinus_spec t).trans (takeInt_spec hint).1).trans
      ((takeFrac_spec hfrac).trans (takeExp_spec hexp))
    rw [ht3, List.append_nil] at hp
    subst hp
    refine ⟨?_, hall⟩
    intro hnil
    rw [hnil] at hint
    simp [takeMinus, takeInt, takeDigits] at hint
  . contradiction

section StringBody

@[simp]
theorem stringBody_quote (r : List UInt8) : stringBody (0x22 :: r) = some ([], r) := by
  rw [stringBody.eq_def]
  rfl

theorem stringBody_cons {b : UInt8} (s : List UInt8) (h : b ≠ 0x22) (h' : b ≠ 0x5C) :
    stringBody (b :: s) = (stringBody s).map fun (t, r) => (b :: t, r) := by
  rw [stringBody.eq_def]
  simp only [h, h', ↓reduceIte]
  cases stringBody s <;> rfl

theorem stringBody_escape (e : UInt8) (s : List UInt8) :
    stringBody (0x5C :: e :: s) = (stringBody s).map fun (t, r) => (0x5C :: e :: t, r) := by
  have hne : ¬ (0x5C : UInt8) = 0x22 := by decide
  rw [stringBody.eq_def]
  simp only [hne, ↓reduceIte]
  cases stringBody s <;> rfl

theorem stringBody_append {s t r : List UInt8} (h : stringBody s = some (t, r)) :
    s = t ++ 0x22 :: r := by
  induction s using stringBody.induct generalizing t with
  | case1 => simp [stringBody] at h
  | case2 s =>
    rw [stringBody_quote, Option.some.injEq, Prod.mk.injEq] at h
    rw [← h.1, ← h.2, List.nil_append]
  | case3 hb => simp [stringBody] at h
  | case4 hb e s ih =>
    rw [stringBody_escape, Option.map_eq_some_iff] at h
    obtain ⟨⟨t', r'⟩, hbody, h⟩ := h
    rw [Prod.mk.injEq] at h
    rw [h.2] at hbody
    rw [← h.1, ih hbody]
    rfl
  | case5 b s hq hb ih =>
    rw [stringBody_cons s hq hb, Option.map_eq_some_iff] at h
    obtain ⟨⟨t', r'⟩, hbody, h⟩ := h
    rw [Prod.mk.injEq] at h
    rw [h.2] at hbody
    rw [← h.1, ih hbody]
    rfl

theorem hexDigit_ne {b : UInt8} (h : hexDigit b ≠ none) : b ≠ 0x22 ∧ b ≠ 0x5C := by
  constructor <;> (rintro rfl; apply h; decide)

theorem hex4_digits {a b c d : UInt8} {u : UInt16} (h : hex4 a b c d = some u) :
    hexDigit a ≠ none ∧ hexDigit b ≠ none ∧ hexDigit c ≠ none ∧ hexDigit d ≠ none := by
  simp only [hex4, Option.bind_eq_bind, Option.bind_eq_some_iff] at h
  obtain ⟨i, hi, j, hj, k, hk, l, hl, -⟩ := h
  simp [hi, hj, hk, hl]

theorem stringBody_unicode {a b c d : UInt8} {u : UInt16} (s : List UInt8)
    (h : hex4 a b c d = some u) :
    stringBody (0x5C :: 0x75 :: a :: b :: c :: d :: s) =
      (stringBody s).map fun (t, r) => (0x5C :: 0x75 :: a :: b :: c :: d :: t, r) := by
  obtain ⟨ha, hb, hc, hd⟩ := hex4_digits h
  rw [stringBody_escape, stringBody_cons _ (hexDigit_ne ha).1 (hexDigit_ne ha).2,
    stringBody_cons _ (hexDigit_ne hb).1 (hexDigit_ne hb).2,
    stringBody_cons _ (hexDigit_ne hc).1 (hexDigit_ne hc).2,
    stringBody_cons _ (hexDigit_ne hd).1 (hexDigit_ne hd).2]
  cases stringBody s <;> rfl

theorem stringBody_of_unescape {t s : List UInt8} (r : List UInt8) (h : unescape t = some s) :
    stringBody (t ++ 0x22 :: r) = some (t, r) := by
  induction t using unescape.induct generalizing s with
  | case1 => exact stringBody_quote r
  | case2 b t hb => simp [unescape.eq_def, hb] at h
  | case3 hb => simp [unescape.eq_def] at h
  | case4 a b c d t hb ihPair ih =>
    rw [unescape.eq_def] at h
    simp only [hb, ↓reduceIte, Option.bind_eq_bind, Option.bind_eq_some_iff] at h
    obtain ⟨u, hu, h⟩ := h
    have hbody := stringBody_unicode (t ++ 0x22 :: r) hu
    split at h
    . split at h
      . next x y a' b' c' d' t =>
        rw [Option.bind_eq_some_iff] at h
        obtain ⟨v, hv, h⟩ := h
        split at h
        . next hxy =>
          rw [Option.bind_eq_some_iff] at h
          obtain ⟨s', hs', -⟩ := h
          obtain ⟨rfl, rfl, -⟩ := hxy
          have hbody' := stringBody_unicode (t ++ 0x22 :: r) hv
          rw [ihPair hs'] at hbody'
          simp only [List.cons_append] at hbody hbody' ⊢
          rw [hbody, hbody']
          rfl
        . contradiction
      . contradiction
    . split at h
      . contradiction
      . rw [Option.bind_eq_some_iff] at h
        obtain ⟨s', hs', -⟩ := h
        rw [ih hs'] at hbody
        exact hbody
  | case5 t ht hb =>
    rw [unescape.eq_def] at h
    simp only [hb, ↓reduceIte] at h
    contradiction
  | case6 e t he hb ih =>
    rw [unescape.eq_def] at h
    simp only [hb, he, ↓reduceIte, Option.bind_eq_bind, Option.bind_eq_some_iff] at h
    obtain ⟨-, -, s', hs', -⟩ := h
    rw [List.cons_append, List.cons_append, stringBody_escape, ih hs']
    rfl
  | case7 b t hb hb' ih =>
    rw [unescape.eq_def] at h
    simp only [hb, hb', ↓reduceIte, Option.bind_eq_bind, Option.bind_eq_some_iff] at h
    obtain ⟨s', hs', -⟩ := h
    rw [not_or] at hb
    rw [List.cons_append, stringBody_cons _ hb.1 hb', ih hs']
    rfl

end StringBody

end Json
