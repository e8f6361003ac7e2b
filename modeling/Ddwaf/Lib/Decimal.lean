import Mathlib.Algebra.Group.Int.Defs
import Mathlib.Algebra.Group.Nat.Defs
import Mathlib.Data.List.TakeWhile
import Mathlib.Tactic.Common

/-!
This module contains decimal integers as text, where a text is the list of its code units: the integer
that a text is, and the one that a text starts with.
-/

namespace Decimal

def isSpace (c : Nat) : Bool := c = 0x20 || (0x09 ≤ c && c ≤ 0x0D)

def isDigit (c : Nat) : Bool := 0x30 ≤ c && c ≤ 0x39

def sign : List Nat → Bool × List Nat
  | 0x2D :: s => (true, s)
  | 0x2B :: s => (false, s)
  | s => (false, s)

def natValue (digits : List Nat) : Nat := digits.foldl (fun n c => n * 10 + (c - 0x30)) 0

def signed (negative : Bool) (n : Nat) : Int := if negative then -n else n

def value? (s : List Nat) : Option Int :=
  let (negative, digits) := sign s
  if digits ≠ [] ∧ digits.all isDigit then
    some (signed negative (natValue digits))
  else
    none

def leading (s : List Nat) : Int :=
  let (negative, number) := sign (s.dropWhile isSpace)
  signed negative (natValue (number.takeWhile isDigit))

theorem signed_zero (negative : Bool) : signed negative 0 = 0 := by
  cases negative
  . rfl
  . rfl

theorem isSpace_eq_false {c : Nat} (h : isDigit c = true ∨ c = 0x2D ∨ c = 0x2B) :
    isSpace c = false := by
  simp only [isDigit, Bool.and_eq_true, decide_eq_true_eq] at h
  simp only [isSpace, Bool.or_eq_false_iff, Bool.and_eq_false_iff, decide_eq_false_iff_not]
  omega

theorem sign_cons (c : Nat) (s : List Nat) :
    sign (c :: s) = if c = 0x2D then (true, s) else if c = 0x2B then (false, s) else (false, c :: s) := by
  split
  . next h => rw [h, sign]
  . next h =>
    split
    . next h' => rw [h', sign]
    . next h' =>
      rw [sign]
      . exact fun s' hs => h (List.cons.inj hs).1
      . exact fun s' hs => h' (List.cons.inj hs).1

theorem leading_of_value? {s : List Nat} {v : Int} (h : value? s = some v) : leading s = v := by
  simp only [value?] at h
  split at h
  . next hdigits =>
    have hall : (sign s).2.takeWhile isDigit = (sign s).2 := by
      exact List.takeWhile_eq_self_iff.mpr (List.all_eq_true.mp hdigits.2)
    have hspace : s.dropWhile isSpace = s := by
      cases s with
      | nil => rfl
      | cons c s =>
        rw [List.dropWhile_cons_of_neg]
        rw [isSpace_eq_false]
        . simp
        . rw [sign_cons] at hdigits
          by_cases hminus : c = 0x2D
          . exact Or.inr (Or.inl hminus)
          . by_cases hplus : c = 0x2B
            . exact Or.inr (Or.inr hplus)
            . rw [if_neg hminus, if_neg hplus] at hdigits
              left
              apply List.all_eq_true.mp hdigits.2
              exact List.mem_cons_self
    simp only [leading, hspace, hall]
    exact Option.some.inj h
  . contradiction

section Foreign

structure IsForeign (c : Nat) : Prop where
  isSpace : isSpace c = false
  isDigit : isDigit c = false
  ne_minus : c ≠ 0x2D
  ne_plus : c ≠ 0x2B

theorem isForeign_zero : IsForeign 0 := by
  constructor
  . rfl
  . rfl
  . simp
  . simp

theorem isForeign_of_ge {c : Nat} (h : 0x80 ≤ c) : IsForeign c := by
  constructor
  . simp only [isSpace, Bool.or_eq_false_iff, Bool.and_eq_false_iff, decide_eq_false_iff_not]
    omega
  . simp only [isDigit, Bool.and_eq_false_iff, decide_eq_false_iff_not]
    omega
  . omega
  . omega

def StartsForeign (s : List Nat) : Prop := ∀ c, s.head? = some c → IsForeign c

theorem startsForeign_nil : StartsForeign [] := by
  intro c hc
  contradiction

theorem startsForeign_cons {c : Nat} (s : List Nat) (h : IsForeign c) : StartsForeign (c :: s) := by
  intro d hd
  rw [← Option.some.inj hd]
  exact h

inductive SameStart : List Nat → List Nat → Prop where
  | cons (c : Nat) (h : SameStart s t) : SameStart (c :: s) (c :: t)
  | stop (hs : StartsForeign s) (ht : StartsForeign t) : SameStart s t

variable {s t : List Nat}

theorem StartsForeign.dropWhile_isSpace (hs : StartsForeign s) : s.dropWhile Decimal.isSpace = s := by
  cases s with
  | nil => rfl
  | cons c s => simp [(hs c rfl).isSpace]

theorem StartsForeign.takeWhile_isDigit (hs : StartsForeign s) : s.takeWhile Decimal.isDigit = [] := by
  cases s with
  | nil => rfl
  | cons c s => simp [(hs c rfl).isDigit]

theorem StartsForeign.sign (hs : StartsForeign s) : Decimal.sign s = (false, s) := by
  cases s with
  | nil => rfl
  | cons c s => rw [sign_cons, if_neg (hs c rfl).ne_minus, if_neg (hs c rfl).ne_plus]

theorem SameStart.dropWhile_isSpace (h : SameStart s t) :
    SameStart (s.dropWhile isSpace) (t.dropWhile isSpace) := by
  induction h with
  | cons c h ih =>
    rw [List.dropWhile_cons, List.dropWhile_cons]
    split
    . exact ih
    . exact .cons c h
  | stop hs ht =>
    rw [hs.dropWhile_isSpace, ht.dropWhile_isSpace]
    exact .stop hs ht

theorem SameStart.takeWhile_isDigit (h : SameStart s t) :
    s.takeWhile isDigit = t.takeWhile isDigit := by
  induction h with
  | cons c h ih => rw [List.takeWhile_cons, List.takeWhile_cons, ih]
  | stop hs ht => rw [hs.takeWhile_isDigit, ht.takeWhile_isDigit]

theorem SameStart.sign (h : SameStart s t) :
    (sign s).1 = (sign t).1 ∧ SameStart (sign s).2 (sign t).2 := by
  cases h with
  | @cons s t c h =>
    rw [sign_cons, sign_cons]
    split
    . exact ⟨rfl, h⟩
    . split
      . exact ⟨rfl, h⟩
      . exact ⟨rfl, .cons c h⟩
  | stop hs ht =>
    rw [hs.sign, ht.sign]
    exact ⟨rfl, .stop hs ht⟩

theorem SameStart.leading_eq (h : SameStart s t) : leading s = leading t := by
  have ⟨hsign, hnumber⟩ := h.dropWhile_isSpace.sign
  simp only [leading, hsign, hnumber.takeWhile_isDigit]

theorem leading_takeWhile_ne_zero (s : List Nat) : leading (s.takeWhile (· ≠ 0)) = leading s := by
  apply SameStart.leading_eq
  induction s with
  | nil => exact .stop startsForeign_nil startsForeign_nil
  | cons c s ih =>
    rw [List.takeWhile_cons]
    split
    . exact .cons c ih
    . next h =>
      have hzero : c = 0 := by simpa using h
      rw [hzero]
      exact .stop startsForeign_nil (startsForeign_cons s isForeign_zero)

end Foreign

end Decimal
