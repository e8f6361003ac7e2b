import Mathlib.Data.Nat.Digits.Defs
import Mathlib.Data.Nat.Log
import Mathlib.Tactic.Common

/-!
This module contains decimal scientific notation: a positive fraction as its first digits, which are
rounded to even, and an exponent.
-/

namespace Scientific

def exponent (num den : Nat) : Int :=
  if den ≤ num then
    Nat.log 10 (num / den)
  else
    -(Nat.clog 10 ((den + num - 1) / num) : Int)

def roundDiv (a b : Nat) : Nat :=
  if b < 2 * (a % b) ∨ 2 * (a % b) = b ∧ a / b % 2 = 1 then a / b + 1 else a / b

def scaled (num den : Nat) (k : Int) : Nat :=
  if 0 ≤ k then
    roundDiv (num * 10 ^ k.toNat) den
  else
    roundDiv num (den * 10 ^ (-k).toNat)

def digits (p num den : Nat) : Nat × Int :=
  let x := exponent num den
  let d := scaled num den (p - x)
  if d = 10 ^ (p + 1) then (10 ^ p, x + 1) else (d, x)

def text (n : Nat) : List UInt8 := (Nat.toDigits 10 n).map fun c => UInt8.ofNat c.toNat

def exponentText (x : Int) : List UInt8 :=
  let sign := if x < 0 then 0x2D else 0x2B
  let number := text x.natAbs
  sign :: (if number.length < 2 then 0x30 :: number else number)

def format (p num den : Nat) : List UInt8 :=
  let (d, x) := digits p num den
  (text d).take 1 ++ [0x2E] ++ (text d).drop 1 ++ [0x65] ++ exponentText x

end Scientific
