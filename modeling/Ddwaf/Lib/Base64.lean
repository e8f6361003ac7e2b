import Mathlib.Tactic.Common

/-!
This module contains the decoding of padded base64 text.
-/

namespace Base64

def pad : UInt8 := 0x3D

def sextet (c : UInt8) : Option Nat :=
  if 0x41 ≤ c ∧ c ≤ 0x5A then some (c.toNat - 0x41)
  else if 0x61 ≤ c ∧ c ≤ 0x7A then some (c.toNat - 0x61 + 26)
  else if 0x30 ≤ c ∧ c ≤ 0x39 then some (c.toNat - 0x30 + 52)
  else if c = 0x2B then some 62
  else if c = 0x2F then some 63
  else none

def byte (n : Nat) : UInt8 := UInt8.ofNat n

def decode : List UInt8 → Option (List UInt8)
  | [] => some []
  | a :: b :: c :: d :: rest =>
    if d = pad ∧ rest = [] then
      if c = pad then do
        let x ← sextet a
        let y ← sextet b
        return [byte (x * 4 + y / 16)]
      else do
        let x ← sextet a
        let y ← sextet b
        let z ← sextet c
        return [byte (x * 4 + y / 16), byte (y * 16 + z / 4)]
    else do
      let x ← sextet a
      let y ← sextet b
      let z ← sextet c
      let w ← sextet d
      let bytes ← decode rest
      return byte (x * 4 + y / 16) :: byte (y * 16 + z / 4) ::
        byte (z * 64 + w) :: bytes
  | _ => none

theorem byte_eq {n : Nat} {a : UInt8} (h : n % 256 = a.toNat) : byte n = a := by
  apply UInt8.toNat_inj.mp
  rw [byte, UInt8.toNat_ofNat']
  exact h

theorem sextet_pad : sextet pad = none := by decide

-- A group of three bytes, or of the one or two that are left.
section Groups

variable (enc : Nat → UInt8)

def group₁ (a : UInt8) : List UInt8 := [enc (a.toNat / 4), enc (a.toNat * 16), pad, pad]

def group₂ (a b : UInt8) : List UInt8 :=
  [enc (a.toNat / 4), enc (a.toNat * 16 + b.toNat / 16), enc (b.toNat * 4), pad]

def group₃ (a b c : UInt8) : List UInt8 :=
  [enc (a.toNat / 4), enc (a.toNat * 16 + b.toNat / 16), enc (b.toNat * 4 + c.toNat / 64),
    enc c.toNat]

end Groups

structure IsAlphabet (enc : Nat → UInt8) : Prop where
  sextet_eq : ∀ n, sextet (enc n) = some (n % 64)

namespace IsAlphabet

variable {enc : Nat → UInt8} (h : IsAlphabet enc)

include h

theorem ne_pad (n : Nat) : enc n ≠ pad := by
  intro heq
  have hsextet := h.sextet_eq n
  rw [heq, sextet_pad] at hsextet
  contradiction

theorem decode_group₁ (a : UInt8) : decode (group₁ enc a) = some [a] := by
  have hlt := a.toNat_lt
  have ha : byte (a.toNat / 4 % 64 * 4 + a.toNat * 16 % 64 / 16) = a := by
    apply byte_eq
    omega
  simp [group₁, decode, h.sextet_eq, ha]

theorem decode_group₂ (a b : UInt8) : decode (group₂ enc a b) = some [a, b] := by
  have hlta := a.toNat_lt
  have hltb := b.toNat_lt
  have ha : byte (a.toNat / 4 % 64 * 4 + (a.toNat * 16 + b.toNat / 16) % 64 / 16) = a := by
    apply byte_eq
    omega
  have hb : byte ((a.toNat * 16 + b.toNat / 16) % 64 * 16 + b.toNat * 4 % 64 / 4) = b := by
    apply byte_eq
    omega
  simp [group₂, decode, h.sextet_eq, h.ne_pad, ha, hb]

theorem decode_group₃ (a b c : UInt8) {rest bytes : List UInt8} (hrest : decode rest = some bytes) :
    decode (group₃ enc a b c ++ rest) = some (a :: b :: c :: bytes) := by
  have hlta := a.toNat_lt
  have hltb := b.toNat_lt
  have hltc := c.toNat_lt
  have ha : byte (a.toNat / 4 % 64 * 4 + (a.toNat * 16 + b.toNat / 16) % 64 / 16) = a := by
    apply byte_eq
    omega
  have hb : byte ((a.toNat * 16 + b.toNat / 16) % 64 * 16 +
      (b.toNat * 4 + c.toNat / 64) % 64 / 4) = b := by
    apply byte_eq
    omega
  have hc : byte ((b.toNat * 4 + c.toNat / 64) % 64 * 64 + c.toNat % 64) = c := by
    apply byte_eq
    omega
  simp [group₃, decode, h.sextet_eq, h.ne_pad, hrest, ha, hb, hc]

end IsAlphabet

end Base64
