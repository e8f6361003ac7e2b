import Ddwaf.Lib.Base64
import Ddwaf.Lib.Transducer

/-!
This module contains base64 encoding as a function and as a transducer, which has written all that it
can of the bytes that it has read.
-/

namespace Base64

variable (enc : Nat → UInt8)

def encode : List UInt8 → List UInt8
  | a :: b :: c :: src => group₃ enc a b c ++ encode src
  | [a, b] => group₂ enc a b
  | [a] => group₁ enc a
  | [] => []

inductive Pending where
  | none
  | one (a : UInt8)
  | two (b : UInt8)

def encoder : Transducer Pending UInt8 UInt8 where
  init := .none
  step
    | .none, a => (.one a, [enc (a.toNat / 4)])
    | .one a, b => (.two b, [enc (a.toNat * 16 + b.toNat / 16)])
    | .two b, c => (.none, [enc (b.toNat * 4 + c.toNat / 64), enc c.toNat])
  final
    | .none => []
    | .one a => [enc (a.toNat * 16), pad, pad]
    | .two b => [enc (b.toNat * 4), pad]

theorem encoder_output (src : List UInt8) : (encoder enc).output src = encode enc src := by
  induction src using encode.induct with
  | case1 a b c src ih =>
    rw [encode, ← ih]
    rfl
  | case2 a b => rfl
  | case3 a => rfl
  | case4 => rfl

theorem encoder_run_three (a b c : UInt8) (src : List UInt8) :
    (encoder enc).run .none (a :: b :: c :: src) =
      (((encoder enc).run .none src).1, group₃ enc a b c ++ ((encoder enc).run .none src).2) := by
  rfl

theorem encoder_run_aligned {src : List UInt8} {k : Nat} (h : src.length = 3 * k) :
    ((encoder enc).run .none src).1 = .none ∧ ((encoder enc).run .none src).2.length = 4 * k := by
  induction k generalizing src with
  | zero =>
    rw [List.length_eq_zero_iff.mp h]
    exact ⟨rfl, rfl⟩
  | succ k ih =>
    rcases src with _ | ⟨a, _ | ⟨b, _ | ⟨c, src⟩⟩⟩
    . simp at h
    . simp at h
      omega
    . simp at h
      omega
    . simp only [List.length_cons] at h
      have hsrc : src.length = 3 * k := by omega
      have ⟨hnone, hlength⟩ := ih hsrc
      rw [encoder_run_three]
      refine ⟨hnone, ?_⟩
      simp only [List.length_append, hlength, group₃, List.length_cons, List.length_nil]
      omega

end Base64
