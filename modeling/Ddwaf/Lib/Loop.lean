import Mathlib.Tactic.Common

/-!
This module contains `while` loops over an explicit state. A loop body either asks for another turn,
leaves the loop with a value, or stops the whole program with an error.
-/

namespace Loop

inductive Outcome (σ : Type u) (α : Type v) where
  | next (s : σ)
  | done (a : α)

variable {σ : Type u} {α : Type v} {ε : Type w}

/--
Run `body` until it is done, for at most `fuel` turns. A loop that uses up its fuel stops with
`stuck`.
-/
def run (body : σ → Except ε (Outcome σ α)) (stuck : ε) : Nat → σ → Except ε α
  | 0, _ => .error stuck
  | fuel + 1, s =>
    match body s with
    | .error e => .error e
    | .ok (.done a) => .ok a
    | .ok (.next s) => run body stuck fuel s

variable {body : σ → Except ε (Outcome σ α)} {stuck : ε}

theorem run_next {fuel : Nat} {s s' : σ} (h : body s = .ok (.next s')) :
    run body stuck (fuel + 1) s = run body stuck fuel s' := by
  simp [run, h]

theorem run_done {fuel : Nat} {s : σ} {a : α} (h : body s = .ok (.done a)) :
    run body stuck (fuel + 1) s = .ok a := by
  simp [run, h]

theorem run_error {fuel : Nat} {s : σ} {e : ε} (h : body s = .error e) :
    run body stuck (fuel + 1) s = .error e := by
  simp [run, h]

/-- One turn keeps `I` and makes `μ` smaller, or it leaves the loop with what `Q` asks for. -/
inductive Turn (body : σ → Except ε (Outcome σ α)) (I : σ → Prop) (μ : σ → Nat)
    (Q : Except ε α → Prop) (s : σ) : Prop where
  | next (s' : σ) (hbody : body s = .ok (.next s')) (hinv : I s') (hlt : μ s' < μ s)
  | done (a : α) (hbody : body s = .ok (.done a)) (hpost : Q (.ok a))
  | error (e : ε) (hbody : body s = .error e) (hpost : Q (.error e))

/--
The rule for total correctness: with more fuel than the variant `μ` says, the loop ends, and what it
ends with satisfies `Q`.
-/
theorem run_of_turn {I : σ → Prop} {μ : σ → Nat} {Q : Except ε α → Prop}
    (hturn : ∀ s, I s → Turn body I μ Q s) (fuel : Nat) (s : σ) (hs : I s) (hfuel : μ s < fuel) :
    Q (run body stuck fuel s) := by
  induction fuel generalizing s with
  | zero => omega
  | succ fuel ih =>
    cases hturn s hs with
    | next s' hbody hinv hlt =>
      rw [run_next hbody]
      apply ih
      . exact hinv
      . omega
    | done a hbody hpost =>
      rw [run_done hbody]
      exact hpost
    | error e hbody hpost =>
      rw [run_error hbody]
      exact hpost

inductive Visits (body : σ → Except ε (Outcome σ α)) (s : σ) : σ → Prop where
  | refl : Visits body s s
  | next (h : Visits body s s') (hbody : body s' = .ok (.next s'')) : Visits body s s''

theorem Visits.inv {I : σ → Prop} {μ : σ → Nat} {Q : Except ε α → Prop}
    (hturn : ∀ s, I s → Turn body I μ Q s) {s s' : σ} (hs : I s) (h : Visits body s s') : I s' := by
  induction h with
  | refl => exact hs
  | @next s₁ s₂ _ hbody ih =>
    cases hturn s₁ ih with
    | next s₃ hnext hinv _ =>
      rw [hbody, Except.ok.injEq, Outcome.next.injEq] at hnext
      rw [hnext]
      exact hinv
    | done a hdone _ =>
      rw [hbody] at hdone
      cases hdone
    | error e herror _ =>
      rw [hbody] at herror
      contradiction

end Loop
