import Mathlib.Logic.Basic

/-!
This module contains labelled transition systems, the states that their runs reach, and the two
rules with which something is shown about every run: invariants and simulations.
-/

structure System (State : Type u) (Label : Type v) where
  init : State → Prop
  step : State → Label → State → Prop

namespace System

variable {State : Type u} {Label : Type v} {Abs : Type w}

/--
The runs are built from the front: `Reaches ls s` is a run with the labels `ls` that ends in `s`.
-/
inductive Reaches (M : System State Label) : List Label → State → Prop where
  | init (h : M.init s) : Reaches M [] s
  | step (hrun : Reaches M ls s) (hstep : M.step s l t) : Reaches M (ls ++ [l]) t

theorem reaches_nil_iff {M : System State Label} : M.Reaches [] s ↔ M.init s := by
  constructor
  . intro h
    generalize hls : ([] : List Label) = ls at h
    cases h with
    | init h => exact h
    | step _ _ => simp at hls
  . exact .init

theorem reaches_concat_iff {M : System State Label} :
    M.Reaches (ls ++ [l]) t ↔ ∃ s, M.Reaches ls s ∧ M.step s l t := by
  constructor
  . intro h
    generalize hls : ls ++ [l] = ms at h
    cases h with
    | init h => simp at hls
    | step hrun hstep =>
      have heq := List.append_inj' hls rfl
      rw [List.singleton_inj] at heq
      rw [heq.1, heq.2]
      exact ⟨_, hrun, hstep⟩
  . rintro ⟨s, hrun, hstep⟩
    exact .step hrun hstep

def restrict (M : System State Label) (G : State → Label → State → Prop) : System State Label where
  init := M.init
  step s l t := M.step s l t ∧ G s l t

structure Invariant (M : System State Label) (Inv : State → Prop) : Prop where
  init : ∀ {s}, M.init s → Inv s
  step : ∀ {s l t}, Inv s → M.step s l t → Inv t

theorem Invariant.reaches {M : System State Label} {Inv : State → Prop} (h : M.Invariant Inv)
    (hrun : M.Reaches ls s) : Inv s := by
  induction hrun with
  | init hs => exact h.init hs
  | step _ hstep ih => exact h.step ih hstep

structure Simulation (M : System State Label) (A : System Abs Label) (R : State → Abs → Prop) :
    Prop where
  init : ∀ {s}, M.init s → ∃ a, A.init a ∧ R s a
  step : ∀ {s l t a}, R s a → M.step s l t → ∃ b, A.step a l b ∧ R t b

theorem Simulation.reaches {M : System State Label} {A : System Abs Label}
    {R : State → Abs → Prop} (h : M.Simulation A R) (hrun : M.Reaches ls s) :
    ∃ a, A.Reaches ls a ∧ R s a := by
  induction hrun with
  | init hs =>
    obtain ⟨a, ha, hr⟩ := h.init hs
    exact ⟨a, .init ha, hr⟩
  | step _ hstep ih =>
    obtain ⟨a, ha, hr⟩ := ih
    obtain ⟨b, hb, hr'⟩ := h.step hr hstep
    exact ⟨b, .step ha hb, hr'⟩

section Restrict

variable {M : System State Label} {G H : State → Label → State → Prop}

theorem Reaches.of_restrict (hrun : (M.restrict G).Reaches ls s) : M.Reaches ls s := by
  induction hrun with
  | init hs => exact .init hs
  | step _ hstep ih => exact .step ih hstep.1

theorem Reaches.restrict_congr
    (h : ∀ {ls s l t}, M.Reaches ls s → M.step s l t → (G s l t ↔ H s l t)) :
    (M.restrict G).Reaches ls s ↔ (M.restrict H).Reaches ls s := by
  constructor
  . intro hrun
    induction hrun with
    | init hs => exact .init hs
    | step hprev hstep ih =>
      exact .step ih ⟨hstep.1, (h hprev.of_restrict hstep.1).mp hstep.2⟩
  . intro hrun
    induction hrun with
    | init hs => exact .init hs
    | step hprev hstep ih =>
      exact .step ih ⟨hstep.1, (h hprev.of_restrict hstep.1).mpr hstep.2⟩

theorem Reaches.restrict_of_forall {P : Label → Prop} (hrun : M.Reaches ls s)
    (h : ∀ l ∈ ls, P l) : (M.restrict fun _ l _ => P l).Reaches ls s := by
  induction hrun with
  | init hs => exact .init hs
  | step _ hstep ih =>
    apply Reaches.step
    . exact ih (fun l hl => h l (List.mem_append_left _ hl))
    . exact ⟨hstep, h _ (by simp)⟩

end Restrict

end System
