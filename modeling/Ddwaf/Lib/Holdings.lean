import Mathlib.Data.List.Nodup
import Mathlib.Logic.Function.Basic

/-!
This module contains resources that are held in named places: what is alive is held in a place or lost,
and nothing is held twice.
-/

variable {ι : Type u} {ρ : Type v}

/-- The places outside of `P` are not looked at. What they contain may be gone. -/
structure Holdings (P : ι → Prop) (alive : List ρ) (place : ι → Option ρ) (lost : List ρ) : Prop where
  nodup : alive.Nodup
  mem_alive : ∀ r, r ∈ alive ↔ r ∈ lost ∨ ∃ i, P i ∧ place i = some r
  unique : ∀ i j r, P i → P j → place i = some r → place j = some r → i = j
  not_lost : ∀ i r, P i → place i = some r → r ∉ lost

namespace Holdings

variable {P Q : ι → Prop} {alive lost : List ρ} {place place' : ι → Option ρ} {i : ι} {r : ρ}

theorem alive_of_place (h : Holdings P alive place lost) (hi : P i) (hr : place i = some r) :
    r ∈ alive :=
  (h.mem_alive r).mpr (Or.inr ⟨i, hi, hr⟩)

theorem empty (h : ∀ i, place i = none) : Holdings P [] place ([] : List ρ) := by
  constructor
  . exact List.nodup_nil
  . intro r
    simp [h]
  . intro i j r _ _ hr
    rw [h i] at hr
    contradiction
  . intro i r _ _
    exact List.not_mem_nil

theorem congr (h : Holdings P alive place lost) (hplace : ∀ i, P i → place' i = place i) :
    Holdings P alive place' lost := by
  constructor
  . exact h.nodup
  . intro r
    rw [h.mem_alive]
    have hiff (i : ι) : (P i ∧ place' i = some r) ↔ (P i ∧ place i = some r) := by
      constructor
      . intro ⟨hi, hr⟩
        exact ⟨hi, hplace i hi ▸ hr⟩
      . intro ⟨hi, hr⟩
        exact ⟨hi, (hplace i hi).symm ▸ hr⟩
    simp only [hiff]
  . intro i j r hi hj hr hr'
    rw [hplace i hi] at hr
    rw [hplace j hj] at hr'
    exact h.unique i j r hi hj hr hr'
  . intro i r hi hr
    rw [hplace i hi] at hr
    exact h.not_lost i r hi hr

theorem ignore (h : Holdings P alive place lost) (hP : ∀ j, Q j → P j)
    (hQ : ∀ j, P j → ¬Q j → place j = none) : Holdings Q alive place lost := by
  constructor
  . exact h.nodup
  . intro r
    rw [h.mem_alive]
    constructor
    . rintro (hlost | ⟨j, hj, hr⟩)
      . exact Or.inl hlost
      . by_cases hq : Q j
        . exact Or.inr ⟨j, hq, hr⟩
        . rw [hQ j hj hq] at hr
          contradiction
    . rintro (hlost | ⟨j, hj, hr⟩)
      . exact Or.inl hlost
      . exact Or.inr ⟨j, hP j hj, hr⟩
  . intro i j r hi hj
    exact h.unique i j r (hP i hi) (hP j hj)
  . intro i r hi
    exact h.not_lost i r (hP i hi)

section Release

variable [DecidableEq ρ]

theorem leave (h : Holdings P alive place lost) (hi : P i) (hr : place i = some r)
    (hQ : ∀ j, Q j ↔ P j ∧ j ≠ i) : Holdings Q (alive.erase r) place lost := by
  constructor
  . exact h.nodup.erase r
  . intro r'
    rw [h.nodup.mem_erase_iff, h.mem_alive]
    constructor
    . rintro ⟨hne, hlost | ⟨j, hj, hr'⟩⟩
      . exact Or.inl hlost
      . refine Or.inr ⟨j, (hQ j).mpr ⟨hj, ?_⟩, hr'⟩
        intro hji
        rw [hji, hr] at hr'
        exact hne (Option.some.inj hr').symm
    . rintro (hlost | ⟨j, hj, hr'⟩)
      . refine ⟨?_, Or.inl hlost⟩
        intro heq
        rw [heq] at hlost
        exact h.not_lost i r hi hr hlost
      . refine ⟨?_, Or.inr ⟨j, ((hQ j).mp hj).1, hr'⟩⟩
        intro heq
        rw [heq] at hr'
        exact ((hQ j).mp hj).2 (h.unique j i r ((hQ j).mp hj).1 hi hr' hr)
  . intro i j r hi hj
    exact h.unique i j r ((hQ i).mp hi).1 ((hQ j).mp hj).1
  . intro j r' hj
    exact h.not_lost j r' ((hQ j).mp hj).1

variable [DecidableEq ι]

theorem release (h : Holdings P alive place lost) (hi : P i) (hr : place i = some r) :
    Holdings P (alive.erase r) (Function.update place i none) lost := by
  have hleft := h.leave (Q := fun j => P j ∧ j ≠ i) hi hr fun _ => Iff.rfl
  have hsame : Holdings (fun j => P j ∧ j ≠ i) (alive.erase r) (Function.update place i none) lost :=
    hleft.congr fun j hj => Function.update_of_ne hj.2 _ _
  constructor
  . exact hsame.nodup
  . intro r'
    rw [hsame.mem_alive]
    have hiff (j : ι) : ((P j ∧ j ≠ i) ∧ Function.update place i none j = some r') ↔
        (P j ∧ Function.update place i none j = some r') := by
      by_cases hj : j = i
      . simp [hj]
      . simp [hj]
    simp only [hiff]
  . intro j k r' hj hk hr' hr''
    by_cases hji : j = i
    . simp [hji] at hr'
    . by_cases hki : k = i
      . simp [hki] at hr''
      . exact hsame.unique j k r' ⟨hj, hji⟩ ⟨hk, hki⟩ hr' hr''
  . intro j r' hj hr'
    by_cases hji : j = i
    . simp [hji] at hr'
    . exact hsame.not_lost j r' ⟨hj, hji⟩ hr'

end Release

theorem acquire [DecidableEq ι] (h : Holdings P alive place lost) (hi : P i) (hnone : place i = none)
    (hfresh : r ∉ alive) : Holdings P (r :: alive) (Function.update place i (some r)) lost := by
  have hother {j : ι} {r' : ρ} (hj : P j) (hr' : place j = some r') : r' ≠ r := by
    intro heq
    exact hfresh (heq ▸ h.alive_of_place hj hr')
  constructor
  . exact List.nodup_cons.mpr ⟨hfresh, h.nodup⟩
  . intro r'
    rw [List.mem_cons, h.mem_alive]
    constructor
    . rintro (heq | hlost | ⟨j, hj, hr'⟩)
      . exact Or.inr ⟨i, hi, by rw [Function.update_self, heq]⟩
      . exact Or.inl hlost
      . refine Or.inr ⟨j, hj, ?_⟩
        rw [Function.update_of_ne, hr']
        intro hji
        rw [hji, hnone] at hr'
        contradiction
    . rintro (hlost | ⟨j, hj, hr'⟩)
      . exact Or.inr (Or.inl hlost)
      . by_cases hji : j = i
        . rw [hji, Function.update_self] at hr'
          exact Or.inl (Option.some.inj hr').symm
        . rw [Function.update_of_ne hji] at hr'
          exact Or.inr (Or.inr ⟨j, hj, hr'⟩)
  . intro j k r' hj hk hr' hr''
    by_cases hji : j = i
    . by_cases hki : k = i
      . rw [hji, hki]
      . rw [hji, Function.update_self] at hr'
        rw [Function.update_of_ne hki] at hr''
        exact absurd (Option.some.inj hr').symm (hother hk hr'')
    . rw [Function.update_of_ne hji] at hr'
      by_cases hki : k = i
      . rw [hki, Function.update_self] at hr''
        exact absurd (Option.some.inj hr'').symm (hother hj hr')
      . rw [Function.update_of_ne hki] at hr''
        exact h.unique j k r' hj hk hr' hr''
  . intro j r' hj hr'
    by_cases hji : j = i
    . rw [hji, Function.update_self] at hr'
      cases hr'
      intro hlost
      exact hfresh ((h.mem_alive r).mpr (Or.inl hlost))
    . rw [Function.update_of_ne hji] at hr'
      exact h.not_lost j r' hj hr'

theorem lose (h : Holdings P alive place lost) (hfresh : r ∉ alive) :
    Holdings P (r :: alive) place (r :: lost) := by
  constructor
  . exact List.nodup_cons.mpr ⟨hfresh, h.nodup⟩
  . intro r'
    rw [List.mem_cons, h.mem_alive, List.mem_cons, or_assoc]
  . exact h.unique
  . intro j r' hj hr'
    rw [List.mem_cons, not_or]
    refine ⟨?_, h.not_lost j r' hj hr'⟩
    intro heq
    exact hfresh (heq ▸ h.alive_of_place hj hr')

theorem eq_singleton (h : Holdings P alive place []) (hi : P i) (hr : place i = some r)
    (hnone : ∀ j, P j → j ≠ i → place j = none) : alive = [r] := by
  have hall (r' : ρ) (hr' : r' ∈ alive) : r' = r := by
    rcases (h.mem_alive r').mp hr' with hlost | ⟨j, hj, hplace⟩
    . exact absurd hlost List.not_mem_nil
    . by_cases hji : j = i
      . rw [hji, hr] at hplace
        exact (Option.some.inj hplace).symm
      . rw [hnone j hj hji] at hplace
        contradiction
  have hmem := h.alive_of_place hi hr
  match alive, h.nodup with
  | [], _ => contradiction
  | [r'], _ => rw [hall r' List.mem_cons_self]
  | r' :: r'' :: rest, hnodup =>
    have heq := hall r' List.mem_cons_self
    have heq' := hall r'' (List.mem_cons_of_mem _ List.mem_cons_self)
    rw [heq, heq'] at hnodup
    simp at hnodup

end Holdings
