import Ddwaf.Lib.Memory
import Mathlib.Data.Set.Lattice
import Mathlib.Order.CompletePartialOrder

/-!
This module contains parties that share one memory, each of which owns a part of it: what a step of one
of them guarantees, and what the others rely on.
-/

namespace SharedMemory

structure Store where
  memory : Memory
  allocated : Set Nat

/--
A step that takes a party from owning `O` to owning `O'` writes to nothing else that is allocated,
and what it gets was free.
-/
structure Guarantee (O O' : Set Nat) (s s' : Store) : Prop where
  allocated : s.allocated ⊆ s'.allocated
  owned : ∀ x ∈ O', x ∈ O ∨ x ∉ s.allocated
  frame : ∀ x ∈ s.allocated, x ∉ O → s'.memory x = s.memory x

namespace Guarantee

variable {O O' O'' P : Set Nat} {s s' s'' : Store}

theorem refl (O : Set Nat) (s : Store) : Guarantee O O s s :=
  ⟨Set.Subset.refl _, fun _ hx => Or.inl hx, fun _ _ _ => rfl⟩

theorem trans (h : Guarantee O O' s s') (h' : Guarantee O' O'' s' s'') : Guarantee O O'' s s'' := by
  constructor
  . exact h.allocated.trans h'.allocated
  . intro x hx
    rcases h'.owned x hx with hx | hx
    . exact h.owned x hx
    . exact Or.inr fun hmem => hx (h.allocated hmem)
  . intro x hmem hx
    have hx' : x ∉ O' := by
      intro howned
      rcases h.owned x howned with howned | hfree
      . exact hx howned
      . exact hfree hmem
    rw [h'.frame x (h.allocated hmem) hx', h.frame x hmem hx]

theorem frame_of_disjoint (h : Guarantee O O' s s') (hP : P ⊆ s.allocated) (hdisjoint : Disjoint O P) :
    ∀ x ∈ P, s'.memory x = s.memory x :=
  fun x hx => h.frame x (hP hx) fun hO => Set.disjoint_left.mp hdisjoint hO hx

theorem disjoint (h : Guarantee O O' s s') (hP : P ⊆ s.allocated) (hdisjoint : Disjoint O P) :
    Disjoint O' P := by
  rw [Set.disjoint_left] at hdisjoint ⊢
  intro x hx hmem
  rcases h.owned x hx with hO | hfree
  . exact hdisjoint hO hmem
  . exact hfree (hP hmem)

end Guarantee

section Separate

variable {κ : Type u} {owned : κ → Set Nat} {s s' : Store} {k : κ} {O' : Set Nat}

structure Separate (owned : κ → Set Nat) (s : Store) : Prop where
  allocated : ∀ k, owned k ⊆ s.allocated
  disjoint : ∀ k k', k ≠ k' → Disjoint (owned k) (owned k')

namespace Separate

theorem frame (h : Separate owned s) (hstep : Guarantee (owned k) O' s s') {k' : κ} (hne : k ≠ k') :
    ∀ x ∈ owned k', s'.memory x = s.memory x :=
  hstep.frame_of_disjoint (h.allocated k') (h.disjoint k k' hne)

theorem step [DecidableEq κ] (h : Separate owned s) (hstep : Guarantee (owned k) O' s s')
    (hO' : O' ⊆ s'.allocated) : Separate (Function.update owned k O') s' := by
  have hother {j : κ} (hj : k ≠ j) : Disjoint O' (owned j) :=
    hstep.disjoint (h.allocated j) (h.disjoint k j hj)
  constructor
  . intro j
    by_cases hj : j = k
    . rw [hj, Function.update_self]
      exact hO'
    . rw [Function.update_of_ne hj]
      exact (h.allocated j).trans hstep.allocated
  . intro i j hij
    by_cases hi : i = k
    . have hj : j ≠ k := fun hj => hij (hi.trans hj.symm)
      rw [hi, Function.update_self, Function.update_of_ne hj]
      exact hother hj.symm
    . by_cases hj : j = k
      . rw [hj, Function.update_self, Function.update_of_ne hi]
        exact (hother (Ne.symm hi)).symm
      . rw [Function.update_of_ne hi, Function.update_of_ne hj]
        exact h.disjoint i j hij

theorem mono {owned' : κ → Set Nat} (h : Separate owned s) (howned : ∀ k, owned' k ⊆ owned k)
    (hallocated : ∀ k, owned' k ⊆ s'.allocated) : Separate owned' s' :=
  ⟨hallocated, fun k k' hne => (h.disjoint k k' hne).mono (howned k) (howned k')⟩

end Separate

end Separate

end SharedMemory
