import Mathlib.Data.ENat.Lattice
import Mathlib.Data.Set.Card
import Mathlib.Data.List.Basic

/-!
This module contains positions in the depth-first pre-order of a tree that may be infinite. A node is
the path of indices that leads to it, so that pre-order is the lexicographical order.
-/

namespace Preorder

theorem lt_concat_zero {p path : List Nat} : p < path ++ [0] ↔ p < path ∨ p = path := by
  induction path generalizing p with
  | nil =>
    cases p with
    | nil => simp
    | cons a p => simp [List.cons_lt_cons_iff]
  | cons b path ih =>
    cases p with
    | nil => simp
    | cons a p =>
      rw [List.cons_append, List.cons_lt_cons_iff, List.cons_lt_cons_iff, ih, List.cons.injEq]
      tauto

theorem lt_concat_succ {p path : List Nat} {i : Nat} :
    p < path ++ [i + 1] ↔ p < path ++ [i] ∨ path ++ [i] <+: p := by
  induction path generalizing p with
  | nil =>
    cases p with
    | nil => simp
    | cons a p =>
      simp [List.cons_lt_cons_iff]
      omega
  | cons b path ih =>
    cases p with
    | nil => simp
    | cons a p =>
      rw [List.cons_append, List.cons_append, List.cons_lt_cons_iff, List.cons_lt_cons_iff, ih,
        List.cons_prefix_cons]
      tauto

theorem lt_of_lt_of_prefix {p path q : List Nat} (h : p < path) (hpre : path <+: q) : p < q := by
  obtain ⟨suffix, rfl⟩ := hpre
  induction path generalizing p with
  | nil => exact absurd h (List.not_lt_nil p)
  | cons b path ih =>
    cases p with
    | nil => simp
    | cons a p =>
      rw [List.cons_lt_cons_iff] at h
      rw [List.cons_append, List.cons_lt_cons_iff]
      rcases h with h | ⟨rfl, h⟩
      . exact Or.inl h
      . exact Or.inr ⟨rfl, ih h⟩

theorem prefix_cases {p path : List Nat} (h : path <+: p) : p = path ∨ ∃ i, path ++ [i] <+: p := by
  obtain ⟨suffix, rfl⟩ := h
  cases suffix with
  | nil => simp
  | cons i suffix => exact Or.inr ⟨i, suffix, by simp⟩

theorem lt_concat_of_prefix {p path : List Nat} {i k : Nat} (h : path ++ [i] <+: p) (hlt : i < k) :
    p < path ++ [k] := by
  induction k with
  | zero => contradiction
  | succ k ih =>
    rw [lt_concat_succ]
    by_cases heq : i = k
    . subst heq
      exact Or.inr h
    . exact Or.inl (ih (by omega))

section Positions

variable (V : Set (List Nat))

def before (path : List Nat) : Set (List Nat) := {p | p ∈ V ∧ p < path}

def upTo (path : List Nat) : Set (List Nat) := {p | p ∈ V ∧ (p < path ∨ path <+: p)}

noncomputable def position (path : List Nat) : ℕ∞ := (before V path).encard

variable {V}

theorem before_nil : before V [] = ∅ := by
  ext p
  simp [before]

theorem upTo_nil : upTo V [] = V := by
  ext p
  simp [upTo]

theorem before_concat_zero {path : List Nat} (h : path ∈ V) :
    before V (path ++ [0]) = insert path (before V path) := by
  ext p
  simp only [before, Set.mem_ofPred_eq, lt_concat_zero, Set.mem_insert_iff]
  constructor
  . rintro ⟨hp, hlt | rfl⟩
    . exact Or.inr ⟨hp, hlt⟩
    . exact Or.inl rfl
  . rintro (rfl | ⟨hp, hlt⟩)
    . exact ⟨h, Or.inr rfl⟩
    . exact ⟨hp, Or.inl hlt⟩

theorem before_concat_succ {path : List Nat} {i : Nat} :
    before V (path ++ [i + 1]) = upTo V (path ++ [i]) := by
  ext p
  simp only [before, upTo, Set.mem_ofPred_eq, lt_concat_succ]

theorem before_subset {path q : List Nat} (h : path <+: q) : before V path ⊆ before V q :=
  fun _ hp => ⟨hp.1, lt_of_lt_of_prefix hp.2 h⟩

theorem before_concat_subset {path : List Nat} {k : Nat} :
    before V (path ++ [k]) ⊆ upTo V path := by
  rintro p ⟨hp, hlt⟩
  refine ⟨hp, ?_⟩
  induction k with
  | zero =>
    rcases lt_concat_zero.mp hlt with h | rfl
    . exact Or.inl h
    . exact Or.inr (List.prefix_refl p)
  | succ k ih =>
    rcases lt_concat_succ.mp hlt with h | h
    . exact ih h
    . exact Or.inr ((List.prefix_append path [k]).trans h)

theorem before_concat_mono {path : List Nat} {k i : Nat} (h : k ≤ i) :
    before V (path ++ [k]) ⊆ before V (path ++ [i]) := by
  induction i with
  | zero =>
    rw [Nat.le_zero.mp h]
  | succ i ih =>
    by_cases heq : k = i + 1
    . rw [heq]
    . rw [before_concat_succ]
      intro p hp
      exact ⟨hp.1, Or.inl (ih (by omega) hp).2⟩

theorem lt_concat_self (path : List Nat) (k : Nat) : path < path ++ [k] := by
  induction k with
  | zero => exact lt_concat_zero.mpr (Or.inr rfl)
  | succ k ih => exact lt_concat_succ.mpr (Or.inl ih)

theorem lt_concat_of_lt {p path : List Nat} (h : p < path) (k : Nat) : p < path ++ [k] :=
  lt_of_lt_of_prefix h (List.prefix_append path [k])

theorem before_concat_eq_upTo {path : List Nat} {n : Nat}
    (h : ∀ p ∈ V, ∀ i, path ++ [i] <+: p → i < n) : before V (path ++ [n]) = upTo V path := by
  apply Set.Subset.antisymm before_concat_subset
  rintro p ⟨hp, hlt | hpre⟩
  . exact ⟨hp, lt_concat_of_lt hlt n⟩
  . refine ⟨hp, ?_⟩
    rcases prefix_cases hpre with rfl | ⟨i, hi⟩
    . exact lt_concat_self p n
    . exact lt_concat_of_prefix hi (h p hp i hi)

def Counts (N : Nat) (s : Set (List Nat)) (k : Nat) : Prop := min s.encard (N : ℕ∞) = k

theorem Counts.empty (N : Nat) : Counts N ∅ 0 := by
  simp [Counts]

theorem Counts.le {N k : Nat} {s : Set (List Nat)} (h : Counts N s k) : (k : ℕ∞) ≤ s.encard := by
  rw [← h]
  exact min_le_left ..

theorem Counts.le_right {N k : Nat} {s : Set (List Nat)} (h : Counts N s k) : k ≤ N := by
  have hle : (k : ℕ∞) ≤ N := by
    rw [← h]
    exact min_le_right ..
  exact_mod_cast hle

theorem Counts.encard_eq {N k : Nat} {s : Set (List Nat)} (h : Counts N s k) (hlt : k < N) :
    s.encard = k := by
  rcases min_choice s.encard (N : ℕ∞) with hmin | hmin
  . rw [← hmin]
    exact h
  . have : (N : ℕ∞) = k := hmin.symm.trans h
    rw [Nat.cast_inj] at this
    omega

theorem Counts.encard_eq_of_le {N k : Nat} {s : Set (List Nat)} (h : Counts N s k)
    (hle : s.encard ≤ N) : s.encard = k := by
  rw [← h, min_eq_left hle]

theorem Counts.insert {N k : Nat} {s : Set (List Nat)} {path : List Nat} (h : Counts N s k)
    (hlt : k < N) (hnotMem : path ∉ s) : Counts N (insert path s) (k + 1) := by
  unfold Counts
  rw [Set.encard_insert_of_notMem hnotMem, h.encard_eq hlt, min_eq_left]
  . rfl
  . exact_mod_cast hlt

theorem Counts.mono {N : Nat} {s t : Set (List Nat)} (h : Counts N s N) (hst : s ⊆ t) :
    Counts N t N := min_eq_right (h.le.trans (Set.encard_le_encard hst))

end Positions

end Preorder
