import Mathlib.Data.List.Basic
import Mathlib.Tactic.Common

/-!
This module contains programs that write pieces of text to a buffer that may be unable to grow: each
piece is written whole or left out, and none is left out where there is room for all of them.
-/

universe u v w

section Emits

variable {σ : Type u} {α : Type v} {ε : Type w}

/--
The buffer holds `out`, `Inv` is true of every state, and `Roomy n` says that the buffer can grow to
hold `n` elements.
-/
structure EmitsFrom (out : σ → List α) (Inv : σ → Prop) (Roomy : Nat → Prop)
    (ps : List (List α)) (s s' : σ) (kept : List (List α)) : Prop where
  inv : Inv s'
  sublist : kept.Sublist ps
  eq : out s' = out s ++ kept.flatten
  all : ∀ n, Roomy n → (out s ++ ps.flatten).length ≤ n → kept = ps

variable (out : σ → List α) (Inv : σ → Prop) (Roomy : Nat → Prop)

def Emits (x : σ → Except ε σ) (ps : List (List α)) : Prop :=
  ∀ s, Inv s → ∃ s' kept, x s = .ok s' ∧ EmitsFrom out Inv Roomy ps s s' kept

variable {out Inv Roomy}

theorem Emits.nil : Emits out Inv Roomy (fun s => (.ok s : Except ε σ)) [] :=
  fun s hs => ⟨s, [], rfl, ⟨hs, List.Sublist.refl _, by simp, fun _ _ _ => rfl⟩⟩

theorem Emits.bind {x y : σ → Except ε σ} {ps qs : List (List α)} (hx : Emits out Inv Roomy x ps)
    (hy : Emits out Inv Roomy y qs) : Emits out Inv Roomy (fun s => x s >>= y) (ps ++ qs) := by
  intro s hs
  have ⟨s₁, kept, hs₁, h⟩ := hx s hs
  have ⟨s₂, kept', hs₂, h'⟩ := hy s₁ h.inv
  refine ⟨s₂, kept ++ kept', ?_, ⟨h'.inv, h.sublist.append h'.sublist, ?_, ?_⟩⟩
  . show (x s >>= y) = _
    rw [hs₁]
    exact hs₂
  . rw [h'.eq, h.eq, List.flatten_append, List.append_assoc]
  . intro n hn hlength
    rw [List.flatten_append, List.length_append, List.length_append] at hlength
    have hkept : kept = ps := by
      apply h.all n hn
      rw [List.length_append]
      omega
    have hkept' : kept' = qs := by
      apply h'.all n hn
      rw [h.eq, hkept, List.length_append, List.length_append]
      omega
    rw [hkept, hkept']

theorem Emits.congr {x y : σ → Except ε σ} {ps : List (List α)} (hx : Emits out Inv Roomy x ps)
    (h : ∀ s, y s = x s) : Emits out Inv Roomy y ps := by
  intro s hs
  rw [h]
  exact hx s hs

theorem Emits.single {x : σ → Except ε σ} {p : List α}
    (h : ∀ s, Inv s → ∃ s', x s = .ok s' ∧ Inv s' ∧ (out s' = out s ++ p ∨
      out s' = out s ∧ ∀ n, Roomy n → n < (out s ++ p).length)) :
    Emits out Inv Roomy x [p] := by
  intro s hs
  have ⟨s', hs', hinv, hout⟩ := h s hs
  rcases hout with hout | ⟨hout, hfull⟩
  . refine ⟨s', [p], hs', ⟨hinv, List.Sublist.refl _, ?_, fun _ _ _ => rfl⟩⟩
    rw [hout, List.flatten_singleton]
  . refine ⟨s', [], hs', ⟨hinv, List.nil_sublist _, ?_, ?_⟩⟩
    . rw [hout, List.flatten_nil, List.append_nil]
    . intro n hn hlength
      have hlt := hfull n hn
      rw [List.flatten_singleton] at hlength
      omega

end Emits
