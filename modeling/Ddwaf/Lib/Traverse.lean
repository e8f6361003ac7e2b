import Mathlib.Tactic.Common

/-!
This module contains computations with a state that fail exactly where a partial function has no
value, and lists that partial functions are mapped over.
-/

variable {ε σ α β γ δ : Type}

def Yields (f : γ → α) (r : Except ε (γ × σ)) (a : Option α) (s : σ) : Prop :=
  match a with
  | some a => ∃ c, r = .ok (c, s) ∧ f c = a
  | none => ∃ e, r = .error e

namespace Yields

variable {f : γ → α} {g : δ → β}

theorem ok (f : γ → α) (c : γ) (s : σ) : Yields f (.ok (c, s) : Except ε (γ × σ)) (some (f c)) s := by
  exact ⟨c, rfl, rfl⟩

theorem error (f : γ → α) (e : ε) (s : σ) : Yields f (.error e : Except ε (γ × σ)) none s := by
  exact ⟨e, rfl⟩

theorem bind {r : Except ε (γ × σ)} {a : Option α} {s s' : σ} {k : γ × σ → Except ε (δ × σ)}
    {h : α → Option β} (hr : Yields f r a s)
    (hk : ∀ c, a = some (f c) → Yields g (k (c, s)) (h (f c)) s') :
    Yields g (r >>= k) (a.bind h) s' := by
  cases a with
  | none =>
    obtain ⟨e, rfl⟩ := hr
    exact ⟨e, rfl⟩
  | some x =>
    obtain ⟨c, rfl, rfl⟩ := hr
    exact hk c rfl

theorem map {r : Except ε (γ × σ)} {a : Option α} {s : σ} (hr : Yields f r a s) {k : γ → δ} {h : α → β}
    (hk : ∀ c, g (k c) = h (f c)) : Yields g (r >>= fun x => pure (k x.1, x.2)) (a.map h) s := by
  rw [Option.map_eq_bind]
  apply bind hr
  intro c _
  exact ⟨k c, rfl, hk c⟩

theorem congr {r : Except ε (γ × σ)} {a : Option α} {s s' : σ} (hr : Yields f r a s) (hs : s = s') :
    Yields f r a s' := by
  rw [← hs]
  exact hr

theorem eq_some_iff {r : Except ε (γ × σ)} {a : Option α} {s : σ} (hr : Yields f r a s) (x : α) :
    (∃ c s', r = .ok (c, s') ∧ f c = x) ↔ a = some x := by
  cases a with
  | none =>
    obtain ⟨e, rfl⟩ := hr
    simp
  | some y =>
    obtain ⟨c, rfl, rfl⟩ := hr
    constructor
    . rintro ⟨c', s', h, rfl⟩
      cases h
      rfl
    . intro h
      exact ⟨c, s, rfl, Option.some.inj h⟩

end Yields

theorem mapM_both_iff {f g : α → Option β} {l : List α} :
    (∃ bs, l.mapM f = some bs ∧ l.mapM g = some bs) ↔
      ∀ a ∈ l, ∃ b, f a = some b ∧ g a = some b := by
  induction l with
  | nil => simp
  | cons a l ih =>
    rw [List.forall_mem_cons, ← ih]
    simp only [List.mapM_cons, Option.bind_eq_bind, Option.bind_eq_some_iff, Option.pure_def,
      Option.some.injEq]
    constructor
    . rintro ⟨bs, ⟨b, hb, bs', hbs', rfl⟩, b'', hb'', bs'', hbs'', heq⟩
      obtain ⟨rfl, rfl⟩ := List.cons.inj heq
      exact ⟨⟨_, hb, hb''⟩, ⟨_, hbs', hbs''⟩⟩
    . rintro ⟨⟨b, hb, hb'⟩, ⟨bs, hbs, hbs'⟩⟩
      exact ⟨b :: bs, ⟨b, hb, bs, hbs, rfl⟩, b, hb', bs, hbs', rfl⟩
