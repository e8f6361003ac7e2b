import Ddwaf.ArenaPool.Impl

/-!
This module contains the proof that each arena belongs to one lease or to the pool, and that the arena
of a context stays with it until the context is cleared.
-/

namespace Ddwaf

structure Arena.IsReset (arena : Arena) : Prop where
  pwargs : ∀ segment ∈ arena.pwargsSegments,
    segment.buffer.position = 0 ∧ segment.idxOfNextUnusedPWArgsArrayBuffer = 0
  strings : ∀ segment ∈ arena.stringsSegments, segment.buffer.position = 0
  first : arena.curPWArgsSegment = 0 ∧ arena.curStringsSegment = 0 ∧
    arena.idxOfFirstUsedPWArgsSegment = none

theorem Arena.isReset_reset (arena : Arena) : arena.reset.IsReset := by
  constructor
  . intro segment hsegment
    obtain ⟨segment', -, rfl⟩ := List.mem_map.mp hsegment
    exact ⟨rfl, rfl⟩
  . intro segment hsegment
    obtain ⟨segment', -, rfl⟩ := List.mem_map.mp hsegment
    rfl
  . exact ⟨rfl, rfl, rfl⟩

variable {κ : Type}

namespace ArenaPool

variable {p q : ArenaPool κ}

/-- A lease has its arena until it has put it into the deque. -/
def Holds (p : ArenaPool κ) (l arena : Nat) : Prop :=
  ∃ lease, p.leases l = some lease ∧ lease.stage ≠ .returned ∧ lease.arena = arena

def Returned (p : ArenaPool κ) (l : Nat) : Prop :=
  ∃ lease, p.leases l = some lease ∧ lease.stage = .returned

structure Inv (p : ArenaPool κ) : Prop where
  lease_lt : ∀ l lease, p.leases l = some lease → l < p.nextLease
  pooled_lt : ∀ a ∈ p.arenas, a < p.nextArena
  holds_lt : ∀ l a, p.Holds l a → a < p.nextArena
  nodup : p.arenas.Nodup
  notMem : ∀ l a, p.Holds l a → a ∉ p.arenas
  unique : ∀ l l' a, p.Holds l a → p.Holds l' a → l = l'
  owned : ∀ a < p.nextArena, a ∈ p.arenas ∨ ∃ l, p.Holds l a
  pooled_reset : ∀ a ∈ p.arenas, (p.contents a).IsReset
  lease_reset : ∀ l lease, p.leases l = some lease → lease.stage = .reset →
    (p.contents lease.arena).IsReset
  returned_nodup : p.returned.Nodup
  mem_returned : ∀ l, l ∈ p.returned ↔ p.Returned l

theorem Inv.leases_nextLease (h : p.Inv) : p.leases p.nextLease = none := by
  cases hlease : p.leases p.nextLease with
  | none => rfl
  | some lease => exact absurd (h.lease_lt _ lease hlease) (Nat.lt_irrefl _)

theorem setLease_of_ne (p : ArenaPool κ) (lease : ArenaLease κ) (h : l' ≠ l) :
    (p.setLease l lease).leases l' = p.leases l' :=
  Function.update_of_ne h ..

@[simp]
theorem setLease_self (p : ArenaPool κ) (l : Nat) (lease : ArenaLease κ) :
    (p.setLease l lease).leases l = some lease :=
  Function.update_self ..

theorem getLease_cases (hget : p.getLease fresh use = some q) :
    ∃ a, q.leases = Function.update p.leases p.nextLease (some ⟨a, .unclosed, use⟩) ∧
      q.nextLease = p.nextLease + 1 ∧ q.returned = p.returned ∧
      ((p.arenas = a :: q.arenas ∧ q.contents = p.contents ∧ q.nextArena = p.nextArena) ∨
        (p.arenas = [] ∧ q.arenas = [] ∧ a = p.nextArena ∧ q.nextArena = p.nextArena + 1 ∧
          ∃ content, q.contents = Function.update p.contents a content)) := by
  unfold getLease at hget
  split at hget
  . next a arenas harenas =>
    cases hget
    exact ⟨a, rfl, rfl, rfl, Or.inl ⟨harenas, rfl, rfl⟩⟩
  . next harenas =>
    obtain ⟨content, -, rfl⟩ := Option.map_eq_some_iff.mp hget
    exact ⟨p.nextArena, rfl, rfl, rfl, Or.inr ⟨harenas, harenas, rfl, rfl, content, rfl⟩⟩

theorem getLease_of_ne (hget : p.getLease fresh use = some q) (hne : l ≠ p.nextLease) :
    q.leases l = p.leases l := by
  obtain ⟨a, hleases, -⟩ := getLease_cases hget
  rw [hleases, Function.update_of_ne hne]

theorem getLease_nextLease (hget : p.getLease fresh use = some q) :
    ∃ a, q.leases p.nextLease = some ⟨a, .unclosed, use⟩ := by
  obtain ⟨a, hleases, -⟩ := getLease_cases hget
  exact ⟨a, by rw [hleases, Function.update_self]⟩

theorem getLease_new (hget : p.getLease fresh use = some q) (hlease : q.leases l = some lease) :
    (l = p.nextLease ∧ lease.use = use ∧ lease.stage = .unclosed) ∨ p.leases l = some lease := by
  by_cases hl : l = p.nextLease
  . obtain ⟨a, hnew⟩ := getLease_nextLease hget
    rw [hl, hnew, Option.some.injEq] at hlease
    rw [← hlease]
    exact Or.inl ⟨hl, rfl, rfl⟩
  . rw [getLease_of_ne hget hl] at hlease
    exact Or.inr hlease

theorem Inv.getLease_keep (h : p.Inv) (hget : p.getLease fresh use = some q)
    (hlease : p.leases l = some lease) : q.leases l = some lease := by
  have hlt := h.lease_lt l lease hlease
  rw [getLease_of_ne hget (by omega)]
  exact hlease

theorem Inv.getLease (h : p.Inv) (hget : p.getLease fresh use = some q) : q.Inv := by
  have hnone := h.leases_nextLease
  obtain ⟨a, hleases, hnext, hreturned, hcases⟩ := getLease_cases hget
  have hold : ∀ l lease, q.leases l = some lease →
      (l = p.nextLease ∧ lease = ⟨a, .unclosed, use⟩) ∨ p.leases l = some lease := by
    intro l lease hlease
    rw [hleases] at hlease
    by_cases hl : l = p.nextLease
    . rw [hl, Function.update_self, Option.some.injEq] at hlease
      exact Or.inl ⟨hl, hlease.symm⟩
    . rw [Function.update_of_ne hl] at hlease
      exact Or.inr hlease
  have hkeep : ∀ l lease, p.leases l = some lease → q.leases l = some lease := by
    intro l lease hlease
    have hne : l ≠ p.nextLease := by
      rintro rfl
      rw [hnone] at hlease
      contradiction
    rw [hleases, Function.update_of_ne hne]
    exact hlease
  have hnew : q.Holds p.nextLease a :=
    ⟨_, by rw [hleases, Function.update_self], by simp, rfl⟩
  have hholds : ∀ l b, q.Holds l b → (l = p.nextLease ∧ b = a) ∨ p.Holds l b := by
    rintro l b ⟨lease, hlease, hstage, rfl⟩
    rcases hold l lease hlease with ⟨hl, rfl⟩ | hlease
    . exact Or.inl ⟨hl, rfl⟩
    . exact Or.inr ⟨lease, hlease, hstage, rfl⟩
  have hholds' : ∀ l b, p.Holds l b → q.Holds l b := by
    rintro l b ⟨lease, hlease, hstage, hb⟩
    exact ⟨lease, hkeep l lease hlease, hstage, hb⟩
  -- What the new lease holds had no holder, and is not in the deque any more.
  have hfree : (∀ l, ¬p.Holds l a) ∧ a ∉ q.arenas ∧ a < q.nextArena := by
    rcases hcases with ⟨harenas, -, hnextArena⟩ | ⟨-, harenas, rfl, hnextArena, -⟩
    . have ha : a ∈ p.arenas := by
        rw [harenas]
        exact List.mem_cons_self
      have hnodup := h.nodup
      rw [harenas, List.nodup_cons] at hnodup
      refine ⟨fun l hl => h.notMem l a hl ha, hnodup.1, ?_⟩
      rw [hnextArena]
      exact h.pooled_lt a ha
    . refine ⟨fun l hl => Nat.lt_irrefl _ (h.holds_lt l _ hl), ?_, ?_⟩
      . rw [harenas]
        exact List.not_mem_nil
      . omega
  have hsub : ∀ b ∈ q.arenas, b ∈ p.arenas := by
    intro b hb
    rcases hcases with ⟨harenas, -⟩ | ⟨-, harenas, -⟩
    . rw [harenas]
      exact List.mem_cons_of_mem _ hb
    . rw [harenas] at hb
      contradiction
  have hle : p.nextArena ≤ q.nextArena := by
    rcases hcases with ⟨-, -, hnextArena⟩ | ⟨-, -, -, hnextArena, -⟩ <;> omega
  have hcontents : ∀ b < p.nextArena, q.contents b = p.contents b := by
    intro b hb
    rcases hcases with ⟨-, hcontents, -⟩ | ⟨-, -, rfl, -, content, hcontents⟩
    . rw [hcontents]
    . rw [hcontents, Function.update_of_ne (by omega)]
  constructor
  . intro l lease hlease
    rw [hnext]
    rcases hold l lease hlease with ⟨rfl, -⟩ | hlease
    . exact Nat.lt_succ_self _
    . exact Nat.lt_succ_of_lt (h.lease_lt l lease hlease)
  . intro b hb
    exact Nat.lt_of_lt_of_le (h.pooled_lt b (hsub b hb)) hle
  . intro l b hb
    rcases hholds l b hb with ⟨-, rfl⟩ | hb
    . exact hfree.2.2
    . exact Nat.lt_of_lt_of_le (h.holds_lt l b hb) hle
  . rcases hcases with ⟨harenas, -⟩ | ⟨-, harenas, -⟩
    . have hnodup := h.nodup
      rw [harenas, List.nodup_cons] at hnodup
      exact hnodup.2
    . rw [harenas]
      exact List.nodup_nil
  . intro l b hb hmem
    rcases hholds l b hb with ⟨-, rfl⟩ | hb
    . exact hfree.2.1 hmem
    . exact h.notMem l b hb (hsub b hmem)
  . intro l l' b hb hb'
    rcases hholds l b hb with ⟨rfl, rfl⟩ | hb
    . rcases hholds l' b hb' with ⟨rfl, -⟩ | hb'
      . rfl
      . exact absurd hb' (hfree.1 l')
    . rcases hholds l' b hb' with ⟨rfl, rfl⟩ | hb'
      . exact absurd hb (hfree.1 l)
      . exact h.unique l l' b hb hb'
  . intro b hb
    by_cases hba : b = a
    . rw [hba]
      exact Or.inr ⟨_, hnew⟩
    . rcases hcases with ⟨harenas, -, hnextArena⟩ | ⟨harenas, -, rfl, hnextArena, -⟩
      . rw [hnextArena] at hb
        rcases h.owned b hb with hmem | ⟨l, hl⟩
        . rw [harenas, List.mem_cons] at hmem
          exact Or.inl (hmem.resolve_left hba)
        . exact Or.inr ⟨l, hholds' l b hl⟩
      . rcases h.owned b (by omega) with hmem | ⟨l, hl⟩
        . rw [harenas] at hmem
          contradiction
        . exact Or.inr ⟨l, hholds' l b hl⟩
  . intro b hb
    rw [hcontents b (h.pooled_lt b (hsub b hb))]
    exact h.pooled_reset b (hsub b hb)
  . intro l lease hlease hstage
    rcases hold l lease hlease with ⟨-, rfl⟩ | hlease
    . contradiction
    . have hlt := h.holds_lt l lease.arena ⟨lease, hlease, by rw [hstage]; simp, rfl⟩
      rw [hcontents _ hlt]
      exact h.lease_reset l lease hlease hstage
  . rw [hreturned]
    exact h.returned_nodup
  . intro l
    rw [hreturned, h.mem_returned]
    constructor
    . rintro ⟨lease, hlease, hstage⟩
      exact ⟨lease, hkeep l lease hlease, hstage⟩
    . rintro ⟨lease, hlease, hstage⟩
      rcases hold l lease hlease with ⟨-, rfl⟩ | hlease
      . contradiction
      . exact ⟨lease, hlease, hstage⟩

theorem Inv.setContent (h : p.Inv) (hlease : p.leases l = some lease)
    (hstage : lease.stage = .unclosed ∨ lease.stage = .marked) (content : Arena) :
    (p.setContent lease.arena content).Inv := by
  have hholds : p.Holds l lease.arena := by
    refine ⟨lease, hlease, ?_, rfl⟩
    rcases hstage with hstage | hstage <;> simp [hstage]
  constructor
  . exact h.lease_lt
  . exact h.pooled_lt
  . exact h.holds_lt
  . exact h.nodup
  . exact h.notMem
  . exact h.unique
  . exact h.owned
  . intro a ha
    have hne : a ≠ lease.arena := by
      rintro rfl
      exact h.notMem l _ hholds ha
    simp only [ArenaPool.setContent, Function.update_of_ne hne]
    exact h.pooled_reset a ha
  . intro l' lease' hlease' hstage'
    have hne : lease'.arena ≠ lease.arena := by
      intro harena
      have hholds' : p.Holds l' lease.arena := ⟨lease', hlease', by simp [hstage'], harena⟩
      obtain rfl := h.unique l l' _ hholds hholds'
      have heq : lease' = lease := by
        rw [← Option.some.injEq, ← hlease]
        exact hlease'.symm
      rw [heq] at hstage'
      rcases hstage with hstage | hstage <;> simp [hstage] at hstage'
    simp only [ArenaPool.setContent, Function.update_of_ne hne]
    exact h.lease_reset l' lease' hlease' hstage'
  . exact h.returned_nodup
  . exact h.mem_returned

theorem Inv.setLease (h : p.Inv) (hlease : p.leases l = some lease) {lease' : ArenaLease κ}
    (harena : lease'.arena = lease.arena)
    (hreturned : lease'.stage = .returned ↔ lease.stage = .returned)
    (hreset : lease'.stage = .reset → (p.contents lease.arena).IsReset) :
    (p.setLease l lease').Inv := by
  have hholds : ∀ l' a, (p.setLease l lease').Holds l' a ↔ p.Holds l' a := by
    intro l' a
    unfold Holds
    by_cases hl : l' = l
    . rw [hl, setLease_self, hlease]
      simp [harena, hreturned]
    . rw [setLease_of_ne p lease' hl]
  constructor
  . intro l' lease'' hl
    by_cases heq : l' = l
    . rw [heq]
      exact h.lease_lt l lease hlease
    . rw [setLease_of_ne p lease' heq] at hl
      exact h.lease_lt l' lease'' hl
  . exact h.pooled_lt
  . intro l' a ha
    exact h.holds_lt l' a ((hholds l' a).mp ha)
  . exact h.nodup
  . intro l' a ha
    exact h.notMem l' a ((hholds l' a).mp ha)
  . intro l₁ l₂ a h₁ h₂
    exact h.unique l₁ l₂ a ((hholds l₁ a).mp h₁) ((hholds l₂ a).mp h₂)
  . intro a ha
    rcases h.owned a ha with hmem | ⟨l', hl'⟩
    . exact Or.inl hmem
    . exact Or.inr ⟨l', (hholds l' a).mpr hl'⟩
  . exact h.pooled_reset
  . intro l' lease'' hl hstage
    by_cases heq : l' = l
    . rw [heq, setLease_self, Option.some.injEq] at hl
      subst hl
      rw [harena]
      exact hreset hstage
    . rw [setLease_of_ne p lease' heq] at hl
      exact h.lease_reset l' lease'' hl hstage
  . exact h.returned_nodup
  . intro l'
    rw [show (p.setLease l lease').returned = p.returned from rfl, h.mem_returned]
    unfold Returned
    by_cases heq : l' = l
    . rw [heq, setLease_self, hlease]
      simp [hreturned]
    . rw [setLease_of_ne p lease' heq]

theorem Inv.giveBack (h : p.Inv) (hlease : p.leases l = some lease) (hstage : lease.stage = .reset) :
    ArenaPool.Inv { p.setLease l { lease with stage := .returned } with
      arenas := lease.arena :: p.arenas
      returned := l :: p.returned } := by
  have hself : p.Holds l lease.arena := ⟨lease, hlease, by simp [hstage], rfl⟩
  have hholds : ∀ l' a, Holds { p.setLease l { lease with stage := .returned } with
      arenas := lease.arena :: p.arenas
      returned := l :: p.returned } l' a ↔ p.Holds l' a ∧ l' ≠ l := by
    intro l' a
    unfold Holds
    by_cases hl : l' = l
    . rw [hl]
      simp
    . simp only [setLease_of_ne p _ hl, ne_eq, hl, not_false_eq_true, and_true]
  constructor
  . intro l' lease' hl
    by_cases heq : l' = l
    . rw [heq]
      exact h.lease_lt l lease hlease
    . simp only [setLease_of_ne p _ heq] at hl
      exact h.lease_lt l' lease' hl
  . intro a ha
    rcases List.mem_cons.mp ha with rfl | ha
    . exact h.holds_lt l _ hself
    . exact h.pooled_lt a ha
  . intro l' a ha
    exact h.holds_lt l' a ((hholds l' a).mp ha).1
  . exact List.nodup_cons.mpr ⟨h.notMem l _ hself, h.nodup⟩
  . intro l' a ha hmem
    obtain ⟨ha, hne⟩ := (hholds l' a).mp ha
    rcases List.mem_cons.mp hmem with rfl | hmem
    . exact hne (h.unique l' l _ ha hself)
    . exact h.notMem l' a ha hmem
  . intro l₁ l₂ a h₁ h₂
    exact h.unique l₁ l₂ a ((hholds l₁ a).mp h₁).1 ((hholds l₂ a).mp h₂).1
  . intro a ha
    rcases h.owned a ha with hmem | ⟨l', hl'⟩
    . exact Or.inl (List.mem_cons_of_mem _ hmem)
    . by_cases heq : l' = l
      . obtain ⟨lease', hlease', -, harena⟩ := hl'
        rw [heq, hlease, Option.some.injEq] at hlease'
        rw [← harena, ← hlease']
        exact Or.inl List.mem_cons_self
      . exact Or.inr ⟨l', (hholds l' a).mpr ⟨hl', heq⟩⟩
  . intro a ha
    rcases List.mem_cons.mp ha with rfl | ha
    . exact h.lease_reset l lease hlease hstage
    . exact h.pooled_reset a ha
  . intro l' lease' hl hstage'
    by_cases heq : l' = l
    . rw [heq] at hl
      simp only [setLease_self, Option.some.injEq] at hl
      rw [← hl] at hstage'
      contradiction
    . simp only [setLease_of_ne p _ heq] at hl
      exact h.lease_reset l' lease' hl hstage'
  . apply List.nodup_cons.mpr
    refine ⟨?_, h.returned_nodup⟩
    rw [h.mem_returned]
    rintro ⟨lease', hlease', hstage'⟩
    rw [hlease, Option.some.injEq] at hlease'
    rw [← hlease', hstage] at hstage'
    contradiction
  . intro l'
    rw [List.mem_cons, h.mem_returned]
    unfold Returned
    by_cases heq : l' = l
    . rw [heq]
      simp
    . simp only [setLease_of_ne p _ heq, heq, false_or]

theorem Inv.closeStep (h : p.Inv) (hlease : p.leases l = some lease) :
    (p.closeStep l lease).1.Inv := by
  unfold ArenaPool.closeStep
  split
  . next hstage => exact h.setLease hlease rfl (by simp [hstage]) (by simp)
  . next hstage =>
    have hset := h.setContent hlease (Or.inr hstage) (p.contents lease.arena).reset
    apply hset.setLease hlease
    . rfl
    . simp [hstage]
    . intro _
      simp only [ArenaPool.setContent, Function.update_self]
      exact Arena.isReset_reset _
  . next hstage => exact h.giveBack hlease hstage
  . exact h

theorem closeStep_of_ne (p : ArenaPool κ) (lease : ArenaLease κ) (hne : l' ≠ l) :
    (p.closeStep l lease).1.leases l' = p.leases l' := by
  unfold closeStep
  split
  . exact setLease_of_ne p _ hne
  . exact setLease_of_ne _ _ hne
  . exact setLease_of_ne p _ hne
  . rfl

theorem closeStep_self (p : ArenaPool κ) (hlease : p.leases l = some lease) :
    (p.closeStep l lease).1.leases l = some { lease with stage := lease.stage.next } := by
  unfold closeStep
  split
  . next hstage => rw [setLease_self, hstage, LeaseStage.next]
  . next hstage => rw [setLease_self, hstage, LeaseStage.next]
  . next hstage => simp [hstage, LeaseStage.next]
  . next hstage =>
    obtain ⟨arena, stage, use⟩ := lease
    cases hstage
    exact hlease

theorem closeStep_returned (hlease : p.leases l = some lease) (hends : lease.stage.endsClose = true) :
    (p.closeStep l lease).1.Returned l := by
  refine ⟨_, closeStep_self p hlease, ?_⟩
  cases hstage : lease.stage <;> simp [hstage, LeaseStage.endsClose, LeaseStage.next] at hends ⊢

end ArenaPool

end Ddwaf
