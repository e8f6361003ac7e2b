import Ddwaf.ArenaPool.Contexts

/-!
This module contains what one step changes of the leases and of the contexts.
-/

namespace Ddwaf

variable {κ : Type}

def PoolEvent.context : PoolEvent κ → Option κ
  | .initWafContext k | .getContextLease k _ | .run k _ _ | .serializePersistent k _ _ => some k
  | .getEphemeralLease k _ | .serializeEphemeral k _ _ | .runWafContext k | .leaveRun k => some k
  | .close k | .clearWafContext k | .closeContextLease k => some k
  | .getLease _ _ | .serialize _ _ _ | .serializeMore _ _ | .closeLease _ => none

/-- The leases of a context are only changed by its own steps. -/
def PoolEvent.Owns (event : PoolEvent κ) (use : LeaseUse κ) : Prop :=
  ∀ k, PoolState.OfContext use k → event.context = some k

namespace ArenaPool

variable {p q : ArenaPool κ} {event : PoolEvent κ}

theorem closeStep_reset {lease : ArenaLease κ} (h : (p.closeStep l lease).2 = some (.reset a)) :
    lease.stage = .marked ∧ lease.arena = a := by
  unfold closeStep at h
  split at h
  . contradiction
  . next hstage =>
    cases h
    exact ⟨hstage, rfl⟩
  . cases h
  . cases h

def Keeps (p q : ArenaPool κ) : Prop :=
  ∀ l lease, p.leases l = some lease → ∃ lease', q.leases l = some lease' ∧ lease'.arena = lease.arena

theorem Keeps.refl (p : ArenaPool κ) : p.Keeps p := fun _ lease hlease => ⟨lease, hlease, rfl⟩

theorem Keeps.of_leases (h : q.leases = p.leases) : p.Keeps q := by
  intro l lease hlease
  rw [h]
  exact ⟨lease, hlease, rfl⟩

theorem keeps_setLease {lease lease' : ArenaLease κ} (hlease : p.leases l = some lease)
    (harena : lease'.arena = lease.arena) : p.Keeps (p.setLease l lease') := by
  intro l₁ lease₁ hlease₁
  by_cases hne : l₁ = l
  . subst hne
    rw [hlease] at hlease₁
    cases hlease₁
    exact ⟨lease', setLease_self .., harena⟩
  . rw [setLease_of_ne _ _ hne]
    exact ⟨lease₁, hlease₁, rfl⟩

theorem keeps_closeStep {lease : ArenaLease κ} (hlease : p.leases l = some lease) :
    p.Keeps (p.closeStep l lease).1 := by
  intro l₁ lease₁ hlease₁
  by_cases hne : l₁ = l
  . subst hne
    rw [hlease] at hlease₁
    cases hlease₁
    exact ⟨_, closeStep_self p hlease, rfl⟩
  . rw [closeStep_of_ne p lease hne]
    exact ⟨lease₁, hlease₁, rfl⟩

theorem keeps_getLease (h : p.Inv) (hget : p.getLease fresh use = some q) : p.Keeps q :=
  fun _ lease hlease => ⟨lease, h.getLease_keep hget hlease, rfl⟩

inductive Change (p : ArenaPool κ) (event : PoolEvent κ) :
    Option PoolAction → ArenaPool κ → Prop where
  | same (h : ∀ a, action ≠ some (.reset a)) : Change p event action p
  | getLease {q : ArenaPool κ} (hget : p.getLease fresh use = some q) : Change p event none q
  | setContent (a : Nat) (content : Arena) : Change p event none (p.setContent a content)
  | serialize (hlease : p.leases l = some lease) (howns : event.Owns lease.use) (content : Arena)
      (use : LeaseUse κ) :
    Change p event none ((p.setContent lease.arena content).setLease l { lease with use := use })
  | closeStep (hlease : p.leases l = some lease) (howns : event.Owns lease.use) :
    Change p event (p.closeStep l lease).2 (p.closeStep l lease).1

theorem Change.keeps (h : Change p event action q) (hp : p.Inv) : p.Keeps q := by
  cases h with
  | same _ => exact Keeps.refl p
  | getLease hget => exact keeps_getLease hp hget
  | setContent a content => exact Keeps.of_leases rfl
  | serialize hlease _ content use =>
    exact keeps_setLease (p := p.setContent _ content) hlease rfl
  | closeStep hlease _ => exact keeps_closeStep hlease

theorem Change.lease_eq (h : Change p event action q) (hp : p.Inv)
    (hlease : p.leases l = some lease) (hof : PoolState.OfContext lease.use k)
    (hne : event.context ≠ some k) : q.leases l = some lease := by
  have hother : ∀ l' lease', p.leases l' = some lease' → event.Owns lease'.use → l ≠ l' := by
    rintro l' lease' hlease' howns rfl
    obtain rfl := Option.some.inj (hlease.symm.trans hlease')
    exact hne (howns k hof)
  cases h with
  | same _ => exact hlease
  | getLease hget => exact hp.getLease_keep hget hlease
  | setContent a content => exact hlease
  | serialize hlease' howns content use =>
    rw [setLease_of_ne _ _ (hother _ _ hlease' howns)]
    exact hlease
  | closeStep hlease' howns =>
    rw [closeStep_of_ne p _ (hother _ _ hlease' howns)]
    exact hlease

theorem Change.reset (h : Change p event (some (.reset a)) q) :
    ∃ l lease, p.leases l = some lease ∧ lease.stage = .marked ∧ lease.arena = a := by
  generalize haction : some (PoolAction.reset a) = action at h
  cases h with
  | same h => exact absurd haction.symm (h a)
  | getLease _ => cases haction
  | setContent _ _ => cases haction
  | serialize _ _ _ _ => cases haction
  | closeStep hlease _ => exact ⟨_, _, hlease, closeStep_reset haction.symm⟩

theorem closeStep_giveBack (p : ArenaPool κ) (l : Nat) (lease : ArenaLease κ) :
    (p.closeStep l lease).1.returned = p.returned ∨
      (lease.stage = .reset ∧ (p.closeStep l lease).1.returned = l :: p.returned ∧
        (p.closeStep l lease).1.arenas = lease.arena :: p.arenas) := by
  unfold closeStep
  split
  . exact Or.inl rfl
  . exact Or.inl rfl
  . next hstage => exact Or.inr ⟨hstage, rfl, rfl⟩
  . exact Or.inl rfl

theorem Change.giveBack (h : Change p event action q) :
    q.returned = p.returned ∨ ∃ l lease, p.leases l = some lease ∧ lease.stage = .reset ∧
      q.returned = l :: p.returned ∧ q.arenas = lease.arena :: p.arenas := by
  cases h with
  | same _ => exact Or.inl rfl
  | getLease hget =>
    obtain ⟨a, -, -, hreturned, -⟩ := getLease_cases hget
    exact Or.inl hreturned
  | setContent a content => exact Or.inl rfl
  | serialize hlease _ content use => exact Or.inl rfl
  | closeStep hlease _ =>
    rcases closeStep_giveBack p _ _ with hreturned | hback
    . exact Or.inl hreturned
    . exact Or.inr ⟨_, _, hlease, hback⟩

end ArenaPool

namespace PoolState

variable {s s' : PoolState κ} {action : Option PoolAction}

theorem write_eq_some {content : Arena} (hwrite : s.write l content = some s') :
    ∃ lease, s.pool.leases l = some lease ∧ s' = s.setPool (s.pool.setContent lease.arena content) := by
  have ⟨lease, hlease, heq⟩ := Option.map_eq_some_iff.mp hwrite
  exact ⟨lease, hlease, heq.symm⟩

theorem change_closeStep (hclose : s.closeStep l = some (s', action))
    (howns : ∀ lease, s.pool.leases l = some lease → event.Owns lease.use) :
    s.pool.Change event action s'.pool ∧ s'.contexts = s.contexts := by
  have ⟨lease, hlease, hs', haction⟩ := closeStep_eq_some hclose
  rw [hs', haction]
  exact ⟨.closeStep hlease (howns lease hlease), rfl⟩

variable [DecidableEq κ]

structure Advances (k : κ) (event : PoolEvent κ) (c c' : PooledContext) : Prop where
  lease : c'.lease = c.lease
  cleared : c'.cleared = false → c.cleared = false
  ephemeral : ∀ l, c'.pc = .runWafContext (some l) →
    (∃ content, event = .serializeEphemeral k content true) ∧ c.pc = .serializeEphemeral l

inductive ContextChange (s : PoolState κ) (event : PoolEvent κ) (s' : PoolState κ) : Prop where
  | same (hcontexts : s'.contexts = s.contexts)
      (h : ∀ k c l, event.context = some k → s.contexts k = some c → c.pc ≠ .runWafContext (some l))
  | new (hevent : event.context = some k) (hnone : s.contexts k = none)
      (hcontexts : s'.contexts = Function.update s.contexts k (some c')) (hidle : c'.pc = .idle)
  | advance (hevent : event.context = some k) (hc : s.contexts k = some c)
      (hcontexts : s'.contexts = Function.update s.contexts k (some c'))
      (hadvances : Advances k event c c')

theorem ContextChange.none (hcontexts : s'.contexts = s.contexts)
    (hevent : event.context = Option.none) : ContextChange s event s' := by
  apply ContextChange.same hcontexts
  intro k c l hk
  rw [hevent] at hk
  contradiction

theorem ContextChange.pc {c : PooledContext} {pc : ContextPc} (hevent : event.context = some k)
    (hc : s.contexts k = some c)
    (hcontexts : s'.contexts = Function.update s.contexts k (some { c with pc := pc }))
    (hpc : ∀ l, pc ≠ .runWafContext (some l)) : ContextChange s event s' :=
  .advance hevent hc hcontexts ⟨rfl, id, fun l hl => absurd hl (hpc l)⟩

theorem afterPersistent_ne (ephemeral : Bool) (l : Nat) :
    afterPersistent ephemeral ≠ .runWafContext (some l) := by
  cases ephemeral <;> nofun

theorem change_closeFor {c : PooledContext} (hc : s.contexts k = some c)
    (hevent : event.context = some k) (hpc : ∀ l', c.pc ≠ .runWafContext (some l'))
    (hof : ∃ lease, s.pool.leases l = some lease ∧ OfContext lease.use k)
    (hclose : s.closeFor k l c = some (s', action)) :
    s.pool.Change event action s'.pool ∧ ContextChange s event s' := by
  have ⟨lease, hlease, hstep⟩ := Option.map_eq_some_iff.mp hclose
  have ⟨lease', hlease', huse⟩ := hof
  have howns : event.Owns lease.use := by
    intro k' hk'
    rw [hlease] at hlease'
    cases hlease'
    rw [hk'.unique huse]
    exact hevent
  rw [Prod.mk.injEq] at hstep
  rw [← hstep.1, ← hstep.2]
  split
  . exact ⟨.closeStep hlease howns, .pc hevent hc rfl nofun⟩
  . refine ⟨.closeStep hlease howns, .same rfl ?_⟩
    intro k' c' l' hk hc'
    rw [hevent] at hk
    cases hk
    rw [hc] at hc'
    cases hc'
    exact hpc l'

theorem exec_change (h : s.Inv) (hexec : s.exec event = some (s', action)) :
    s.pool.Change event action s'.pool ∧ ContextChange s event s' := by
  cases event with
  | initWafContext k =>
    have ⟨hinit, haction⟩ := silent_eq_some hexec
    unfold initWafContext at hinit
    split at hinit
    . next hnone =>
      cases hinit
      refine ⟨.same (by rw [haction]; nofun), .same rfl ?_⟩
      intro k' c l hk hc
      cases hk
      rw [Option.isNone_iff_eq_none.mp hnone.2] at hc
      contradiction
    . contradiction
  | getContextLease k fresh =>
    have ⟨hget, haction⟩ := silent_eq_some hexec
    have ⟨ptr, hptr, hs'⟩ := Option.map_eq_some_iff.mp hget
    have hnone := h.constructing k ptr hptr
    rw [haction]
    dsimp only at hs'
    split at hs'
    . rw [← hs']
      refine ⟨.same nofun, .same rfl ?_⟩
      intro k' c l hk hc
      cases hk
      rw [hnone] at hc
      contradiction
    . next q hq =>
      rw [← hs']
      exact ⟨.getLease hq, .new rfl hnone rfl rfl⟩
  | run k persistent ephemeral =>
    have ⟨c, hc, hstep⟩ := contextStep_eq_some hexec
    have ⟨hrun, haction⟩ := silent_eq_some hstep
    rw [haction]
    unfold run at hrun
    split at hrun
    . next hidle =>
      split at hrun
      . cases hrun
        refine ⟨.same nofun, .pc rfl hc rfl ?_⟩
        intro l
        split
        . nofun
        . exact afterPersistent_ne ephemeral l
      . cases hrun
        refine ⟨.same nofun, .same rfl ?_⟩
        intro k' c' l hk hc'
        cases hk
        rw [hc] at hc'
        cases hc'
        rw [hidle]
        nofun
    . contradiction
  | serializePersistent k content returns =>
    have ⟨c, hc, hstep⟩ := contextStep_eq_some hexec
    have ⟨hser, haction⟩ := silent_eq_some hstep
    rw [haction]
    unfold serializePersistent at hser
    split at hser
    . have ⟨s₁, hwrite, hs'⟩ := Option.map_eq_some_iff.mp hser
      have ⟨lease, _, hs₁⟩ := write_eq_some hwrite
      rw [← hs', hs₁]
      refine ⟨.setContent _ _, .pc rfl hc rfl ?_⟩
      intro l
      split
      . exact afterPersistent_ne _ l
      . nofun
    . contradiction
  | getEphemeralLease k fresh =>
    have ⟨c, hc, hstep⟩ := contextStep_eq_some hexec
    have ⟨hget, haction⟩ := silent_eq_some hstep
    rw [haction]
    unfold getEphemeralLease at hget
    split at hget
    . split at hget
      . cases hget
        exact ⟨.same nofun, .pc rfl hc rfl nofun⟩
      . next q hq =>
        cases hget
        exact ⟨.getLease hq, .pc rfl hc rfl nofun⟩
    . contradiction
  | serializeEphemeral k content returns =>
    have ⟨c, hc, hstep⟩ := contextStep_eq_some hexec
    have ⟨hser, haction⟩ := silent_eq_some hstep
    rw [haction]
    unfold serializeEphemeral at hser
    split at hser
    . next l hpc =>
      have ⟨s₁, hwrite, hs'⟩ := Option.map_eq_some_iff.mp hser
      have ⟨lease, _, hs₁⟩ := write_eq_some hwrite
      rw [← hs', hs₁]
      refine ⟨.setContent _ _, .advance rfl hc rfl ⟨rfl, id, ?_⟩⟩
      intro l' hl'
      cases returns with
      | false => cases hl'
      | true =>
        cases hl'
        exact ⟨⟨content, rfl⟩, hpc⟩
    . contradiction
  | runWafContext k =>
    have ⟨c, hc, hstep⟩ := contextStep_eq_some hexec
    have ⟨hrun, haction⟩ := silent_eq_some hstep
    rw [haction]
    unfold runWafContext at hrun
    split at hrun
    . cases hrun
      exact ⟨.same nofun, .pc rfl hc rfl nofun⟩
    . contradiction
  | leaveRun k =>
    have ⟨c, hc, hleave⟩ := contextStep_eq_some hexec
    unfold leaveRun at hleave
    split at hleave
    . cases hleave
      exact ⟨.same nofun, .pc rfl hc rfl nofun⟩
    . next l hpc =>
      have ⟨lease, hlease, huse, _⟩ := (h.contexts k c hc).ephemeral l (by rw [hpc]; rfl)
      exact change_closeFor hc rfl (by rw [hpc]; nofun) ⟨lease, hlease, Or.inr huse⟩ hleave
    . contradiction
  | close k =>
    have ⟨c, hc, hstep⟩ := contextStep_eq_some hexec
    have ⟨hclose, haction⟩ := silent_eq_some hstep
    rw [haction]
    unfold close at hclose
    split at hclose
    . next hidle =>
      split at hclose
      . cases hclose
        exact ⟨.same nofun, .advance rfl hc rfl ⟨rfl, id, nofun⟩⟩
      . cases hclose
        refine ⟨.same nofun, .same rfl ?_⟩
        intro k' c' l hk hc'
        cases hk
        rw [hc] at hc'
        cases hc'
        rw [hidle]
        nofun
    . contradiction
  | clearWafContext k =>
    have ⟨c, hc, hclear⟩ := contextStep_eq_some hexec
    unfold clearWafContext at hclear
    split at hclear
    . split at hclear
      . cases hclear
        exact ⟨.same nofun, .advance rfl hc rfl ⟨rfl, nofun, nofun⟩⟩
      . cases hclear
        exact ⟨.same nofun, .advance rfl hc rfl ⟨rfl, nofun, nofun⟩⟩
    . contradiction
  | closeContextLease k =>
    have ⟨c, hc, hclose⟩ := contextStep_eq_some hexec
    unfold closeContextLease at hclose
    split at hclose
    . next hpc =>
      have ⟨lease, hlease, huse, _⟩ := (h.contexts k c hc).lease
      exact change_closeFor hc rfl (by rw [hpc]; nofun) ⟨lease, hlease, Or.inl huse⟩ hclose
    . contradiction
  | getLease fresh inSerialize =>
    cases hexec
    unfold getLease
    split
    . exact ⟨.same nofun, .none rfl rfl⟩
    . next q hq => exact ⟨.getLease hq, .none rfl rfl⟩
  | serialize l content outcome =>
    have ⟨hser, haction⟩ := silent_eq_some hexec
    rw [haction]
    unfold serialize at hser
    split at hser
    . next lease hlease =>
      split at hser
      . next huse =>
        cases hser
        refine ⟨.serialize hlease ?_ content _, .none rfl rfl⟩
        intro k hk
        rw [huse.1] at hk
        rcases hk with hk | hk <;> contradiction
      . contradiction
    . contradiction
  | serializeMore l content =>
    have ⟨hser, haction⟩ := silent_eq_some hexec
    rw [haction]
    unfold serializeMore at hser
    split at hser
    . split at hser
      . have ⟨lease, _, hs'⟩ := write_eq_some hser
        rw [hs']
        exact ⟨.setContent _ _, .none rfl rfl⟩
      . contradiction
    . contradiction
  | closeLease l =>
    have hclose : s.closeLease l = some (s', action) := hexec
    unfold closeLease at hclose
    split at hclose
    . next lease hlease =>
      split at hclose
      . next huse =>
        have howns (lease') (hlease' : s.pool.leases l = some lease') :
            (PoolEvent.closeLease l).Owns lease'.use := by
          intro k hk
          rw [hlease] at hlease'
          cases hlease'
          rcases hk with hk | hk <;> rw [hk] at huse <;> rcases huse with huse | huse <;> contradiction
        have ⟨hchange, hcontexts⟩ := change_closeStep hclose howns
        exact ⟨hchange, .none hcontexts rfl⟩
      . contradiction
    . contradiction

end PoolState

end Ddwaf
