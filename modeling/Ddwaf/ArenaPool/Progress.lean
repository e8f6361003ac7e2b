import Ddwaf.ArenaPool.Steps

/-!
This module contains the proof that `run` and `close` come to their ends in every interleaving, and
what holds of the arenas in every reachable state.
-/

namespace Ddwaf

def LeaseStage.stepsLeft : LeaseStage → Nat
  | .unclosed => 3
  | .marked => 2
  | .reset | .returned => 1

theorem LeaseStage.stepsLeft_next {stage : LeaseStage} (h : stage.endsClose = false) :
    stage.next.stepsLeft < stage.stepsLeft := by
  cases stage <;> simp [endsClose] at h <;> decide

theorem LeaseStage.stepsLeft_pos (stage : LeaseStage) : 0 < stage.stepsLeft := by
  cases stage <;> decide

/-- How many steps a context has before it, at most, until it is outside of `run` and `close`, where
`left` says how many each of its leases has to the end of `close`. -/
def ContextPc.stepsLeft (left : Nat → Nat) (lease : Nat) : ContextPc → Nat
  | .idle => 0
  | .serializePersistent _ => 7
  | .getEphemeralLease => 6
  | .serializeEphemeral l => left l + 2
  | .runWafContext none => 2
  | .runWafContext (some l) => left l + 1
  | .leave none => 1
  | .leave (some l) => left l
  | .clearWafContext => left lease + 1
  | .closeLease => left lease

namespace PoolState

variable {κ : Type} (s : PoolState κ)

def closeStepsLeft (l : Nat) : Nat :=
  match s.pool.leases l with
  | some lease => lease.stage.stepsLeft
  | none => 0

def stepsLeft (c : PooledContext) : Nat := c.pc.stepsLeft s.closeStepsLeft c.lease

variable {s s' : PoolState κ} {c : PooledContext}

theorem closeStepsLeft_eq (h : s.pool.leases l = some lease) :
    s.closeStepsLeft l = lease.stage.stepsLeft := by
  simp only [closeStepsLeft, h]

theorem stepsLeft_congr (hlease : s'.pool.leases c.lease = s.pool.leases c.lease)
    (hephemeral : ∀ l, c.pc.ephemeralLease = some l → s'.pool.leases l = s.pool.leases l) :
    s'.stepsLeft c = s.stepsLeft c := by
  unfold stepsLeft
  have hleft : s'.closeStepsLeft c.lease = s.closeStepsLeft c.lease := by
    rw [closeStepsLeft, hlease, closeStepsLeft]
  have hleft' : ∀ l, c.pc.ephemeralLease = some l → s'.closeStepsLeft l = s.closeStepsLeft l := by
    intro l hl
    rw [closeStepsLeft, hephemeral l hl, closeStepsLeft]
  cases hpc : c.pc with
  | idle => rfl
  | serializePersistent ephemeral => rfl
  | getEphemeralLease => rfl
  | serializeEphemeral l => exact congrArg (· + 2) (hleft' l (by rw [hpc]; rfl))
  | runWafContext l =>
    cases l with
    | none => rfl
    | some l => exact congrArg (· + 1) (hleft' l (by rw [hpc]; rfl))
  | leave l =>
    cases l with
    | none => rfl
    | some l => exact hleft' l (by rw [hpc]; rfl)
  | clearWafContext => exact congrArg (· + 1) hleft
  | closeLease => exact hleft

theorem stepsLeft_afterPersistent (left : Nat → Nat) (lease : Nat) (ephemeral : Bool) :
    (afterPersistent ephemeral).stepsLeft left lease ≤ 6 := by
  cases ephemeral <;> simp [afterPersistent, ContextPc.stepsLeft]

theorem exists_serializesTo (a : Arena) : ∃ content, SerializesTo a content :=
  ⟨_, Bool, sampleCall, { emptyState with arena := a }, rfl, rfl⟩

theorem exists_contentOk (s : PoolState κ) (hlease : s.pool.leases l = some lease) :
    ∃ content, s.contentOk l content := by
  obtain ⟨content, hcontent⟩ := exists_serializesTo (s.pool.contents lease.arena)
  refine ⟨content, ?_⟩
  intro lease' hlease'
  obtain rfl := Option.some.inj (hlease.symm.trans hlease')
  exact hcontent

variable [DecidableEq κ] {k : κ}

def Nearer (s : PoolState κ) (k : κ) (c : PooledContext) (s' : PoolState κ) : Prop :=
  ∃ c', s'.contexts k = some c' ∧ s'.stepsLeft c' < s.stepsLeft c

theorem nearer_closeFor (hc : s.contexts k = some c) (hlease : s.pool.leases l = some lease)
    (hleft : ∀ t : PoolState κ, t.stepsLeft c = t.closeStepsLeft l)
    (hclose : s.closeFor k l c = some (s', action)) : s.Nearer k c s' := by
  simp only [closeFor, hlease, Option.map_some, Option.some.injEq, Prod.mk.injEq] at hclose
  obtain ⟨hs', -⟩ := hclose
  rw [← hs', Nearer, hleft, closeStepsLeft_eq hlease]
  split
  . exact ⟨{ c with pc := .idle }, setContext_self .., lease.stage.stepsLeft_pos⟩
  . next hends =>
    refine ⟨c, hc, ?_⟩
    rw [hleft, closeStepsLeft_eq (ArenaPool.closeStep_self s.pool hlease)]
    exact LeaseStage.stepsLeft_next (by simpa using hends)

theorem nearer_setContext (c' : PooledContext) (h : (s'.setContext k c').stepsLeft c' < s.stepsLeft c) :
    s.Nearer k c (s'.setContext k c') :=
  ⟨c', setContext_self .., h⟩

theorem Inv.nearer (h : s.Inv) (hc : s.contexts k = some c) (hpc : c.pc ≠ .idle)
    {event : PoolEvent κ} (hevent : event.context = some k) (hexec : s.exec event = some (s', action)) :
    s.Nearer k c s' := by
  have hok := h.contexts k c hc
  have hcontext : ∀ f, s.contextStep k f = some (s', action) → f c = some (s', action) := by
    intro f hf
    obtain ⟨c', hc', hstep⟩ := contextStep_eq_some hf
    rw [hc] at hc'
    cases hc'
    exact hstep
  cases event with
  | initWafContext k' =>
    cases hevent
    obtain ⟨hinit, -⟩ := silent_eq_some hexec
    simp [PoolState.initWafContext, hc] at hinit
  | getContextLease k' fresh =>
    cases hevent
    obtain ⟨hget, -⟩ := silent_eq_some hexec
    obtain ⟨ptr, hptr, -⟩ := Option.map_eq_some_iff.mp hget
    rw [h.constructing k ptr hptr] at hc
    contradiction
  | run k' persistent ephemeral =>
    cases hevent
    obtain ⟨hrun, -⟩ := silent_eq_some (hcontext _ hexec)
    simp [PoolState.run, hpc] at hrun
  | serializePersistent k' content returns =>
    cases hevent
    obtain ⟨hser, -⟩ := silent_eq_some (hcontext _ hexec)
    unfold PoolState.serializePersistent at hser
    split at hser
    . next ephemeral hpc' =>
      obtain ⟨s₁, -, rfl⟩ := Option.map_eq_some_iff.mp hser
      apply nearer_setContext
      have hleft : s.stepsLeft c = 7 := by rw [stepsLeft, hpc', ContextPc.stepsLeft]
      rw [hleft, Nat.lt_succ_iff]
      cases returns with
      | true => exact stepsLeft_afterPersistent _ _ ephemeral
      | false => exact Nat.le_of_ble_eq_true rfl
    . contradiction
  | getEphemeralLease k' fresh =>
    cases hevent
    obtain ⟨hget, -⟩ := silent_eq_some (hcontext _ hexec)
    unfold PoolState.getEphemeralLease at hget
    split at hget
    . next hpc' =>
      have hleft : s.stepsLeft c = 6 := by rw [stepsLeft, hpc', ContextPc.stepsLeft]
      split at hget
      . cases hget
        apply nearer_setContext
        rw [hleft]
        exact Nat.le_of_ble_eq_true rfl
      . next q hq =>
        cases hget
        obtain ⟨a, hnew⟩ := ArenaPool.getLease_nextLease hq
        apply nearer_setContext
        have hleft' : (s.setPool q).closeStepsLeft s.pool.nextLease = 3 :=
          closeStepsLeft_eq (s := s.setPool q) hnew
        rw [hleft]
        exact Nat.lt_of_le_of_lt (Nat.le_of_eq (congrArg (· + 2) hleft')) (by decide)
    . contradiction
  | serializeEphemeral k' content returns =>
    cases hevent
    obtain ⟨hser, -⟩ := silent_eq_some (hcontext _ hexec)
    unfold PoolState.serializeEphemeral at hser
    split at hser
    . next l hpc' =>
      obtain ⟨s₁, hwrite, rfl⟩ := Option.map_eq_some_iff.mp hser
      obtain ⟨lease, -, rfl⟩ := write_eq_some hwrite
      apply nearer_setContext
      have hleft : s.stepsLeft c = s.closeStepsLeft l + 2 := by rw [stepsLeft, hpc', ContextPc.stepsLeft]
      rw [hleft]
      cases returns with
      | true => exact Nat.lt_succ_self _
      | false => exact Nat.lt_add_of_pos_right (by decide)
    . contradiction
  | runWafContext k' =>
    cases hevent
    obtain ⟨hrun, -⟩ := silent_eq_some (hcontext _ hexec)
    unfold PoolState.runWafContext at hrun
    split at hrun
    . next l hpc' =>
      cases hrun
      apply nearer_setContext
      cases l with
      | none =>
        rw [show s.stepsLeft c = 2 by rw [stepsLeft, hpc', ContextPc.stepsLeft]]
        exact Nat.lt_succ_self _
      | some l =>
        rw [show s.stepsLeft c = s.closeStepsLeft l + 1 by rw [stepsLeft, hpc', ContextPc.stepsLeft]]
        exact Nat.lt_succ_self _
    . contradiction
  | leaveRun k' =>
    cases hevent
    have hleave := hcontext _ hexec
    unfold PoolState.leaveRun at hleave
    split at hleave
    . next hpc' =>
      cases hleave
      apply nearer_setContext
      rw [show s.stepsLeft c = 1 by rw [stepsLeft, hpc', ContextPc.stepsLeft]]
      exact Nat.zero_lt_one
    . next l hpc' =>
      obtain ⟨lease, hlease, -⟩ := hok.ephemeral l (by rw [hpc']; rfl)
      exact nearer_closeFor hc hlease (fun t => by rw [stepsLeft, hpc', ContextPc.stepsLeft]) hleave
    . contradiction
  | close k' =>
    cases hevent
    obtain ⟨hclose, -⟩ := silent_eq_some (hcontext _ hexec)
    simp [PoolState.close, hpc] at hclose
  | clearWafContext k' =>
    cases hevent
    have hclear := hcontext _ hexec
    unfold PoolState.clearWafContext at hclear
    split at hclear
    . next hpc' =>
      have hleft : s.stepsLeft c = s.closeStepsLeft c.lease + 1 := by rw [stepsLeft, hpc', ContextPc.stepsLeft]
      split at hclear
      . cases hclear
        apply nearer_setContext
        rw [hleft]
        exact Nat.lt_succ_self _
      . cases hclear
        apply nearer_setContext
        rw [hleft]
        exact Nat.lt_succ_self _
    . contradiction
  | closeContextLease k' =>
    cases hevent
    have hclose := hcontext _ hexec
    unfold PoolState.closeContextLease at hclose
    split at hclose
    . next hpc' =>
      obtain ⟨lease, hlease, -⟩ := hok.lease
      exact nearer_closeFor hc hlease (fun t => by rw [stepsLeft, hpc', ContextPc.stepsLeft]) hclose
    . contradiction
  | getLease fresh inSerialize => contradiction
  | serialize l content outcome => contradiction
  | serializeMore l content => contradiction
  | closeLease l => contradiction

theorem Inv.stepsLeft_eq (h : s.Inv) (hc : s.contexts k = some c) {event : PoolEvent κ}
    (hevent : event.context ≠ some k) (hexec : s.exec event = some (s', action)) :
    s'.contexts k = some c ∧ s'.stepsLeft c = s.stepsLeft c := by
  have hok := h.contexts k c hc
  obtain ⟨hpool, hcontexts⟩ := exec_change h hexec
  constructor
  . cases hcontexts with
    | same hsame _ =>
      rw [hsame]
      exact hc
    | @new k' c' hevent' _ hnew _ =>
      have hne : k ≠ k' := fun heq => hevent (heq ▸ hevent')
      rw [hnew, Function.update_of_ne hne]
      exact hc
    | @advance k' c' c'' hevent' _ hnew _ =>
      have hne : k ≠ k' := fun heq => hevent (heq ▸ hevent')
      rw [hnew, Function.update_of_ne hne]
      exact hc
  . have hkept : ∀ l lease, s.pool.leases l = some lease → OfContext lease.use k →
        s'.pool.leases l = s.pool.leases l := by
      intro l lease hlease hof
      rw [hlease]
      exact hpool.lease_eq h.pool hlease hof hevent
    apply stepsLeft_congr
    . obtain ⟨lease, hlease, huse, -⟩ := hok.lease
      exact hkept _ lease hlease (Or.inl huse)
    . intro l hl
      obtain ⟨lease, hlease, huse, -⟩ := hok.ephemeral l hl
      exact hkept l lease hlease (Or.inr huse)

theorem Inv.exists_step (h : s.Inv) (hc : s.contexts k = some c) (hpc : c.pc ≠ .idle) :
    ∃ event action s', event.context = some k ∧ (system κ).step s (event, action) s' := by
  have hok := h.contexts k c hc
  obtain ⟨lease, hlease, -⟩ := hok.lease
  have hstep : ∀ (event : PoolEvent κ) (f : PooledContext → Option (PoolState κ × Option PoolAction)),
      event.context = some k → s.EventOk event → s.exec event = s.contextStep k f →
      (f c).isSome = true → ∃ event action s', event.context = some k ∧
        (system κ).step s (event, action) s' := by
    intro event f hevent hevok hexec hf
    obtain ⟨⟨s', action⟩, hs'⟩ := Option.isSome_iff_exists.mp hf
    refine ⟨event, action, s', hevent, hevok, ?_⟩
    rw [hexec, contextStep, hc, Option.bind_some, hs']
  cases hpc' : c.pc with
  | idle => exact absurd hpc' hpc
  | serializePersistent ephemeral =>
    obtain ⟨content, hcontent⟩ := exists_contentOk s hlease
    apply hstep (.serializePersistent k content true) _ rfl
    . intro c' hc'
      obtain rfl := Option.some.inj (hc.symm.trans hc')
      exact hcontent
    . rfl
    . simp [PoolState.serializePersistent, hpc', write, hlease, silent]
  | getEphemeralLease =>
    apply hstep (.getEphemeralLease k (some bumpArena)) _ rfl
    . intro a ha
      exact Option.some.inj ha ▸ ⟨bumpAllocator, emptyState, by rw [newArena_bump]⟩
    . rfl
    . simp only [PoolState.getEphemeralLease, hpc', if_true]
      split <;> rfl
  | serializeEphemeral l =>
    obtain ⟨lease', hlease', -⟩ := hok.ephemeral l (by rw [hpc']; rfl)
    obtain ⟨content, hcontent⟩ := exists_contentOk s hlease'
    apply hstep (.serializeEphemeral k content true) _ rfl
    . intro c' l' hc' hl'
      obtain rfl := Option.some.inj (hc.symm.trans hc')
      rw [hpc'] at hl'
      cases hl'
      exact hcontent
    . rfl
    . simp [PoolState.serializeEphemeral, hpc', write, hlease', silent]
  | runWafContext l =>
    apply hstep (.runWafContext k) _ rfl trivial rfl
    simp [PoolState.runWafContext, hpc', silent]
  | leave l =>
    cases l with
    | none =>
      apply hstep (.leaveRun k) _ rfl trivial rfl
      simp [PoolState.leaveRun, hpc']
    | some l =>
      obtain ⟨lease', hlease', -⟩ := hok.ephemeral l (by rw [hpc']; rfl)
      apply hstep (.leaveRun k) _ rfl trivial rfl
      simp [PoolState.leaveRun, hpc', PoolState.closeFor, hlease']
  | clearWafContext =>
    cases hptr : c.ptr with
    | none =>
      apply hstep (.clearWafContext k) _ rfl trivial rfl
      simp [PoolState.clearWafContext, hpc', hptr]
    | some ptr =>
      apply hstep (.clearWafContext k) _ rfl trivial rfl
      simp [PoolState.clearWafContext, hpc', hptr]
  | closeLease =>
    apply hstep (.closeContextLease k) _ rfl trivial rfl
    simp [PoolState.closeContextLease, hpc', PoolState.closeFor, hlease]

/-- Whatever the others do, a context that is in `run` or `close` can take a step, and comes nearer to
the end by each. -/
structure Ends (s : PoolState κ) (k : κ) (c : PooledContext) : Prop where
  exists_step : c.pc ≠ .idle →
    ∃ event action s', event.context = some k ∧ (system κ).step s (event, action) s'
  nearer : ∀ event action s', (system κ).step s (event, action) s' → event.context = some k →
    c.pc ≠ .idle → ∃ c', s'.contexts k = some c' ∧ s'.stepsLeft c' < s.stepsLeft c
  others : ∀ event action s', (system κ).step s (event, action) s' → event.context ≠ some k →
    s'.contexts k = some c ∧ s'.stepsLeft c = s.stepsLeft c

theorem Inv.ends (h : s.Inv) (hc : s.contexts k = some c) : s.Ends k c := by
  constructor
  . exact h.exists_step hc
  . intro event action s' hstep hevent hpc
    exact h.nearer hc hpc hevent hstep.2
  . intro event action s' hstep hevent
    exact h.stepsLeft_eq hc hevent hstep.2

/-- Who has a lease of its own can close it at any time, and again. -/
structure Closes (s : PoolState κ) (l : Nat) (lease : ArenaLease κ) : Prop where
  exists_step : ∃ action s', (system κ).step s (.closeLease l, action) s'
  next : ∀ action s', (system κ).step s (.closeLease l, action) s' →
    s'.pool.leases l = some { lease with stage := lease.stage.next }
  again : lease.stage = .returned → ∀ action s', (system κ).step s (.closeLease l, action) s' →
    action = none ∧ s' = s

theorem closes (hlease : s.pool.leases l = some lease) (huse : lease.use = .plain ∨ lease.use = .failed) :
    s.Closes l lease := by
  have hexec : s.exec (.closeLease l) =
      some (s.setPool (s.pool.closeStep l lease).1, (s.pool.closeStep l lease).2) := by
    simp [PoolState.exec, PoolState.closeLease, PoolState.closeStep, hlease, huse]
  constructor
  . exact ⟨_, _, trivial, hexec⟩
  . intro action s' hstep
    have heq := hstep.2.symm.trans hexec
    cases heq
    exact ArenaPool.closeStep_self s.pool hlease
  . intro hreturned action s' hstep
    have heq := hstep.2.symm.trans hexec
    have hclosed : s.pool.closeStep l lease = (s.pool, none) := by
      simp [ArenaPool.closeStep, hreturned]
    rw [hclosed] at heq
    cases heq
    exact ⟨rfl, rfl⟩

/-- An arena belongs to the pool once and to no lease, or to one lease and not to the pool. Both the
pool and the native side only get what the code means to give them, and every `run` and `close` ends
with its lease returned. -/
theorem arenas_owned {ls : List (PoolEvent κ × Option PoolAction)} (hrun : (system κ).Reaches ls s) :
    (∀ a < s.pool.nextArena,
      (s.pool.arenas.count a = 1 ∧ ∀ l, ¬s.pool.Holds l a) ∨
        (s.pool.arenas.count a = 0 ∧ ∃! l, s.pool.Holds l a)) ∧
    (∀ a ∈ s.pool.arenas, (s.pool.contents a).IsReset) ∧
    (∀ l, s.pool.returned.count l ≤ 1) ∧
    (∀ k l lease, s.pool.leases l = some lease → lease.use = .ephemeral k →
      s.pool.returned.count l ≤ 1 ∧
        ((∀ c, s.contexts k = some c → c.pc.ephemeralLease ≠ some l) →
          s.pool.returned.count l = 1)) ∧
    s.destroyed.Nodup ∧
    (∀ k c, s.contexts k = some c → c.cleared = false →
      ∃ lease, s.pool.leases c.lease = some lease ∧ lease.stage = .unclosed ∧
        ∀ event action s', (system κ).step s (event, action) s' →
          action ≠ some (.reset lease.arena) ∧ action ≠ some (.addFirst lease.arena)) ∧
    (∀ k c, s.contexts k = some c → s.Ends k c ∧
      (c.online = false → c.pc = .idle → s.pool.returned.count c.lease = 1)) ∧
    (∀ l lease, s.pool.leases l = some lease → (lease.use = .plain ∨ lease.use = .failed) →
      s.Closes l lease) ∧
    ∀ event action s', (system κ).step s (event, action) s' →
      s'.pool.returned = s.pool.returned ∨
        ∃ l lease, s.pool.leases l = some lease ∧ s'.pool.returned = l :: s.pool.returned ∧
          s'.pool.arenas = lease.arena :: s.pool.arenas := by
  have h := system_inv.reaches hrun
  have hcount := List.nodup_iff_count_le_one.mp h.pool.returned_nodup
  have hone : ∀ l, s.pool.Returned l → s.pool.returned.count l = 1 := by
    intro l hl
    exact List.count_eq_one_of_mem h.pool.returned_nodup ((h.pool.mem_returned l).mpr hl)
  refine ⟨?_, h.pool.pooled_reset, hcount, ?_, h.native.nodup, ?_, ?_, ?_, ?_⟩
  . intro a ha
    rcases h.pool.owned a ha with hmem | ⟨l, hl⟩
    . exact Or.inl ⟨List.count_eq_one_of_mem h.pool.nodup hmem, fun l hl => h.pool.notMem l a hl hmem⟩
    . exact Or.inr ⟨List.count_eq_zero_of_not_mem (h.pool.notMem l a hl), l, hl,
        fun l' hl' => h.pool.unique l' l a hl' hl⟩
  . intro k l lease hlease huse
    refine ⟨hcount l, ?_⟩
    intro hnot
    apply hone
    rcases h.ephemerals l lease k hlease huse with hstage | ⟨c, hc, hl⟩
    . exact ⟨lease, hlease, hstage⟩
    . exact absurd hl (hnot c hc)
  . intro k c hc hcleared
    obtain ⟨lease, hlease, -, hstage⟩ := (h.contexts k c hc).lease
    refine ⟨lease, hlease, hstage hcleared, ?_⟩
    intro event action s' hstep
    exact (h.exec hstep.2).2 k c lease hc hcleared hlease
  . intro k c hc
    refine ⟨h.ends hc, ?_⟩
    intro honline hidle
    exact hone c.lease ((h.contexts k c hc).closed honline hidle)
  . intro l lease hlease huse
    exact closes hlease huse
  . intro event action s' hstep
    rcases (exec_change h hstep.2).1.giveBack with hsame | ⟨l, lease, hlease, -, hback⟩
    . exact Or.inl hsame
    . exact Or.inr ⟨l, lease, hlease, hback⟩

def sampleStart : PoolState Unit where
  pool := ⟨[], fun _ => bumpArena, 0, fun _ => none, 0, []⟩
  starting _ := none
  contexts _ := none
  nextContext := 0
  destroyed := []

theorem newArena_bumpArena : ∀ a, some bumpArena = some a → NewArena a := by
  intro a ha
  rw [← Option.some.inj ha]
  exact ⟨bumpAllocator, emptyState, by rw [newArena_bump]⟩

section Sample

variable {t u : PoolState Unit} {ls : List (PoolEvent Unit × Option PoolAction)}

theorem sample_step (hrun : (system Unit).Reaches ls t) (event : PoolEvent Unit)
    (hok : t.EventOk event) (hexec : t.exec event = some (u, action)) :
    (system Unit).Reaches (ls ++ [(event, action)]) u :=
  hrun.step ⟨hok, hexec⟩

end Sample

theorem sample_reaches : ∃ ls s, (system Unit).Reaches ls s ∧ s.pool.nextArena = 2 ∧
    s.pool.arenas = [0, 1] ∧ s.pool.returned = [0, 2, 1] ∧ s.destroyed = [0] := by
  obtain ⟨content, hcontent⟩ := exists_serializesTo bumpArena
  obtain ⟨content', hcontent'⟩ := exists_serializesTo content.reset
  have hinit : (system Unit).init sampleStart := by
    simp [system, sampleStart]
  have hrun := sample_step (.init hinit) (.initWafContext ()) trivial rfl
  have hrun := sample_step hrun (.getContextLease () (some bumpArena)) newArena_bumpArena rfl
  have hrun := sample_step hrun (.run () true true) trivial rfl
  have hrun := sample_step hrun (.serializePersistent () content true)
    (by intro c hc lease hlease; cases hc; cases hlease; exact hcontent) rfl
  have hrun := sample_step hrun (.getEphemeralLease () (some bumpArena)) newArena_bumpArena rfl
  have hrun := sample_step hrun (.serializeEphemeral () content true)
    (by intro c l hc hl lease hlease; cases hc; cases hl; cases hlease; exact hcontent) rfl
  have hrun := sample_step hrun (.runWafContext ()) trivial rfl
  have hrun := sample_step hrun (.leaveRun ()) trivial rfl
  have hrun := sample_step hrun (.leaveRun ()) trivial rfl
  have hrun := sample_step hrun (.leaveRun ()) trivial rfl
  have hrun := sample_step hrun (.getLease none true) nofun rfl
  have hrun := sample_step hrun (.serialize 2 content' .returns)
    (by intro lease hlease; cases hlease; exact hcontent') rfl
  have hrun := sample_step hrun (.closeLease 2) trivial rfl
  have hrun := sample_step hrun (.closeLease 2) trivial rfl
  have hrun := sample_step hrun (.closeLease 2) trivial rfl
  have hrun := sample_step hrun (.closeLease 2) trivial rfl
  have hrun := sample_step hrun (.close ()) trivial rfl
  have hrun := sample_step hrun (.clearWafContext ()) trivial rfl
  have hrun := sample_step hrun (.closeContextLease ()) trivial rfl
  have hrun := sample_step hrun (.closeContextLease ()) trivial rfl
  have hrun := sample_step hrun (.closeContextLease ()) trivial rfl
  exact ⟨_, _, hrun, rfl, rfl, rfl, rfl⟩

theorem arenas_owned_sample :
    ∃ ls s, (system Unit).Reaches ls s ∧ s.pool.returned = [0, 2, 1] ∧ s.destroyed = [0] ∧
      (∀ a ∈ [0, 1], (s.pool.contents a).IsReset) ∧
      s.pool.arenas.count 1 = 1 ∧ ∀ l, ¬s.pool.Holds l 1 := by
  obtain ⟨ls, s, hrun, hnext, harenas, hreturned, hdestroyed⟩ := sample_reaches
  obtain ⟨howned, hreset, -⟩ := arenas_owned hrun
  rw [harenas] at hreset
  rcases howned 1 (by rw [hnext]; decide) with howned | ⟨hcount, -⟩
  . exact ⟨ls, s, hrun, hreturned, hdestroyed, hreset, howned⟩
  . rw [harenas] at hcount
    contradiction

end PoolState

end Ddwaf
