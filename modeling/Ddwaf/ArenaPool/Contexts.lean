import Ddwaf.ArenaPool.Ownership
import Mathlib.Data.List.Nodup

/-!
This module contains what holds of the contexts and the leases in every interleaving of their steps.
-/

namespace Ddwaf

def ContextPc.inRun : ContextPc → Bool
  | .idle | .clearWafContext | .closeLease => false
  | _ => true

namespace PoolState

variable {κ : Type} {s s' : PoolState κ} {p q : ArenaPool κ}

@[simp]
theorem setPool_pool (s : PoolState κ) (q : ArenaPool κ) : (s.setPool q).pool = q := by
  rfl

def OfContext (use : LeaseUse κ) (k : κ) : Prop := use = .persistent k ∨ use = .ephemeral k

theorem OfContext.unique {use : LeaseUse κ} {k k' : κ} (h : OfContext use k) (h' : OfContext use k') :
    k = k' := by
  rcases h with rfl | rfl
  . rcases h' with h' | h' <;> cases h'
    rfl
  . rcases h' with h' | h' <;> cases h'
    rfl

structure ContextOk (p : ArenaPool κ) (k : κ) (c : PooledContext) : Prop where
  lease : ∃ lease, p.leases c.lease = some lease ∧ lease.use = .persistent k ∧
    (c.cleared = false → lease.stage = .unclosed)
  closed : c.online = false → c.pc = .idle → p.Returned c.lease
  ephemeral : ∀ l, c.pc.ephemeralLease = some l → ∃ lease, p.leases l = some lease ∧
    lease.use = .ephemeral k ∧ (c.pc ≠ .leave (some l) → lease.stage = .unclosed)
  running : c.pc.inRun = true → c.online = true
  online : c.online = true → c.cleared = false
  clearing : c.pc = .clearWafContext → c.online = false
  closing : c.pc = .closeLease → c.cleared = true

theorem ContextOk.mono (h : ContextOk p k c)
    (hkeep : ∀ l lease, p.leases l = some lease → OfContext lease.use k →
      q.leases l = some lease) : ContextOk q k c := by
  obtain ⟨lease, hlease, huse, hstage⟩ := h.lease
  constructor
  . exact ⟨lease, hkeep _ lease hlease (Or.inl huse), huse, hstage⟩
  . intro honline hidle
    obtain ⟨lease', hlease', hreturned⟩ := h.closed honline hidle
    obtain rfl : lease = lease' := Option.some.inj (hlease.symm.trans hlease')
    exact ⟨lease, hkeep _ lease hlease (Or.inl huse), hreturned⟩
  . intro l hl
    obtain ⟨lease', hlease', huse', hstage'⟩ := h.ephemeral l hl
    exact ⟨lease', hkeep l lease' hlease' (Or.inr huse'), huse', hstage'⟩
  . exact h.running
  . exact h.online
  . exact h.clearing
  . exact h.closing

inductive HasNative (s : PoolState κ) : κ ⊕ κ → Nat → Prop where
  | starting (h : s.starting k = some n) : HasNative s (.inl k) n
  | context (h : s.contexts k = some c) (hptr : c.ptr = some n) : HasNative s (.inr k) n

structure NativeInv (s : PoolState κ) : Prop where
  lt : ∀ x n, s.HasNative x n → n < s.nextContext
  destroyed_lt : ∀ n ∈ s.destroyed, n < s.nextContext
  notMem : ∀ x n, s.HasNative x n → n ∉ s.destroyed
  unique : ∀ x y n, s.HasNative x n → s.HasNative y n → x = y
  nodup : s.destroyed.Nodup

theorem NativeInv.mono (h : s.NativeInv) (hnative : ∀ x n, s'.HasNative x n → s.HasNative x n)
    (hnext : s'.nextContext = s.nextContext) (hdestroyed : s'.destroyed = s.destroyed) :
    s'.NativeInv := by
  constructor
  . intro x n hx
    rw [hnext]
    exact h.lt x n (hnative x n hx)
  . rw [hnext, hdestroyed]
    exact h.destroyed_lt
  . intro x n hx
    rw [hdestroyed]
    exact h.notMem x n (hnative x n hx)
  . intro x y n hx hy
    exact h.unique x y n (hnative x n hx) (hnative y n hy)
  . rw [hdestroyed]
    exact h.nodup

structure Inv (s : PoolState κ) : Prop where
  pool : s.pool.Inv
  contexts : ∀ k c, s.contexts k = some c → ContextOk s.pool k c
  ephemerals : ∀ l lease k, s.pool.leases l = some lease → lease.use = .ephemeral k →
    lease.stage = .returned ∨ ∃ c, s.contexts k = some c ∧ c.pc.ephemeralLease = some l
  constructing : ∀ k n, s.starting k = some n → s.contexts k = none
  native : s.NativeInv

theorem NativeInv.setPool (h : s.NativeInv) (q : ArenaPool κ) : (s.setPool q).NativeInv := by
  apply h.mono
  . intro x n hx
    cases hx with
    | starting h => exact .starting h
    | context h hptr => exact .context h hptr
  . rfl
  . rfl

theorem Inv.setPool (h : s.Inv) (hq : q.Inv)
    (hkeep : ∀ k l lease, s.pool.leases l = some lease → OfContext lease.use k →
      q.leases l = some lease)
    (hnew : ∀ k l lease, q.leases l = some lease → OfContext lease.use k →
      s.pool.leases l = some lease) : (s.setPool q).Inv := by
  constructor
  . exact hq
  . intro k c hc
    exact (h.contexts k c hc).mono (hkeep k)
  . intro l lease k hlease huse
    exact h.ephemerals l lease k (hnew k l lease hlease (Or.inr huse)) huse
  . exact h.constructing
  . exact h.native.setPool q

theorem Inv.setContent (h : s.Inv) (hlease : s.pool.leases l = some lease)
    (hstage : lease.stage = .unclosed) (content : Arena) :
    (s.setPool (s.pool.setContent lease.arena content)).Inv :=
  h.setPool (h.pool.setContent hlease (Or.inl hstage) content) (fun _ _ _ hl _ => hl)
    (fun _ _ _ hl _ => hl)

theorem Inv.getPlainLease (h : s.Inv) (hget : s.pool.getLease fresh use = some q)
    (huse : ∀ k, ¬OfContext use k) : (s.setPool q).Inv := by
  apply h.setPool (h.pool.getLease hget)
  . intro k l lease hlease _
    exact h.pool.getLease_keep hget hlease
  . intro k l lease hlease hof
    rcases ArenaPool.getLease_new hget hlease with ⟨-, rfl, -⟩ | hlease
    . exact absurd hof (huse k)
    . exact hlease

def Untouched (s : PoolState κ) (action : Option PoolAction) : Prop :=
  ∀ k c lease, s.contexts k = some c → c.cleared = false → s.pool.leases c.lease = some lease →
    action ≠ some (.reset lease.arena) ∧ action ≠ some (.addFirst lease.arena)

theorem untouched_none (s : PoolState κ) : s.Untouched none :=
  fun _ _ _ _ _ _ => ⟨nofun, nofun⟩

theorem Inv.untouched_closeStep (h : s.Inv) (hlease : s.pool.leases l = some lease)
    (hne : ∀ k c, s.contexts k = some c → c.cleared = false → c.lease ≠ l) :
    s.Untouched (s.pool.closeStep l lease).2 := by
  intro k c lease' hc hcleared hlease'
  obtain ⟨lease'', hlease'', -, hstage⟩ := (h.contexts k c hc).lease
  rw [hlease', Option.some.injEq] at hlease''
  rw [← hlease''] at hstage
  have hholds : s.pool.Holds c.lease lease'.arena :=
    ⟨lease', hlease', by simp [hstage hcleared], rfl⟩
  have harena : lease.stage ≠ .returned → lease.arena ≠ lease'.arena := by
    intro hreturned heq
    exact hne k c hc hcleared (h.pool.unique _ _ _ hholds ⟨lease, hlease, hreturned, heq⟩)
  unfold ArenaPool.closeStep
  split
  . simp
  . next hmarked => simpa using harena (by simp [hmarked])
  . next hreset => simpa using harena (by simp [hreset])
  . simp

theorem closeStep_eq_some (hclose : s.closeStep l = some (s', action)) :
    ∃ lease, s.pool.leases l = some lease ∧ s' = s.setPool (s.pool.closeStep l lease).1 ∧
      action = (s.pool.closeStep l lease).2 := by
  obtain ⟨lease, hlease, heq⟩ := Option.map_eq_some_iff.mp hclose
  rw [Prod.mk.injEq] at heq
  exact ⟨lease, hlease, heq.1.symm, heq.2.symm⟩

theorem silent_eq_some {x : Option (PoolState κ)} (hsilent : silent x = some (s', action)) :
    x = some s' ∧ action = none := by
  obtain ⟨t, ht, heq⟩ := Option.map_eq_some_iff.mp hsilent
  rw [Prod.mk.injEq] at heq
  rw [ht, heq.1]
  exact ⟨rfl, heq.2.symm⟩

theorem Inv.use_persistent (h : s.Inv) (hc : s.contexts k = some c)
    (hlease : s.pool.leases c.lease = some lease) : lease.use = .persistent k := by
  obtain ⟨lease', hlease', huse, -⟩ := (h.contexts k c hc).lease
  rw [hlease, Option.some.injEq] at hlease'
  rw [hlease']
  exact huse

theorem contextStep_eq_some {f : PooledContext → Option (PoolState κ × Option PoolAction)}
    (hstep : s.contextStep k f = some (s', action)) :
    ∃ c, s.contexts k = some c ∧ f c = some (s', action) :=
  Option.bind_eq_some_iff.mp hstep

theorem not_ofContext_useAfter (outcome : SerializeOutcome) (k : κ) :
    ¬OfContext (useAfter outcome) k := by
  rintro (h | h) <;> cases outcome <;> contradiction

theorem Inv.getLease (h : s.Inv) (fresh : Option Arena) (inSerialize : Bool) :
    (s.getLease fresh inSerialize).Inv := by
  unfold PoolState.getLease
  split
  . exact h
  . next q hq =>
    apply h.getPlainLease hq
    rintro k (hk | hk) <;> split at hk <;> contradiction

section Contexts

variable [DecidableEq κ]

theorem setContext_of_ne (s : PoolState κ) (c : PooledContext) (hne : k' ≠ k) :
    (s.setContext k c).contexts k' = s.contexts k' :=
  Function.update_of_ne hne ..

@[simp]
theorem setContext_self (s : PoolState κ) (k : κ) (c : PooledContext) :
    (s.setContext k c).contexts k = some c :=
  Function.update_self ..

theorem NativeInv.setContext (h : s.NativeInv) (hc : s.contexts k = some c)
    {c' : PooledContext} (hptr : c'.ptr = c.ptr) : (s.setContext k c').NativeInv := by
  apply h.mono
  . intro x n hx
    cases hx with
    | starting h => exact .starting h
    | @context k' c'' _ h hptr' =>
      by_cases hk : k' = k
      . subst hk
        rw [setContext_self, Option.some.injEq] at h
        rw [← h, hptr] at hptr'
        exact .context hc hptr'
      . rw [setContext_of_ne s c' hk] at h
        exact .context h hptr'
  . rfl
  . rfl

theorem Inv.setContext (h : s.Inv) (hc : s.contexts k = some c) {c' : PooledContext}
    (hok : ContextOk s.pool k c')
    (hleave : ∀ l, c.pc.ephemeralLease = some l → c'.pc.ephemeralLease = some l ∨
      s.pool.Returned l)
    {destroyed : List Nat}
    (hnative : ({ s with destroyed := destroyed }.setContext k c').NativeInv) :
    ({ s with destroyed := destroyed }.setContext k c').Inv := by
  constructor
  . exact h.pool
  . intro k' c'' hc''
    by_cases hk : k' = k
    . subst hk
      rw [setContext_self, Option.some.injEq] at hc''
      rw [← hc'']
      exact hok
    . rw [setContext_of_ne _ c' hk] at hc''
      exact h.contexts k' c'' hc''
  . intro l lease k' hlease huse
    rcases h.ephemerals l lease k' hlease huse with hstage | ⟨c'', hc'', hl⟩
    . exact Or.inl hstage
    . by_cases hk : k' = k
      . subst hk
        rw [hc, Option.some.injEq] at hc''
        rw [← hc''] at hl
        rcases hleave l hl with hl' | ⟨lease', hlease', hreturned⟩
        . exact Or.inr ⟨c', setContext_self _ k' c', hl'⟩
        . obtain rfl : lease = lease' := Option.some.inj (hlease.symm.trans hlease')
          exact Or.inl hreturned
      . exact Or.inr ⟨c'', by rw [setContext_of_ne _ c' hk]; exact hc'', hl⟩
  . intro k' n hn
    have hne : k' ≠ k := by
      rintro rfl
      rw [h.constructing k' n hn] at hc
      contradiction
    rw [setContext_of_ne _ c' hne]
    exact h.constructing k' n hn
  . exact hnative

theorem Inv.closeStep (h : s.Inv) (hc : s.contexts k = some c) (hlease : s.pool.leases l = some lease)
    (hl : c.pc = .leave (some l) ∨ (c.pc = .closeLease ∧ l = c.lease)) :
    (s.setPool (s.pool.closeStep l lease).1).Inv := by
  have hok := h.contexts k c hc
  have huse : OfContext lease.use k := by
    rcases hl with hpc | ⟨-, rfl⟩
    . obtain ⟨lease', hlease', huse, -⟩ := hok.ephemeral l (by rw [hpc]; rfl)
      rw [hlease, Option.some.injEq] at hlease'
      rw [hlease']
      exact Or.inr huse
    . obtain ⟨lease', hlease', huse, -⟩ := hok.lease
      rw [hlease, Option.some.injEq] at hlease'
      rw [hlease']
      exact Or.inl huse
  have hself := ArenaPool.closeStep_self s.pool hlease
  constructor
  . exact h.pool.closeStep hlease
  . intro k' c' hc'
    by_cases hk : k' = k
    . subst hk
      have heq : c' = c := by
        rw [← Option.some.injEq, ← hc]
        exact hc'.symm
      subst heq
      constructor
      . obtain ⟨lease', hlease', huse', hstage'⟩ := hok.lease
        by_cases hcl : c'.lease = l
        . rw [hcl, hlease, Option.some.injEq] at hlease'
          refine ⟨{ lease with stage := lease.stage.next }, ?_, ?_, ?_⟩
          . rw [hcl]
            exact hself
          . rw [hlease']
            exact huse'
          . intro hcleared
            rcases hl with hpc | ⟨hpc, -⟩
            . obtain ⟨lease'', hlease'', huse'', -⟩ := hok.ephemeral l (by rw [hpc]; rfl)
              rw [hlease, Option.some.injEq] at hlease''
              rw [← hlease'', hlease', huse'] at huse''
              contradiction
            . rw [hok.closing hpc] at hcleared
              contradiction
        . refine ⟨lease', ?_, huse', hstage'⟩
          rw [setPool_pool, ArenaPool.closeStep_of_ne s.pool lease hcl]
          exact hlease'
      . intro _ hidle
        rw [hidle] at hl
        rcases hl with hpc | ⟨hpc, -⟩ <;> contradiction
      . intro l' hl'
        rcases hl with hpc | ⟨hpc, -⟩
        . rw [hpc] at hl'
          cases hl'
          obtain ⟨lease', hlease', huse', -⟩ := hok.ephemeral l (by rw [hpc]; rfl)
          rw [hlease, Option.some.injEq] at hlease'
          refine ⟨{ lease with stage := lease.stage.next }, hself, ?_, fun hne => absurd hpc hne⟩
          rw [hlease']
          exact huse'
        . rw [hpc] at hl'
          contradiction
      . exact hok.running
      . exact hok.online
      . exact hok.clearing
      . exact hok.closing
    . apply (h.contexts k' c' hc').mono
      intro l' lease' hlease' huse'
      have hne : l' ≠ l := by
        rintro rfl
        rw [hlease, Option.some.injEq] at hlease'
        rw [← hlease'] at huse'
        exact hk (OfContext.unique huse' huse)
      rw [setPool_pool, ArenaPool.closeStep_of_ne s.pool lease hne]
      exact hlease'
  . intro l' lease' k' hlease' huse'
    by_cases hne : l' = l
    . subst hne
      rw [setPool_pool, hself, Option.some.injEq] at hlease'
      rw [← hlease'] at huse'
      rcases h.ephemerals l' lease k' hlease huse' with hstage | hctx
      . left
        rw [← hlease']
        have hclosed : (s.pool.closeStep l' lease).1 = s.pool := by
          simp [ArenaPool.closeStep, hstage]
        rw [hclosed, hlease, Option.some.injEq] at hself
        rw [← hself]
        exact hstage
      . exact Or.inr hctx
    . rw [setPool_pool, ArenaPool.closeStep_of_ne s.pool lease hne] at hlease'
      exact h.ephemerals l' lease' k' hlease' huse'
  . exact h.constructing
  . exact h.native.setPool _

theorem Inv.getEphemeralLease (h : s.Inv) (hc : s.contexts k = some c)
    (hpc : c.pc = .getEphemeralLease) (hget : s.pool.getLease fresh (.ephemeral k) = some q) :
    ((s.setPool q).setContext k { c with pc := .serializeEphemeral s.pool.nextLease }).Inv := by
  have hok := (h.contexts k c hc).mono fun l lease hlease _ => h.pool.getLease_keep hget hlease
  obtain ⟨a, hnew⟩ := ArenaPool.getLease_nextLease hget
  have honline : c.online = true := hok.running (by rw [hpc]; rfl)
  constructor
  . exact h.pool.getLease hget
  . intro k' c' hc'
    by_cases hk : k' = k
    . subst hk
      rw [setContext_self, Option.some.injEq] at hc'
      subst hc'
      constructor
      . exact hok.lease
      . intro _ hidle
        contradiction
      . intro l hl
        cases hl
        exact ⟨_, hnew, rfl, fun _ => rfl⟩
      . intro _
        exact honline
      . exact hok.online
      . intro hcl
        contradiction
      . intro hcl
        contradiction
    . rw [setContext_of_ne _ _ hk] at hc'
      exact (h.contexts k' c' hc').mono fun l lease hlease _ => h.pool.getLease_keep hget hlease
  . intro l lease k' hlease huse
    rcases ArenaPool.getLease_new hget hlease with ⟨rfl, heq, -⟩ | hlease
    . rw [heq, LeaseUse.ephemeral.injEq] at huse
      subst huse
      exact Or.inr ⟨_, setContext_self .., rfl⟩
    . rcases h.ephemerals l lease k' hlease huse with hstage | ⟨c', hc', hl⟩
      . exact Or.inl hstage
      . by_cases hk : k' = k
        . subst hk
          rw [hc, Option.some.injEq] at hc'
          rw [← hc', hpc] at hl
          contradiction
        . exact Or.inr ⟨c', by rw [setContext_of_ne _ _ hk]; exact hc', hl⟩
  . intro k' n hn
    have hne : k' ≠ k := by
      rintro rfl
      rw [h.constructing k' n hn] at hc
      contradiction
    rw [setContext_of_ne _ _ hne]
    exact h.constructing k' n hn
  . exact (h.native.setPool q).setContext hc rfl

theorem Inv.initWafContext (h : s.Inv) (hinit : s.initWafContext k = some s') : s'.Inv := by
  unfold PoolState.initWafContext at hinit
  split at hinit
  . next hnone =>
    cases hinit
    have hstarting : ∀ k' n, Function.update s.starting k (some s.nextContext) k' = some n →
        (k' = k ∧ n = s.nextContext) ∨ s.starting k' = some n := by
      intro k' n hn
      by_cases hk : k' = k
      . rw [hk, Function.update_self, Option.some.injEq] at hn
        exact Or.inl ⟨hk, hn.symm⟩
      . rw [Function.update_of_ne hk] at hn
        exact Or.inr hn
    have hnative : ∀ x n, HasNative { s with
        starting := Function.update s.starting k (some s.nextContext)
        nextContext := s.nextContext + 1 } x n →
        (x = .inl k ∧ n = s.nextContext) ∨ s.HasNative x n := by
      intro x n hx
      cases hx with
      | starting hn =>
        rcases hstarting _ n hn with ⟨rfl, rfl⟩ | hn
        . exact Or.inl ⟨rfl, rfl⟩
        . exact Or.inr (.starting hn)
      | context hc hptr => exact Or.inr (.context hc hptr)
    constructor
    . exact h.pool
    . exact h.contexts
    . exact h.ephemerals
    . intro k' n hn
      rcases hstarting k' n hn with ⟨rfl, -⟩ | hn
      . exact Option.isNone_iff_eq_none.mp hnone.2
      . exact h.constructing k' n hn
    . constructor
      . intro x n hx
        rcases hnative x n hx with ⟨-, rfl⟩ | hx
        . exact Nat.lt_succ_self _
        . exact Nat.lt_succ_of_lt (h.native.lt x n hx)
      . intro n hn
        exact Nat.lt_succ_of_lt (h.native.destroyed_lt n hn)
      . intro x n hx hmem
        rcases hnative x n hx with ⟨-, rfl⟩ | hx
        . exact Nat.lt_irrefl _ (h.native.destroyed_lt _ hmem)
        . exact h.native.notMem x n hx hmem
      . intro x y n hx hy
        rcases hnative x n hx with ⟨rfl, rfl⟩ | hx
        . rcases hnative y _ hy with ⟨rfl, -⟩ | hy
          . rfl
          . exact absurd (h.native.lt y _ hy) (Nat.lt_irrefl _)
        . rcases hnative y n hy with ⟨rfl, rfl⟩ | hy
          . exact absurd (h.native.lt x _ hx) (Nat.lt_irrefl _)
          . exact h.native.unique x y n hx hy
      . exact h.native.nodup
  . contradiction

theorem Inv.stopConstructing (h : s.Inv) (k : κ) :
    Inv { s with starting := Function.update s.starting k none } := by
  have hstarting : ∀ k' n, Function.update s.starting k none k' = some n →
      k' ≠ k ∧ s.starting k' = some n := by
    intro k' n hn
    by_cases hk : k' = k
    . rw [hk, Function.update_self] at hn
      contradiction
    . rw [Function.update_of_ne hk] at hn
      exact ⟨hk, hn⟩
  constructor
  . exact h.pool
  . exact h.contexts
  . exact h.ephemerals
  . intro k' n hn
    exact h.constructing k' n (hstarting k' n hn).2
  . apply h.native.mono
    . intro x n hx
      cases hx with
      | starting hn => exact .starting (hstarting _ n hn).2
      | context hc hptr => exact .context hc hptr
    . rfl
    . rfl

theorem Inv.getContextLease (h : s.Inv) (hget : s.getContextLease k fresh = some s') : s'.Inv := by
  obtain ⟨ptr, hstarting, rfl⟩ := Option.map_eq_some_iff.mp hget
  have hnone := h.constructing k ptr hstarting
  have hstop := h.stopConstructing k
  split
  . exact hstop
  . next q hq =>
    obtain ⟨a, hnew⟩ := ArenaPool.getLease_nextLease hq
    constructor
    . exact h.pool.getLease hq
    . intro k' c' hc'
      by_cases hk : k' = k
      . subst hk
        rw [setContext_self, Option.some.injEq] at hc'
        subst hc'
        constructor
        . exact ⟨_, hnew, rfl, fun _ => rfl⟩
        . intro honline _
          contradiction
        . intro l hl
          contradiction
        . intro hrun
          contradiction
        . intro _
          rfl
        . intro hcl
          contradiction
        . intro hcl
          contradiction
      . rw [setContext_of_ne _ _ hk] at hc'
        exact (h.contexts k' c' hc').mono fun l lease hlease _ => h.pool.getLease_keep hq hlease
    . intro l lease k' hlease huse
      rcases ArenaPool.getLease_new hq hlease with ⟨-, heq, -⟩ | hlease
      . rw [heq] at huse
        contradiction
      . rcases h.ephemerals l lease k' hlease huse with hstage | ⟨c', hc', hl⟩
        . exact Or.inl hstage
        . by_cases hk : k' = k
          . rw [hk, hnone] at hc'
            contradiction
          . exact Or.inr ⟨c', by rw [setContext_of_ne _ _ hk]; exact hc', hl⟩
    . intro k' n hn
      have hn' : Function.update s.starting k none k' = some n := hn
      have hne : k' ≠ k := by
        rintro rfl
        rw [Function.update_self] at hn'
        contradiction
      rw [setContext_of_ne _ _ hne]
      exact hstop.constructing k' n hn
    . have hnative : ∀ x n, HasNative (PoolState.setContext (PoolState.setPool { s with
          starting := Function.update s.starting k none } q) k
          ⟨some ptr, s.pool.nextLease, true, .idle, false⟩) x n →
          (x = .inr k ∧ n = ptr) ∨ (x ≠ .inl k ∧ s.HasNative x n) := by
        intro x n hx
        cases hx with
        | @starting k' _ hn =>
          have hn' : Function.update s.starting k none k' = some n := hn
          by_cases hk : k' = k
          . rw [hk, Function.update_self] at hn'
            contradiction
          . rw [Function.update_of_ne hk] at hn'
            exact Or.inr ⟨by simpa using hk, .starting hn'⟩
        | @context k' c' _ hc' hptr =>
          by_cases hk : k' = k
          . rw [hk, setContext_self, Option.some.injEq] at hc'
            rw [← hc', Option.some.injEq] at hptr
            exact Or.inl ⟨by rw [hk], hptr.symm⟩
          . rw [setContext_of_ne _ _ hk] at hc'
            exact Or.inr ⟨by simp, .context hc' hptr⟩
      have hold := HasNative.starting hstarting
      constructor
      . intro x n hx
        rcases hnative x n hx with ⟨-, rfl⟩ | ⟨-, hx⟩
        . exact h.native.lt _ _ hold
        . exact h.native.lt x n hx
      . exact h.native.destroyed_lt
      . intro x n hx
        rcases hnative x n hx with ⟨-, rfl⟩ | ⟨-, hx⟩
        . exact h.native.notMem _ _ hold
        . exact h.native.notMem x n hx
      . intro x y n hx hy
        rcases hnative x n hx with ⟨rfl, rfl⟩ | ⟨hne, hx'⟩
        . rcases hnative y _ hy with ⟨rfl, -⟩ | ⟨hne, hy'⟩
          . rfl
          . exact absurd (h.native.unique y _ _ hy' hold) hne
        . rcases hnative y n hy with ⟨rfl, rfl⟩ | ⟨-, hy'⟩
          . exact absurd (h.native.unique x _ _ hx' hold) hne
          . exact h.native.unique x y n hx' hy'
      . exact h.native.nodup

theorem NativeInv.destroy (h : s.NativeInv) (hc : s.contexts k = some c) (hptr : c.ptr = some ptr)
    {c' : PooledContext} (hptr' : c'.ptr = none) :
    ({ s with destroyed := ptr :: s.destroyed }.setContext k c').NativeInv := by
  have hself := HasNative.context hc hptr
  have hnative : ∀ x n, HasNative ({ s with destroyed := ptr :: s.destroyed }.setContext k c') x n →
      x ≠ .inr k ∧ s.HasNative x n := by
    intro x n hx
    cases hx with
    | starting hn => exact ⟨by simp, .starting hn⟩
    | @context k' c'' _ hc'' hptr'' =>
      by_cases hk : k' = k
      . rw [hk, setContext_self, Option.some.injEq] at hc''
        rw [← hc'', hptr'] at hptr''
        contradiction
      . rw [setContext_of_ne _ _ hk] at hc''
        exact ⟨by simpa using hk, .context hc'' hptr''⟩
  constructor
  . intro x n hx
    exact h.lt x n (hnative x n hx).2
  . intro n hn
    rcases List.mem_cons.mp hn with rfl | hn
    . exact h.lt _ _ hself
    . exact h.destroyed_lt n hn
  . intro x n hx hmem
    obtain ⟨hne, hx'⟩ := hnative x n hx
    rcases List.mem_cons.mp hmem with rfl | hmem
    . exact hne (h.unique x _ _ hx' hself)
    . exact h.notMem x n hx' hmem
  . intro x y n hx hy
    exact h.unique x y n (hnative x n hx).2 (hnative y n hy).2
  . exact List.nodup_cons.mpr ⟨h.notMem _ _ hself, h.nodup⟩

theorem Inv.advance (h : s.Inv) (hc : s.contexts k = some c) {pc : ContextPc}
    (hpc : (pc = .idle ∧ (c.online = false → s.pool.Returned c.lease)) ∨
      (c.online = true ∧ pc.inRun = true))
    (hsame : ∀ l, pc.ephemeralLease = some l → c.pc.ephemeralLease = some l ∧
      (pc ≠ .leave (some l) → c.pc ≠ .leave (some l)))
    (hleave : ∀ l, c.pc.ephemeralLease = some l → pc.ephemeralLease = some l ∨
      s.pool.Returned l) : (s.setContext k { c with pc := pc }).Inv := by
  have hok := h.contexts k c hc
  apply h.setContext hc
  . constructor
    . exact hok.lease
    . intro honline _
      rcases hpc with ⟨-, hreturned⟩ | ⟨honline', -⟩
      . exact hreturned honline
      . rw [honline'] at honline
        contradiction
    . intro l hl
      obtain ⟨hl', hne⟩ := hsame l hl
      obtain ⟨lease, hlease, huse, hstage⟩ := hok.ephemeral l hl'
      exact ⟨lease, hlease, huse, fun h => hstage (hne h)⟩
    . intro hrun
      rcases hpc with ⟨rfl, -⟩ | ⟨honline, -⟩
      . contradiction
      . exact honline
    . exact hok.online
    . rintro rfl
      rcases hpc with ⟨hpc, -⟩ | ⟨-, hpc⟩ <;> contradiction
    . rintro rfl
      rcases hpc with ⟨hpc, -⟩ | ⟨-, hpc⟩ <;> contradiction
  . exact hleave
  . exact h.native.setContext hc rfl

theorem afterPersistent_ephemeralLease (ephemeral : Bool) :
    (afterPersistent ephemeral).ephemeralLease = none := by
  cases ephemeral <;> rfl

theorem afterPersistent_inRun (ephemeral : Bool) : (afterPersistent ephemeral).inRun = true := by
  cases ephemeral <;> rfl

theorem Inv.run (h : s.Inv) (hc : s.contexts k = some c)
    (hrun : s.run k persistent ephemeral c = some s') : s'.Inv := by
  unfold PoolState.run at hrun
  split at hrun
  . next hidle =>
    split at hrun
    . next honline =>
      cases hrun
      apply h.advance hc
      . right
        refine ⟨honline, ?_⟩
        split
        . rfl
        . exact afterPersistent_inRun ephemeral
      . intro l hl
        split at hl
        . contradiction
        . rw [afterPersistent_ephemeralLease] at hl
          contradiction
      . intro l hl
        rw [hidle] at hl
        contradiction
    . cases hrun
      exact h
  . contradiction

theorem Inv.serializePersistent (h : s.Inv) (hc : s.contexts k = some c)
    (hser : s.serializePersistent k content returns c = some s') : s'.Inv := by
  have hok := h.contexts k c hc
  unfold PoolState.serializePersistent at hser
  split at hser
  . next ephemeral hpc =>
    have honline := hok.running (by rw [hpc]; rfl)
    obtain ⟨lease, hlease, -, hstage⟩ := hok.lease
    simp only [write, hlease, Option.map_some, Option.some.injEq] at hser
    subst hser
    have hwrite := h.setContent hlease (hstage (hok.online honline)) content
    apply hwrite.advance hc
    . right
      refine ⟨honline, ?_⟩
      split
      . exact afterPersistent_inRun ephemeral
      . rfl
    . intro l hl
      split at hl
      . rw [afterPersistent_ephemeralLease] at hl
        contradiction
      . contradiction
    . intro l hl
      rw [hpc] at hl
      contradiction
  . contradiction

theorem Inv.getEphemeralLease_step (h : s.Inv) (hc : s.contexts k = some c)
    (hget : s.getEphemeralLease k fresh c = some s') : s'.Inv := by
  have hok := h.contexts k c hc
  unfold PoolState.getEphemeralLease at hget
  split at hget
  . next hpc =>
    split at hget
    . cases hget
      apply h.advance hc
      . right
        exact ⟨hok.running (by rw [hpc]; rfl), rfl⟩
      . intro l hl
        contradiction
      . intro l hl
        rw [hpc] at hl
        contradiction
    . next q hq =>
      cases hget
      exact h.getEphemeralLease hc hpc hq
  . contradiction

theorem Inv.serializeEphemeral (h : s.Inv) (hc : s.contexts k = some c)
    (hser : s.serializeEphemeral k content returns c = some s') : s'.Inv := by
  have hok := h.contexts k c hc
  unfold PoolState.serializeEphemeral at hser
  split at hser
  . next l hpc =>
    obtain ⟨lease, hlease, -, hstage⟩ := hok.ephemeral l (by rw [hpc]; rfl)
    simp only [write, hlease, Option.map_some, Option.some.injEq] at hser
    subst hser
    have hwrite := h.setContent hlease (hstage (by simp [hpc])) content
    apply hwrite.advance hc
    . right
      refine ⟨hok.running (by rw [hpc]; rfl), ?_⟩
      split <;> rfl
    . intro l' hl'
      rw [hpc]
      refine ⟨?_, fun _ => by simp⟩
      split at hl' <;> exact hl'
    . intro l' hl'
      left
      rw [hpc] at hl'
      split <;> exact hl'
  . contradiction

theorem Inv.runWafContext (h : s.Inv) (hc : s.contexts k = some c)
    (hrun : s.runWafContext k c = some s') : s'.Inv := by
  have hok := h.contexts k c hc
  unfold PoolState.runWafContext at hrun
  split at hrun
  . next l hpc =>
    cases hrun
    apply h.advance hc
    . right
      exact ⟨hok.running (by rw [hpc]; rfl), rfl⟩
    . intro l' hl'
      rw [hpc]
      exact ⟨hl', fun _ => by simp⟩
    . intro l' hl'
      rw [hpc] at hl'
      exact Or.inl hl'
  . contradiction

theorem Inv.close (h : s.Inv) (hc : s.contexts k = some c) (hclose : s.close k c = some s') :
    s'.Inv := by
  have hok := h.contexts k c hc
  unfold PoolState.close at hclose
  split at hclose
  . next hidle =>
    split at hclose
    . next honline =>
      cases hclose
      apply h.setContext hc
      . constructor
        . exact hok.lease
        . intro _ hpc
          contradiction
        . intro l hl
          contradiction
        . intro hrun
          contradiction
        . intro hfalse
          contradiction
        . intro _
          rfl
        . intro hcl
          contradiction
      . intro l hl
        rw [hidle] at hl
        contradiction
      . exact h.native.setContext hc rfl
    . cases hclose
      exact h
  . contradiction

theorem Inv.clearWafContext (h : s.Inv) (hc : s.contexts k = some c)
    (hclear : s.clearWafContext k c = some (s', action)) : s'.Inv := by
  have hok := h.contexts k c hc
  unfold PoolState.clearWafContext at hclear
  split at hclear
  . next hpc =>
    have hcleared : ∀ ptr, ContextOk s.pool k
        { c with ptr := ptr, pc := .closeLease, cleared := true } := by
      intro ptr
      obtain ⟨lease, hlease, huse, -⟩ := hok.lease
      constructor
      . exact ⟨lease, hlease, huse, fun hfalse => by contradiction⟩
      . intro _ hidle
        contradiction
      . intro l hl
        contradiction
      . intro hrun
        contradiction
      . intro honline
        rw [show c.online = false from hok.clearing hpc] at honline
        contradiction
      . intro hcl
        contradiction
      . intro _
        rfl
    have hleave : ∀ l, c.pc.ephemeralLease ≠ some l := by
      intro l hl
      rw [hpc] at hl
      contradiction
    split at hclear
    . next hptr =>
      cases hclear
      apply h.setContext hc
      . exact hcleared c.ptr
      . exact fun l hl => absurd hl (hleave l)
      . exact h.native.setContext hc rfl
    . next ptr hptr =>
      cases hclear
      apply h.setContext hc
      . exact hcleared none
      . exact fun l hl => absurd hl (hleave l)
      . exact h.native.destroy hc hptr rfl
  . contradiction

theorem untouched_clear (hclear : s.clearWafContext k c = some (s', action)) :
    s.Untouched action := by
  unfold PoolState.clearWafContext at hclear
  split at hclear
  . split at hclear <;> cases hclear <;> intro _ _ _ _ _ _ <;> simp
  . contradiction

theorem Inv.closeFor (h : s.Inv) (hc : s.contexts k = some c)
    (hl : c.pc = .leave (some l) ∨ (c.pc = .closeLease ∧ l = c.lease))
    (hclose : s.closeFor k l c = some (s', action)) :
    s'.Inv ∧ ∃ lease, s.pool.leases l = some lease ∧ action = (s.pool.closeStep l lease).2 := by
  have hok := h.contexts k c hc
  obtain ⟨lease, hlease, hstep⟩ := Option.map_eq_some_iff.mp hclose
  rw [Prod.mk.injEq] at hstep
  obtain ⟨hs', haction⟩ := hstep
  refine ⟨?_, lease, hlease, haction.symm⟩
  have hinv := h.closeStep hc hlease hl
  split at hs'
  . next hends =>
    have hreturned := ArenaPool.closeStep_returned hlease hends
    rw [← hs']
    apply hinv.advance hc
    . left
      refine ⟨rfl, fun honline => ?_⟩
      rcases hl with hpc | ⟨-, rfl⟩
      . rw [hok.running (by rw [hpc]; rfl)] at honline
        contradiction
      . exact hreturned
    . intro l' hl'
      contradiction
    . intro l' hl'
      right
      rcases hl with hpc | ⟨hpc, -⟩
      . rw [hpc] at hl'
        cases hl'
        exact hreturned
      . rw [hpc] at hl'
        contradiction
  . rw [← hs']
    exact hinv

theorem Inv.leaveRun (h : s.Inv) (hc : s.contexts k = some c)
    (hleave : s.leaveRun k c = some (s', action)) : s'.Inv ∧ s.Untouched action := by
  have hok := h.contexts k c hc
  unfold PoolState.leaveRun at hleave
  split at hleave
  . next hpc =>
    cases hleave
    refine ⟨?_, untouched_none s⟩
    apply h.advance hc
    . left
      refine ⟨rfl, fun honline => ?_⟩
      rw [hok.running (by rw [hpc]; rfl)] at honline
      contradiction
    . intro l hl
      contradiction
    . intro l hl
      rw [hpc] at hl
      contradiction
  . next l hpc =>
    obtain ⟨hinv, lease, hlease, rfl⟩ := h.closeFor hc (Or.inl hpc) hleave
    refine ⟨hinv, h.untouched_closeStep hlease ?_⟩
    intro k' c' hc' _ heq
    obtain ⟨lease', hlease', huse, -⟩ := hok.ephemeral l (by rw [hpc]; rfl)
    rw [← heq] at hlease'
    rw [h.use_persistent hc' hlease'] at huse
    contradiction
  . contradiction

theorem Inv.closeContextLease (h : s.Inv) (hc : s.contexts k = some c)
    (hclose : s.closeContextLease k c = some (s', action)) : s'.Inv ∧ s.Untouched action := by
  have hok := h.contexts k c hc
  unfold PoolState.closeContextLease at hclose
  split at hclose
  . next hpc =>
    obtain ⟨hinv, lease, hlease, rfl⟩ := h.closeFor hc (Or.inr ⟨hpc, rfl⟩) hclose
    refine ⟨hinv, h.untouched_closeStep hlease ?_⟩
    intro k' c' hc' hcleared heq
    have huse := h.use_persistent hc hlease
    rw [← heq] at hlease
    rw [h.use_persistent hc' hlease, LeaseUse.persistent.injEq] at huse
    subst huse
    rw [hc, Option.some.injEq] at hc'
    rw [← hc', hok.closing hpc] at hcleared
    contradiction
  . contradiction

theorem Inv.serialize (h : s.Inv) (hser : s.serialize l content outcome = some s') : s'.Inv := by
  unfold PoolState.serialize at hser
  split at hser
  . next lease hlease =>
    split at hser
    . next huse =>
      cases hser
      apply h.setPool
      . apply (h.pool.setContent hlease (Or.inl huse.2) content).setLease hlease
        . rfl
        . rfl
        . intro hreset
          rw [show lease.stage = .reset from hreset] at huse
          exact absurd huse.2 (by simp)
      . intro k l' lease' hlease' hof
        have hne : l' ≠ l := by
          rintro rfl
          rw [hlease, Option.some.injEq] at hlease'
          rw [← hlease', huse.1] at hof
          rcases hof with hof | hof <;> contradiction
        rw [ArenaPool.setLease_of_ne _ _ hne]
        exact hlease'
      . intro k l' lease' hlease' hof
        have hne : l' ≠ l := by
          rintro rfl
          rw [ArenaPool.setLease_self, Option.some.injEq] at hlease'
          rw [← hlease'] at hof
          exact not_ofContext_useAfter outcome k hof
        rw [ArenaPool.setLease_of_ne _ _ hne] at hlease'
        exact hlease'
    . contradiction
  . contradiction

theorem Inv.serializeMore (h : s.Inv) (hser : s.serializeMore l content = some s') : s'.Inv := by
  unfold PoolState.serializeMore at hser
  split at hser
  . next lease hlease =>
    split at hser
    . next huse =>
      simp only [write, hlease, Option.map_some, Option.some.injEq] at hser
      subst hser
      exact h.setContent hlease huse.2 content
    . contradiction
  . contradiction

theorem Inv.closeLease (h : s.Inv) (hclose : s.closeLease l = some (s', action)) :
    s'.Inv ∧ s.Untouched action := by
  unfold PoolState.closeLease at hclose
  split at hclose
  . next lease hlease =>
    split at hclose
    . next huse =>
      obtain ⟨lease', hlease', rfl, rfl⟩ := closeStep_eq_some hclose
      rw [hlease, Option.some.injEq] at hlease'
      subst hlease'
      have hnot : ∀ k, ¬OfContext lease.use k := by
        rintro k (hk | hk) <;> rw [hk] at huse <;> rcases huse with huse | huse <;> contradiction
      have hself := ArenaPool.closeStep_self s.pool hlease
      constructor
      . apply h.setPool (h.pool.closeStep hlease)
        . intro k l' lease' hlease' hof
          have hne : l' ≠ l := by
            rintro rfl
            rw [hlease, Option.some.injEq] at hlease'
            rw [← hlease'] at hof
            exact hnot k hof
          rw [ArenaPool.closeStep_of_ne s.pool lease hne]
          exact hlease'
        . intro k l' lease' hlease' hof
          have hne : l' ≠ l := by
            rintro rfl
            rw [hself, Option.some.injEq] at hlease'
            rw [← hlease'] at hof
            exact hnot k hof
          rw [ArenaPool.closeStep_of_ne s.pool lease hne] at hlease'
          exact hlease'
      . apply h.untouched_closeStep hlease
        rintro k c hc _ rfl
        exact hnot k (Or.inl (h.use_persistent hc hlease))
    . contradiction
  . contradiction

theorem Inv.exec (h : s.Inv) {event : PoolEvent κ} (hexec : s.exec event = some (s', action)) :
    s'.Inv ∧ s.Untouched action := by
  cases event with
  | initWafContext k =>
    obtain ⟨hinit, rfl⟩ := silent_eq_some hexec
    exact ⟨h.initWafContext hinit, untouched_none s⟩
  | getContextLease k fresh =>
    obtain ⟨hget, rfl⟩ := silent_eq_some hexec
    exact ⟨h.getContextLease hget, untouched_none s⟩
  | run k persistent ephemeral =>
    obtain ⟨c, hc, hstep⟩ := contextStep_eq_some hexec
    obtain ⟨hrun, rfl⟩ := silent_eq_some hstep
    exact ⟨h.run hc hrun, untouched_none s⟩
  | serializePersistent k content returns =>
    obtain ⟨c, hc, hstep⟩ := contextStep_eq_some hexec
    obtain ⟨hser, rfl⟩ := silent_eq_some hstep
    exact ⟨h.serializePersistent hc hser, untouched_none s⟩
  | getEphemeralLease k fresh =>
    obtain ⟨c, hc, hstep⟩ := contextStep_eq_some hexec
    obtain ⟨hget, rfl⟩ := silent_eq_some hstep
    exact ⟨h.getEphemeralLease_step hc hget, untouched_none s⟩
  | serializeEphemeral k content returns =>
    obtain ⟨c, hc, hstep⟩ := contextStep_eq_some hexec
    obtain ⟨hser, rfl⟩ := silent_eq_some hstep
    exact ⟨h.serializeEphemeral hc hser, untouched_none s⟩
  | runWafContext k =>
    obtain ⟨c, hc, hstep⟩ := contextStep_eq_some hexec
    obtain ⟨hrun, rfl⟩ := silent_eq_some hstep
    exact ⟨h.runWafContext hc hrun, untouched_none s⟩
  | leaveRun k =>
    obtain ⟨c, hc, hleave⟩ := contextStep_eq_some hexec
    exact h.leaveRun hc hleave
  | close k =>
    obtain ⟨c, hc, hstep⟩ := contextStep_eq_some hexec
    obtain ⟨hclose, rfl⟩ := silent_eq_some hstep
    exact ⟨h.close hc hclose, untouched_none s⟩
  | clearWafContext k =>
    obtain ⟨c, hc, hclear⟩ := contextStep_eq_some hexec
    exact ⟨h.clearWafContext hc hclear, untouched_clear hclear⟩
  | closeContextLease k =>
    obtain ⟨c, hc, hclose⟩ := contextStep_eq_some hexec
    exact h.closeContextLease hc hclose
  | getLease fresh inSerialize =>
    cases hexec
    exact ⟨h.getLease fresh inSerialize, untouched_none s⟩
  | serialize l content outcome =>
    obtain ⟨hser, rfl⟩ := silent_eq_some hexec
    exact ⟨h.serialize hser, untouched_none s⟩
  | serializeMore l content =>
    obtain ⟨hser, rfl⟩ := silent_eq_some hexec
    exact ⟨h.serializeMore hser, untouched_none s⟩
  | closeLease l => exact h.closeLease hexec

theorem system_inv : (system κ).Invariant Inv := by
  constructor
  . rintro s ⟨harenas, hnextArena, hleases, hnextLease, hreturned, hstarting, hcontexts, -, hdestroyed⟩
    have hnoLease : ∀ l, s.pool.leases l = none := fun l => Option.isNone_iff_eq_none.mp (hleases l)
    have hnoContext : ∀ k, s.contexts k = none :=
      fun k => Option.isNone_iff_eq_none.mp (hcontexts k)
    have hnoHolder : ∀ l a, ¬s.pool.Holds l a := by
      rintro l a ⟨lease, hlease, -⟩
      rw [hnoLease] at hlease
      contradiction
    have hnoNative : ∀ x n, ¬s.HasNative x n := by
      intro x n hx
      cases hx with
      | @starting k _ h =>
        rw [hstarting] at h
        contradiction
      | @context k _ _ h _ =>
        rw [hnoContext] at h
        contradiction
    constructor
    . constructor <;> simp_all [ArenaPool.Returned]
    . simp [hnoContext]
    . simp [hnoLease]
    . simp [hstarting]
    . constructor <;> simp_all
  . intro s l s' h hstep
    exact (h.exec hstep.2).1

end Contexts

end PoolState

end Ddwaf
