import Ddwaf.ArenaPool.Progress
import Ddwaf.ByteBufferSerializer.Process

/-!
This module contains the contexts of a process with the memory that their arenas are in: what
`ddwaf_run` is given, and what it has been given before, is there for as long as the native context is.
-/

namespace Ddwaf

open Memory

structure Session (κ : Type) where
  pool : PoolState κ
  process : Process Nat

/--
What a step does to the arena is its `effect`, and `other` is what the rest of the process does.
-/
inductive SessionEvent (κ ρ : Type) where
  | pool (event : PoolEvent κ) (action : Option PoolAction) (effect : Option (ProcessEvent Nat ρ))
  | other (memory : Memory) (regions : List Range)

namespace Session

variable {κ ρ : Type}

def CallOn (s : PoolState κ) (l : Nat) (returns : Bool → Prop) (effect : Option (ProcessEvent Nat ρ)) :
    Prop :=
  ∃ lease call result, s.pool.leases l = some lease ∧
    effect = some (.arena lease.arena (.serializeMore call result)) ∧ returns result.isOk

def NewLease (s : PoolState κ) (fresh : Option Arena) (effect : Option (ProcessEvent Nat ρ)) : Prop :=
  effect = if s.pool.arenas = [] ∧ fresh.isSome then some (.newArena s.pool.nextArena) else none

def EffectOf (s : PoolState κ) (effect : Option (ProcessEvent Nat ρ)) : PoolEvent κ → Prop
  | .getContextLease _ fresh | .getEphemeralLease _ fresh | .getLease fresh _ =>
    NewLease s fresh effect
  | .serializePersistent k _ returns =>
    ∃ c, s.contexts k = some c ∧ CallOn s c.lease (· = returns) effect
  | .serializeEphemeral k _ returns =>
    ∃ c l, s.contexts k = some c ∧ c.pc = .serializeEphemeral l ∧ CallOn s l (· = returns) effect
  | .serialize l _ outcome => CallOn s l (fun ok => ok = true ↔ outcome = .returns) effect
  | .serializeMore l _ => CallOn s l (fun _ => True) effect
  | .initWafContext _ | .run _ _ _ | .runWafContext _ | .leaveRun _ | .close _ => effect = none
  | .clearWafContext _ | .closeContextLease _ | .closeLease _ => effect = none

def Effect (s : PoolState κ) (effect : Option (ProcessEvent Nat ρ)) (event : PoolEvent κ) :
    Option PoolAction → Prop
  | some (.reset arena) => effect = some (.arena arena .close)
  | some _ => effect = none
  | none => EffectOf s effect event

def Agrees (p : ArenaPool κ) (q : Process Nat) : Prop :=
  ∀ a s, q.arenas a = some s → p.contents a = s.arena

section System

variable [DecidableEq κ]

def step (S : Session κ) : SessionEvent κ ρ → Session κ → Prop
  | .pool event action effect, T =>
    (PoolState.system κ).step S.pool (event, action) T.pool ∧
      Effect S.pool effect event action ∧
      Agrees T.pool.pool T.process ∧
      match effect with
      | none => T.process = S.process
      | some e => S.process.step e T.process
  | .other memory regions, T =>
    T.pool = S.pool ∧ S.process.step (.other memory regions : ProcessEvent Nat ρ) T.process

def system (κ ρ : Type) [DecidableEq κ] : System (Session κ) (SessionEvent κ ρ) where
  init S := (PoolState.system κ).init S.pool ∧ (Process.system Nat ρ).init S.process
  step := step

def memoryEvent : SessionEvent κ ρ → Option (ProcessEvent Nat ρ)
  | .pool _ _ effect => effect
  | .other memory regions => some (.other memory regions)

def effects (ls : List (SessionEvent κ ρ)) : List (ProcessEvent Nat ρ) := ls.filterMap memoryEvent

def persistentRoot (k : κ) : SessionEvent κ ρ → Option (Call ρ × ByteBuffer)
  | .pool (.serializePersistent j _ _) _ (some (.arena _ (.serializeMore call (.ok root)))) =>
    if j = k then some (call, root) else none
  | _ => none

def persistentRoots (k : κ) (ls : List (SessionEvent κ ρ)) : List (Call ρ × ByteBuffer) :=
  ls.filterMap (persistentRoot k)

def ephemeralRootStep (k : κ) (before : Option (Call ρ × ByteBuffer)) :
    SessionEvent κ ρ → Option (Call ρ × ByteBuffer)
  | .pool (.serializeEphemeral j _ _) _ (some (.arena _ (.serializeMore call (.ok root)))) =>
    if j = k then some (call, root) else before
  | _ => before

def ephemeralRoot (k : κ) (ls : List (SessionEvent κ ρ)) : Option (Call ρ × ByteBuffer) :=
  ls.foldl (ephemeralRootStep k) none

end System

section Roots

theorem mem_roots {a : Nat} {before : List (Call ρ × ByteBuffer)} {r : Call ρ × ByteBuffer}
    (hr : r ∈ before) {e : ProcessEvent Nat ρ} (hnew : e ≠ .newArena a) (hclose : e ≠ .arena a .close)
    (hdrop : e ≠ .dropArena a) : r ∈ Process.roots a before e := by
  cases e with
  | newArena j =>
    have hj : j ≠ a := fun hj => hnew (hj ▸ rfl)
    rw [Process.roots, if_neg hj]
    exact hr
  | arena j event =>
    cases event with
    | serializeMore call result =>
      cases result with
      | ok root =>
        rw [Process.roots]
        split
        . exact List.mem_cons_of_mem _ hr
        . exact hr
      | error e => exact hr
    | close =>
      have hj : j ≠ a := fun hj => hclose (hj ▸ rfl)
      rw [Process.roots, if_neg hj]
      exact hr
    | other memory regions => exact hr
  | dropArena j =>
    have hj : j ≠ a := fun hj => hdrop (hj ▸ rfl)
    rw [Process.roots, if_neg hj]
    exact hr
  | other memory regions => exact hr

theorem effects_concat (ls : List (SessionEvent κ ρ)) (l : SessionEvent κ ρ) :
    effects (ls ++ [l]) = effects ls ++ (memoryEvent l).toList := by
  rw [effects, List.filterMap_append]
  cases h : memoryEvent l with
  | none => simp [effects, h]
  | some e => simp [effects, h]

variable {s s' : PoolState κ} {event : PoolEvent κ} {action : Option PoolAction}
  {effect : Option (ProcessEvent Nat ρ)}

structure Spares (effect : Option (ProcessEvent Nat ρ)) (a : Nat) : Prop where
  newArena : effect ≠ some (.newArena a)
  close : effect ≠ some (.arena a .close)
  dropArena : effect ≠ some (.dropArena a)

theorem spares_none (a : Nat) : Spares (none : Option (ProcessEvent Nat ρ)) a := ⟨nofun, nofun, nofun⟩

theorem CallOn.spares {l : Nat} {returns : Bool → Prop} (h : CallOn s l returns effect) (a : Nat) :
    Spares effect a := by
  have ⟨lease, call, result, _, heffect, _⟩ := h
  rw [heffect]
  exact ⟨nofun, nofun, nofun⟩

theorem NewLease.spares {fresh : Option Arena} (h : NewLease s fresh effect)
    (ha : a < s.pool.nextArena) : Spares effect a := by
  rw [h]
  split
  . refine ⟨?_, nofun, nofun⟩
    intro heq
    cases heq
    exact Nat.lt_irrefl _ ha
  . exact spares_none a

theorem Effect.spares (h : Effect s effect event action) (hinv : s.Inv)
    (hchange : s.pool.Change event action q) (hlease : s.pool.leases l = some lease)
    (hstage : lease.stage = .unclosed) : Spares effect lease.arena := by
  have hholds : s.pool.Holds l lease.arena := ⟨lease, hlease, by rw [hstage]; nofun, rfl⟩
  have hlt := hinv.pool.holds_lt l _ hholds
  unfold Effect at h
  split at h
  . next arena =>
    have ⟨l', lease', hlease', hmarked, harena⟩ := hchange.reset
    rw [h]
    refine ⟨nofun, ?_, nofun⟩
    intro heq
    cases heq
    have heq := hinv.pool.unique l l' _ hholds ⟨lease', hlease', by rw [hmarked]; nofun, harena⟩
    rw [heq, hlease'] at hlease
    cases hlease
    rw [hmarked] at hstage
    contradiction
  . rw [h]
    exact spares_none _
  . cases event with
    | getContextLease _ _ => exact NewLease.spares h hlt
    | getEphemeralLease _ _ => exact NewLease.spares h hlt
    | getLease _ _ => exact NewLease.spares h hlt
    | serializePersistent _ _ _ =>
      have ⟨_, _, hcall⟩ := h
      exact hcall.spares _
    | serializeEphemeral _ _ _ =>
      have ⟨_, _, _, _, hcall⟩ := h
      exact hcall.spares _
    | serialize l _ outcome =>
      have hcall : CallOn s l (fun ok => ok = true ↔ outcome = .returns) effect := h
      exact hcall.spares _
    | serializeMore l _ =>
      have hcall : CallOn s l (fun _ => True) effect := h
      exact hcall.spares _
    | _ =>
      rw [show effect = none from h]
      exact spares_none _

theorem Spares.mem_openRoots {ls : List (SessionEvent κ ρ)} {a : Nat} {r : Call ρ × ByteBuffer}
    (h : Spares effect a) (hr : r ∈ Process.openRoots a (effects ls)) :
    r ∈ Process.openRoots a (effects (ls ++ [.pool event action effect])) := by
  rw [effects_concat]
  cases effect with
  | none =>
    rw [memoryEvent, Option.toList_none, List.append_nil]
    exact hr
  | some e =>
    rw [memoryEvent, Option.toList_some, Process.openRoots_concat]
    exact mem_roots hr (fun heq => h.newArena (congrArg some heq))
      (fun heq => h.close (congrArg some heq)) (fun heq => h.dropArena (congrArg some heq))

theorem CallOn.mem_openRoots {ls : List (SessionEvent κ ρ)} {l : Nat} {returns : Bool → Prop}
    (h : CallOn s l returns effect) (hlease : s.pool.leases l = some lease) {a : Nat} {call : Call ρ}
    {root : ByteBuffer} (heffect : effect = some (.arena a (.serializeMore call (.ok root)))) :
    (call, root) ∈ Process.openRoots lease.arena (effects (ls ++ [.pool event action effect])) := by
  have ⟨lease', call', result, hlease', heffect', _⟩ := h
  rw [hlease] at hlease'
  cases hlease'
  rw [heffect] at heffect'
  cases heffect'
  rw [effects_concat, heffect, memoryEvent, Option.toList_some, Process.openRoots_concat, Process.roots,
    if_pos rfl]
  exact List.mem_cons_self

end Roots

section Safe

variable [DecidableEq κ]

theorem exec_serializeEphemeral {s s' : PoolState κ} {action : Option PoolAction} {content : Arena}
    {returns : Bool} (hexec : s.exec (.serializeEphemeral k content returns) = some (s', action)) :
    action = none := by
  have ⟨c, _, hstep⟩ := PoolState.contextStep_eq_some hexec
  exact (PoolState.silent_eq_some hstep).2

theorem context_cases {s s' : PoolState κ} {event : PoolEvent κ} (h : s.ContextChange event s')
    (hc' : s'.contexts k = some c') :
    (s.contexts k = none ∧ c'.pc = .idle) ∨
    ∃ c, s.contexts k = some c ∧ c'.lease = c.lease ∧ (c'.cleared = false → c.cleared = false) ∧
      ∀ l, c'.pc = .runWafContext (some l) →
        (event.context ≠ some k ∧ c.pc = .runWafContext (some l)) ∨
        ((∃ content, event = .serializeEphemeral k content true) ∧ c.pc = .serializeEphemeral l) := by
  have hother {j : κ} {c₁ : PooledContext} (hevent : event.context = some j) (hne : k ≠ j)
      (hcontexts : s'.contexts = Function.update s.contexts j (some c₁)) :
      event.context ≠ some k ∧ s.contexts k = some c' := by
    rw [hcontexts, Function.update_of_ne hne] at hc'
    refine ⟨?_, hc'⟩
    rw [hevent]
    exact fun heq => hne (Option.some.inj heq).symm
  cases h with
  | same hcontexts hpc =>
    rw [hcontexts] at hc'
    refine Or.inr ⟨c', hc', rfl, id, fun l hl => Or.inl ⟨?_, hl⟩⟩
    exact fun hk => hpc k c' l hk hc' hl
  | @new j _ hevent hnone hcontexts hidle =>
    by_cases hne : k = j
    . subst hne
      rw [hcontexts, Function.update_self] at hc'
      cases hc'
      exact Or.inl ⟨hnone, hidle⟩
    . have ⟨hk, hc⟩ := hother hevent hne hcontexts
      exact Or.inr ⟨c', hc, rfl, id, fun l hl => Or.inl ⟨hk, hl⟩⟩
  | @advance j c _ hevent hc hcontexts hadvances =>
    by_cases hne : k = j
    . subst hne
      rw [hcontexts, Function.update_self] at hc'
      cases hc'
      exact Or.inr ⟨c, hc, hadvances.lease, hadvances.cleared,
        fun l hl => Or.inr (hadvances.ephemeral l hl)⟩
    . have ⟨hk, hc⟩ := hother hevent hne hcontexts
      exact Or.inr ⟨c', hc, rfl, id, fun l hl => Or.inl ⟨hk, hl⟩⟩

/-- What has been returned for a context is among the roots of the arena that it has. -/
structure Safe (ls : List (SessionEvent κ ρ)) (S : Session κ) : Prop where
  pool : S.pool.Inv
  process : (Process.system Nat ρ).Reaches (effects ls) S.process
  none : ∀ k, S.pool.contexts k = none → persistentRoots k ls = []
  persistent : ∀ k c lease, S.pool.contexts k = some c → c.cleared = false →
    S.pool.pool.leases c.lease = some lease →
      ∀ r ∈ persistentRoots k ls, r ∈ Process.openRoots lease.arena (effects ls)
  ephemeral : ∀ k c l lease, S.pool.contexts k = some c → c.pc = .runWafContext (some l) →
    S.pool.pool.leases l = some lease →
      ∃ r, ephemeralRoot k ls = some r ∧ r ∈ Process.openRoots lease.arena (effects ls)

variable {S T : Session κ} {ls : List (SessionEvent κ ρ)} {event : PoolEvent κ}
  {action : Option PoolAction} {effect : Option (ProcessEvent Nat ρ)}

theorem Safe.init (h : (system κ ρ).init S) : Safe ([] : List (SessionEvent κ ρ)) S := by
  have hnone (k : κ) : S.pool.contexts k = Option.none :=
    Option.isNone_iff_eq_none.mp (h.1.2.2.2.2.2.2.1 k)
  constructor
  . exact PoolState.system_inv.init h.1
  . exact .init h.2
  . exact fun _ _ => rfl
  . intro k c lease hc
    rw [hnone] at hc
    contradiction
  . intro k c l lease hc
    rw [hnone] at hc
    contradiction

theorem persistentRoot_eq_some {s : PoolState κ} {k : κ} {r : Call ρ × ByteBuffer}
    (heffect : Effect s effect event action)
    (hr : persistentRoot k (.pool event action effect) = some r) :
    ∃ a c returns, effect = some (.arena a (.serializeMore r.1 (.ok r.2))) ∧
      s.contexts k = some c ∧ CallOn s c.lease (· = returns) effect := by
  unfold persistentRoot at hr
  split at hr
  . next j _ returns action a call root heq =>
    cases heq
    split at hr
    . next hj =>
      cases hr
      subst hj
      cases action with
      | none =>
        have ⟨c, hc, hcall⟩ := heffect
        exact ⟨a, c, returns, rfl, hc, hcall⟩
      | some action =>
        cases action with
        | reset arena => cases (show _ = _ from heffect)
        | addFirst arena => cases (show _ = _ from heffect)
        | destroy context => cases (show _ = _ from heffect)
    . contradiction
  . contradiction

theorem Safe.mem_persistentRoots_concat {k : κ} {l : SessionEvent κ ρ} {r : Call ρ × ByteBuffer}
    (hr : r ∈ persistentRoots k (ls ++ [l])) :
    r ∈ persistentRoots k ls ∨ persistentRoot k l = some r := by
  rw [persistentRoots, List.filterMap_append, List.mem_append] at hr
  rcases hr with hr | hr
  . exact Or.inl hr
  . right
    have ⟨l', hl', heq⟩ := List.mem_filterMap.mp hr
    rw [List.mem_singleton] at hl'
    rw [← heq, hl']

theorem ephemeralRoot_concat (k : κ) (ls : List (SessionEvent κ ρ)) (l : SessionEvent κ ρ) :
    ephemeralRoot k (ls ++ [l]) = ephemeralRootStep k (ephemeralRoot k ls) l := by
  rw [ephemeralRoot, List.foldl_concat, ephemeralRoot]

theorem ephemeralRootStep_of_ne {k : κ} (hne : event.context ≠ some k)
    (before : Option (Call ρ × ByteBuffer)) :
    ephemeralRootStep k before (.pool event action effect) = before := by
  unfold ephemeralRootStep
  split
  . next heq =>
    cases heq
    exact if_neg fun hj => hne (congrArg some hj)
  . rfl

theorem contexts_eq_none {s s' : PoolState κ} {k : κ} (h : s.ContextChange event s')
    (hnone : s'.contexts k = none) : s.contexts k = none := by
  cases h with
  | same hcontexts _ =>
    rw [hcontexts] at hnone
    exact hnone
  | @new j _ _ _ hcontexts _ =>
    by_cases hne : k = j
    . rw [hcontexts, hne, Function.update_self] at hnone
      contradiction
    . rw [hcontexts, Function.update_of_ne hne] at hnone
      exact hnone
  | @advance j _ _ _ _ hcontexts _ =>
    by_cases hne : k = j
    . rw [hcontexts, hne, Function.update_self] at hnone
      contradiction
    . rw [hcontexts, Function.update_of_ne hne] at hnone
      exact hnone

theorem Safe.arena_eq (h : Safe ls S) (hchange : S.pool.pool.Change event action T.pool.pool) {l : Nat}
    {lease lease' : ArenaLease κ} (hlease : S.pool.pool.leases l = some lease)
    (hlease' : T.pool.pool.leases l = some lease') : lease'.arena = lease.arena := by
  have ⟨lease₁, hlease₁, harena⟩ := hchange.keeps h.pool.pool l lease hlease
  rw [hlease'] at hlease₁
  cases hlease₁
  exact harena

theorem Safe.step_pool (h : Safe ls S)
    (hstep : step S (.pool event action effect : SessionEvent κ ρ) T) :
    Safe (ls ++ [.pool event action effect]) T := by
  have ⟨hpool, heffect, _, hprocess⟩ := hstep
  have hexec : S.pool.exec event = some (T.pool, action) := hpool.2
  have ⟨hchange, hcontext⟩ := PoolState.exec_change h.pool hexec
  constructor
  . exact (h.pool.exec hexec).1
  . rw [effects_concat]
    cases effect with
    | none =>
      rw [memoryEvent, Option.toList_none, List.append_nil, show T.process = S.process from hprocess]
      exact h.process
    | some e => exact h.process.step hprocess
  . intro k hnone
    have hnone := contexts_eq_none hcontext hnone
    rw [List.eq_nil_iff_forall_not_mem]
    intro r hr
    rcases Safe.mem_persistentRoots_concat hr with hr | hr
    . rw [h.none k hnone] at hr
      contradiction
    . have ⟨_, _, _, _, hc, _⟩ := persistentRoot_eq_some heffect hr
      rw [hnone] at hc
      contradiction
  . intro k c' lease' hc' hcleared hlease' r hr
    rcases context_cases hcontext hc' with ⟨hnone, _⟩ | ⟨c, hc, hsame, hkept, _⟩
    . rcases Safe.mem_persistentRoots_concat hr with hr | hr
      . rw [h.none k hnone] at hr
        contradiction
      . have ⟨_, _, _, _, hc, _⟩ := persistentRoot_eq_some heffect hr
        rw [hnone] at hc
        contradiction
    . have ⟨lease, hlease, _, hstage⟩ := (h.pool.contexts k c hc).lease
      rw [hsame] at hlease'
      rw [h.arena_eq hchange hlease hlease']
      rcases Safe.mem_persistentRoots_concat hr with hr | hr
      . have hspares := heffect.spares h.pool hchange hlease (hstage (hkept hcleared))
        exact hspares.mem_openRoots (h.persistent k c lease hc (hkept hcleared) hlease r hr)
      . have ⟨a, c₁, returns, heq, hc₁, hcall⟩ := persistentRoot_eq_some heffect hr
        rw [hc] at hc₁
        cases hc₁
        exact hcall.mem_openRoots hlease heq
  . intro k c' l lease' hc' hpc hlease'
    rcases context_cases hcontext hc' with ⟨_, hidle⟩ | ⟨c, hc, _, _, hephemeral⟩
    . rw [hpc] at hidle
      contradiction
    . have hok := h.pool.contexts k c hc
      rcases hephemeral l hpc with ⟨hother, hpc'⟩ | ⟨⟨content, hevent⟩, hpc'⟩
      . have ⟨lease, hlease, _, hstage⟩ := hok.ephemeral l (by rw [hpc']; rfl)
        rw [h.arena_eq hchange hlease hlease']
        have hspares := heffect.spares h.pool hchange hlease (hstage (by rw [hpc']; nofun))
        have ⟨r, hr, hmem⟩ := h.ephemeral k c l lease hc hpc' hlease
        refine ⟨r, ?_, hspares.mem_openRoots hmem⟩
        rw [ephemeralRoot_concat, ephemeralRootStep_of_ne hother]
        exact hr
      . have ⟨lease, hlease, _, hstage⟩ := hok.ephemeral l (by rw [hpc']; rfl)
        rw [h.arena_eq hchange hlease hlease']
        subst hevent
        have haction := exec_serializeEphemeral hexec
        subst haction
        have ⟨c₁, l₁, hc₁, hl₁, hcall⟩ := heffect
        rw [hc] at hc₁
        cases hc₁
        rw [hpc'] at hl₁
        cases hl₁
        have ⟨lease₁, call, result, _, heq, hresult⟩ := hcall
        cases result with
        | error e => contradiction
        | ok root =>
          refine ⟨(call, root), ?_, hcall.mem_openRoots hlease heq⟩
          rw [ephemeralRoot_concat, heq]
          exact if_pos rfl

theorem Safe.step_other (h : Safe ls S) {memory : Memory} {regions : List Range}
    (hstep : step S (.other memory regions : SessionEvent κ ρ) T) :
    Safe (ls ++ [.other memory regions]) T := by
  have ⟨hpool, hprocess⟩ := hstep
  have hpersistent (k : κ) :
      persistentRoots k (ls ++ [.other memory regions]) = persistentRoots k ls := by
    rw [persistentRoots, List.filterMap_append]
    exact List.append_nil _
  have hroots (a : Nat) : Process.openRoots a (effects (ls ++ [.other memory regions])) =
      Process.openRoots a (effects ls) := by
    rw [effects_concat]
    exact Process.openRoots_concat ..
  constructor
  . rw [hpool]
    exact h.pool
  . rw [effects_concat]
    exact h.process.step hprocess
  . intro k
    rw [hpool, hpersistent]
    exact h.none k
  . intro k c lease
    rw [hpool, hpersistent, hroots]
    exact h.persistent k c lease
  . intro k c l lease
    rw [hpool, hroots, ephemeralRoot_concat]
    exact h.ephemeral k c l lease

theorem safe_of_reaches (hrun : (system κ ρ).Reaches ls S) : Safe ls S := by
  induction hrun with
  | init h => exact .init h
  | @step _ _ l _ _ hstep ih =>
    cases l with
    | pool event action effect => exact ih.step_pool hstep
    | other memory regions => exact ih.step_other hstep

def Sees (S : Session κ) (r : Call ρ × ByteBuffer) : Prop :=
  ∃ o counters, r.1.reference = .ok (o, counters) ∧
    decode S.process.memory r.1.levels r.2.address = some (Option.none, o)

/--
In every interleaving of contexts and serializers, and whatever the rest of the process does: all
persistent data that a native context has been given is in memory as it was serialized until the
context is destroyed, and so is the ephemeral data of a run for as long as `ddwaf_run` may read it.
-/
theorem session_sees (hrun : (system κ ρ).Reaches ls S) {k : κ} {c : PooledContext}
    (hc : S.pool.contexts k = some c) :
    (c.cleared = false → ∀ r ∈ persistentRoots k ls, S.Sees r) ∧
    ∀ l, c.pc = .runWafContext (some l) → ∃ r, ephemeralRoot k ls = some r ∧ S.Sees r := by
  have hsafe := safe_of_reaches hrun
  have hleases := Process.leases_of_reaches hsafe.process
  have hok := hsafe.pool.contexts k c hc
  constructor
  . intro hcleared r hr
    have ⟨lease, hlease, _, _⟩ := hok.lease
    exact hleases.decode (hsafe.persistent k c lease hc hcleared hlease r hr)
  . intro l hpc
    have ⟨lease, hlease, _, _⟩ := hok.ephemeral l (by rw [hpc]; rfl)
    have ⟨r, hr, hmem⟩ := hsafe.ephemeral k c l lease hc hpc hlease
    exact ⟨r, hr, hleases.decode hmem⟩

end Safe

section Sample

open Program

def persistentState : SerializerState := (exec sampleCall.program freshState).2

theorem agrees_put {p : ArenaPool κ} {q : Process Nat} (h : Agrees p q) (a : Nat) (t : SerializerState) :
    Agrees { p with contents := Function.update p.contents a t.arena } (q.put a t) := by
  intro b s hs
  by_cases hb : b = a
  . subst hb
    rw [Process.arenas_put] at hs
    cases hs
    exact Function.update_self ..
  . have hs' : q.arenas b = some s := by
      rw [← hs]
      exact (Function.update_of_ne hb ..).symm
    show Function.update p.contents a t.arena b = s.arena
    rw [Function.update_of_ne hb]
    exact h b s hs'

theorem agrees_start : Agrees PoolState.sampleStart.pool Process.start := by
  intro a s hs
  cases hs

section Reaches

variable [DecidableEq κ] {S : Session κ} {ls : List (SessionEvent κ ρ)} {p : PoolState κ}

theorem reaches_silent (hrun : (system κ ρ).Reaches ls S) (event : PoolEvent κ)
    (hok : S.pool.EventOk event) (hexec : S.pool.exec event = some (p, none))
    (heffect : EffectOf S.pool (none : Option (ProcessEvent Nat ρ)) event)
    (hagrees : Agrees p.pool S.process) :
    (system κ ρ).Reaches (ls ++ [.pool event none none]) ⟨p, S.process⟩ :=
  hrun.step ⟨⟨hok, hexec⟩, heffect, hagrees, rfl⟩

theorem reaches_effect (hrun : (system κ ρ).Reaches ls S) (event : PoolEvent κ) (e : ProcessEvent Nat ρ)
    {q : Process Nat} (hok : S.pool.EventOk event) (hexec : S.pool.exec event = some (p, none))
    (heffect : EffectOf S.pool (some e) event) (hagrees : Agrees p.pool q)
    (hstep : S.process.step e q) :
    (system κ ρ).Reaches (ls ++ [.pool event none (some e)]) ⟨p, q⟩ :=
  hrun.step ⟨⟨hok, hexec⟩, heffect, hagrees, hstep⟩

end Reaches

theorem calls_sample : ∃ root t arena s root' t',
    exec sampleCall.program freshState = (.ok root, t) ∧
    exec (Arena.new bumpAllocator) (Process.noArena t) = (.ok arena, s) ∧
    exec sampleCall.program (Process.opened arena s) = (.ok root', t') := by
  have hpersistent : (exec sampleCall.program freshState).1.isOk = true := by decide +kernel
  have harena : (exec (Arena.new bumpAllocator) (Process.noArena persistentState)).1.isOk = true := by
    decide +kernel
  have hephemeral : (exec sampleCall.program (Process.secondArena persistentState)).1.isOk = true := by
    decide +kernel
  have ⟨root, hroot⟩ := exec_of_isOk hpersistent
  have ⟨arena, harena⟩ := exec_of_isOk harena
  have ⟨root', hroot'⟩ := exec_of_isOk hephemeral
  rw [Process.secondArena_eq harena] at hroot'
  exact ⟨root, persistentState, arena, _, root', _, hroot, harena, hroot'⟩

theorem session_sees_sample :
    ∃ (S : Session Unit) (persistent ephemeral : ByteBuffer),
      S.Sees (sampleCall, persistent) ∧ S.Sees (sampleCall, ephemeral) := by
  obtain ⟨root, t, arena, s, root', t', hroot, harena, hroot'⟩ := calls_sample
  have hfresh : PoolState.NewArena bumpArena := ⟨bumpAllocator, emptyState, by rw [newArena_bump]⟩
  have hfresh' : PoolState.NewArena arena := ⟨bumpAllocator, Process.noArena t, by rw [harena]⟩
  have hcontent : PoolState.SerializesTo bumpArena t.arena :=
    ⟨Bool, sampleCall, freshState, rfl, by rw [hroot]⟩
  have hcontent' : PoolState.SerializesTo arena t'.arena :=
    ⟨Bool, sampleCall, Process.opened arena s, rfl, by rw [hroot']⟩
  have hinit : (system Unit Bool).init ⟨PoolState.sampleStart, Process.start⟩ :=
    ⟨by simp [PoolState.system, PoolState.sampleStart], fun _ => rfl⟩
  have hagrees := agrees_put agrees_start 0 freshState
  have hagrees' := agrees_put hagrees 0 t
  have hagrees'' := agrees_put hagrees' 1 (Process.opened arena s)
  have hrun := reaches_silent (.init hinit) (.initWafContext ()) trivial rfl rfl agrees_start
  have hrun := reaches_effect hrun (.getContextLease () (some bumpArena)) (.newArena 0)
    (fun _ ha => Option.some.inj ha ▸ hfresh) rfl rfl hagrees
    ⟨rfl, bumpAllocator, emptyState, _, bumpArena, rfl, rfl, newArena_bump, rfl⟩
  have hrun := reaches_silent hrun (.run () true true) trivial rfl rfl hagrees
  have hrun := reaches_effect hrun (.serializePersistent () t.arena true)
    (.arena 0 (.serializeMore sampleCall (.ok root)))
    (by intro c hc lease hlease; cases hc; cases hlease; exact hcontent) rfl
    ⟨_, rfl, _, _, _, rfl, rfl, rfl⟩ hagrees'
    ⟨trivial, freshState, t, Process.arenas_put _ _ _, hroot, rfl⟩
  have hrun := reaches_effect hrun (.getEphemeralLease () (some arena)) (.newArena 1)
    (fun _ ha => Option.some.inj ha ▸ hfresh') rfl rfl hagrees''
    ⟨rfl, bumpAllocator, Process.noArena t, s, arena, rfl, rfl, harena, rfl⟩
  have hrun := reaches_effect hrun (.serializeEphemeral () t'.arena true)
    (.arena 1 (.serializeMore sampleCall (.ok root')))
    (by intro c l hc hl lease hlease; cases hc; cases hl; cases hlease; exact hcontent') rfl
    ⟨_, _, rfl, rfl, _, _, _, rfl, rfl, rfl⟩ (agrees_put hagrees'' 1 t')
    ⟨trivial, Process.opened arena s, t', Process.arenas_put _ _ _, hroot', rfl⟩
  obtain ⟨hsees, hsees'⟩ := session_sees hrun (k := ()) rfl
  obtain ⟨r, hr, hsees'⟩ := hsees' 1 rfl
  cases hr
  exact ⟨_, root, root', hsees rfl _ List.mem_cons_self, hsees'⟩

end Sample

end Session

end Ddwaf
