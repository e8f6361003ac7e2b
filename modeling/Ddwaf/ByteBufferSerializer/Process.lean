import Ddwaf.ByteBufferSerializer.Confined.Serialize
import Ddwaf.ByteBufferSerializer.Lease

/-!
This module contains a process with any number of arenas that are used in any order, in one memory that
they share with each other and with the rest of the process: what each of them sees is a run of its own.
-/

namespace Ddwaf

open Memory Program SharedMemory SerializerState

/--
Memory and the direct buffers that exist are those of the process, not the fields of an arena.
-/
structure Process (κ : Type) where
  memory : Memory
  regions : List Range
  arenas : κ → Option SerializerState

/--
An `arena` event is a call or the close of a lease, and `other` is what the rest of the process
does.
-/
inductive ProcessEvent (κ ρ : Type) where
  | newArena (k : κ)
  | arena (k : κ) (event : ArenaEvent ρ)
  | dropArena (k : κ)
  | other (memory : Memory) (regions : List Range)

def ArenaEvent.IsOwn : ArenaEvent ρ → Prop
  | .other _ _ => False
  | _ => True

namespace Process

variable {κ ρ : Type}

def see (p : Process κ) (s : SerializerState) : SerializerState :=
  { s with memory := p.memory, regions := p.regions }

section System

variable [DecidableEq κ]

def put (p : Process κ) (k : κ) (s : SerializerState) : Process κ :=
  ⟨s.memory, s.regions, Function.update p.arenas k (some s)⟩

/--
A call is one step. The rest of the process does not free buffers that an arena has, and does not
write to them.
-/
def step (p : Process κ) : ProcessEvent κ ρ → Process κ → Prop
  | .newArena k, q => p.arenas k = none ∧
    ∃ alloc s₀ s₁ arena, s₀.memory = p.memory ∧ s₀.regions = p.regions ∧
      exec (Arena.new alloc) s₀ = (.ok arena, s₁) ∧
      q = p.put k { s₁ with arena := arena, nextArray := 0, nextView := 0, handedOut := [] }
  | .arena k event, q => event.IsOwn ∧
    ∃ s t, p.arenas k = some s ∧ arenaStep (p.see s) event t ∧ q = p.put k t
  | .dropArena k, q => q = { p with arenas := Function.update p.arenas k none }
  | .other memory regions, q =>
    (∀ k s, p.arenas k = some s → (∀ b ∈ s.arena.buffers, b.range ∈ regions) ∧
      ∀ x ∈ s.Owned, memory x = p.memory x) ∧ q = ⟨memory, regions, p.arenas⟩

def system (κ ρ : Type) [DecidableEq κ] : System (Process κ) (ProcessEvent κ ρ) where
  init p := ∀ k, p.arenas k = none
  step := step

def roots (k : κ) (before : List (Call ρ × ByteBuffer)) : ProcessEvent κ ρ → List (Call ρ × ByteBuffer)
  | .newArena j => if j = k then [] else before
  | .arena j (.serializeMore call (.ok root)) => if j = k then (call, root) :: before else before
  | .arena j .close => if j = k then [] else before
  | .dropArena j => if j = k then [] else before
  | _ => before

def openRoots (k : κ) (ls : List (ProcessEvent κ ρ)) : List (Call ρ × ByteBuffer) :=
  ls.foldl (roots k) []

theorem openRoots_concat (k : κ) (ls : List (ProcessEvent κ ρ)) (l : ProcessEvent κ ρ) :
    openRoots k (ls ++ [l]) = roots k (openRoots k ls) l := by
  rw [openRoots, List.foldl_concat, openRoots]

end System

section Arenas

theorem owned_subset_of_used {s : SerializerState} (h : WF s) {x : Nat} (hx : s.Used x) :
    x ∈ s.Owned := by
  have ⟨b, hb, huses⟩ := hx
  have hposition := (h.buffers.ok b hb).position
  unfold ByteBuffer.Uses at huses
  exact ⟨b, hb, huses.1, by omega⟩

theorem reset_inside {s : SerializerState} (h : Inside s) : Inside s.reset ∧ s.reset.Owned = s.Owned := by
  have howned : s.reset.Owned = s.Owned := by
    ext x
    show (∃ b ∈ s.arena.reset.buffers, x ∈ b.addresses) ↔ _
    rw [buffers_reset]
    simp only [List.mem_map, exists_exists_and_eq_and]
    rfl
  refine ⟨?_, howned⟩
  constructor
  . show ∀ b ∈ s.arena.reset.buffers, _
    rw [buffers_reset]
    intro b hb
    have ⟨c, _, hc⟩ := List.mem_map.mp hb
    rw [← hc]
    exact Nat.le_refl _
  . intro segment hsegment
    have ⟨segment', hsegment', heq⟩ := List.mem_map.mp hsegment
    rw [← heq]
    exact h.known segment' hsegment'
  . rw [howned]
    exact h.arrays
  . exact h.lists
  . rw [howned]
    exact h.views

theorem not_used_reset (s : SerializerState) (x : Nat) : ¬s.reset.Used x := by
  intro ⟨b, hb, huses⟩
  have hb : b ∈ s.arena.reset.buffers := hb
  rw [buffers_reset] at hb
  have ⟨c, _, hc⟩ := List.mem_map.mp hb
  rw [← hc] at huses
  unfold ByteBuffer.Uses at huses
  simp only [ByteBuffer.clear] at huses
  omega

theorem arenaStep_confined {s t : SerializerState} {event : ArenaEvent ρ} (h : Inside s)
    (hown : event.IsOwn) (hstep : arenaStep s event t) : Inside t ∧ Confined s t := by
  cases event with
  | serializeMore call result =>
    have hkeeps := ByteBufferSerializer.confines_serializeMore call.alloc call.limits call.heap h
      call.map call.metrics
    have hexec : exec (ByteBufferSerializer.serializeMore call.alloc call.limits call.heap call.map
      call.metrics) s = (result, t) := hstep
    have hinv := hkeeps.inv
    have hrel := hkeeps.rel
    rw [hexec] at hinv hrel
    exact ⟨hinv, hrel⟩
  | close =>
    have ht : t = s.reset := hstep
    have ⟨hinside, howned⟩ := reset_inside h
    rw [ht]
    exact ⟨hinside, Confined.of_eq rfl rfl howned (Nat.le_refl _) (Nat.le_refl _)⟩
  | other memory regions => exact hown.elim

theorem newArena_confined {alloc : Allocator} {s₀ s₁ : SerializerState} {arena : Arena}
    (h : exec (Arena.new alloc) s₀ = (.ok arena, s₁)) :
    Inside { s₁ with arena := arena, nextArray := 0, nextView := 0, handedOut := [] } ∧
      Guarantee ∅ (Owned { s₁ with arena := arena }) s₀.store s₁.store ∧ s₀.regions ⊆ s₁.regions := by
  obtain ⟨e, s, he, h⟩ := bind_ok h
  obtain ⟨b, s', hb, he⟩ := bind_ok he
  obtain ⟨address, haddress, rfl, rfl⟩ := allocateDirect_ok hb
  cases he
  obtain ⟨e', s', hs, h⟩ := bind_ok h
  obtain ⟨c, s'', hc, hs⟩ := bind_ok hs
  obtain ⟨address', haddress', rfl, rfl⟩ := allocateDirect_ok hc
  cases hs
  cases h
  refine ⟨?_, ?_, List.Subset.trans (List.subset_cons_self _ _) (List.subset_cons_self _ _)⟩
  . constructor
    . intro b hb
      simp only [Arena.buffers, List.map_cons, List.map_nil, List.mem_append, List.mem_singleton] at hb
      rcases hb with rfl | rfl
      . exact Nat.le_refl _
      . exact Nat.le_refl _
    . intro segment hsegment a ha
      rw [List.mem_singleton.mp hsegment] at ha
      contradiction
    . exact fun a ha => absurd ha (Nat.not_lt_zero a)
    . exact fun a ha => absurd ha (Nat.not_lt_zero a)
    . exact fun v hv => absurd hv (Nat.not_lt_zero v)
  . have hfirst := guarantee_withRegion ∅ haddress fun x hx => Or.inr hx
    apply hfirst.trans
    apply guarantee_withRegion _ haddress'
    rintro x ⟨b, hb, hx⟩
    simp only [Arena.buffers, List.map_cons, List.map_nil, List.mem_append, List.mem_singleton] at hb
    rcases hb with rfl | rfl
    . exact Or.inl hx
    . exact Or.inr hx

end Arenas

def owned (p : Process κ) (k : κ) : Set Nat := { x | ∃ s, p.arenas k = some s ∧ x ∈ s.Owned }

def store (p : Process κ) : Store where
  memory := p.memory
  allocated := { x | ∃ r ∈ p.regions, r.1 ≤ x ∧ x < r.1 + r.2 }

structure Ok (p : Process κ) : Prop where
  wf : ∀ k s, p.arenas k = some s → WF (p.see s)
  inside : ∀ k s, p.arenas k = some s → Inside (p.see s)
  separate : Separate p.owned p.store

section Steps

variable {p q : Process κ} {k j : κ}

theorem owned_some {s : SerializerState} (hs : p.arenas k = some s) : p.owned k = s.Owned := by
  ext x
  simp [owned, hs]

theorem owned_none (hnone : p.arenas k = none) : p.owned k = ∅ := by
  ext x
  simp [owned, hnone]

theorem owned_allocated {s : SerializerState} (h : WF s) : s.Owned ⊆ s.store.allocated := by
  intro x ⟨b, hb, hx⟩
  exact ⟨b.range, h.buffers.regions b hb, hx⟩

structure Relies (p q : Process κ) (j : κ) : Prop where
  same : q.arenas j = p.arenas j
  regions : ∀ s, p.arenas j = some s → ∀ b ∈ s.arena.buffers, b.range ∈ q.regions
  memory : ∀ s, p.arenas j = some s → ∀ x ∈ s.Owned, q.memory x = p.memory x

theorem Ok.of_relies (h : Ok p) (hrelies : ∀ j, q.arenas j = none ∨ Relies p q j) : Ok q := by
  have hwf : ∀ j s, q.arenas j = some s → p.arenas j = some s ∧ WF (q.see s) := by
    intro j s hs
    rcases hrelies j with hnone | hj
    . rw [hnone] at hs
      contradiction
    . have hs' := hj.same ▸ hs
      exact ⟨hs', WF.other (h.wf j s hs') (hj.regions s hs')⟩
  constructor
  . exact fun j s hs => (hwf j s hs).2
  . exact fun j s hs => (h.inside j s (hwf j s hs).1).of_eq rfl rfl rfl rfl rfl
  . apply h.separate.mono
    . intro j x ⟨s, hs, hx⟩
      exact ⟨s, (hwf j s hs).1, hx⟩
    . intro j x ⟨s, hs, hx⟩
      exact owned_allocated (hwf j s hs).2 hx

structure Takes (p : Process κ) (k : κ) (t : SerializerState) : Prop where
  wf : WF t
  inside : Inside t
  guarantee : Guarantee (p.owned k) t.Owned p.store t.store
  regions : p.regions ⊆ t.regions

theorem takes_arena {event : ArenaEvent ρ} {s t : SerializerState} (h : Ok p)
    (hs : p.arenas k = some s) (hown : event.IsOwn) (hstep : arenaStep (p.see s) event t) :
    Takes p k t := by
  have ⟨hinside, hconfined⟩ := arenaStep_confined (h.inside k s hs) hown hstep
  constructor
  . exact arenaSystem_wf.step (h.wf k s hs) hstep
  . exact hinside
  . rw [owned_some hs]
    exact hconfined.guarantee
  . exact hconfined.regions

theorem takes_newArena {alloc : Allocator} {s₀ s₁ : SerializerState} {arena : Arena}
    (hnone : p.arenas k = none) (hmemory : s₀.memory = p.memory) (hregions : s₀.regions = p.regions)
    (hnew : exec (Arena.new alloc) s₀ = (.ok arena, s₁)) :
    Takes p k { s₁ with arena := arena, nextArray := 0, nextView := 0, handedOut := [] } := by
  have hfresh : Fresh { s₁ with arena := arena, nextArray := 0, nextView := 0, handedOut := [] } :=
    ⟨alloc, s₀, s₁, arena, hnew, rfl⟩
  have ⟨hinside, hguarantee, hsub⟩ := newArena_confined hnew
  have hstore : s₀.store = p.store := by
    rw [SerializerState.store, Process.store, hmemory, hregions]
  rw [hstore] at hguarantee
  constructor
  . exact hfresh.wf
  . exact hinside
  . rw [owned_none hnone]
    exact hguarantee
  . rw [← hregions]
    exact hsub

variable [DecidableEq κ]

theorem arenas_put (p : Process κ) (k : κ) (t : SerializerState) :
    (p.put k t).arenas k = some t := Function.update_self ..

theorem owned_put (k : κ) (t : SerializerState) :
    (p.put k t).owned = Function.update p.owned k t.Owned := by
  funext j
  by_cases hj : j = k
  . rw [hj, Function.update_self, owned_some (arenas_put p k t)]
  . rw [Function.update_of_ne hj]
    ext x
    simp [owned, put, Function.update_of_ne hj]

theorem Takes.relies {t : SerializerState} (h : Takes p k t) (hp : Ok p) (hj : j ≠ k) :
    Relies p (p.put k t) j := by
  constructor
  . exact Function.update_of_ne hj ..
  . exact fun s hs b hb => h.regions ((hp.wf j s hs).buffers.regions b hb)
  . intro s hs x hx
    exact hp.separate.frame h.guarantee hj.symm x ⟨s, hs, hx⟩

theorem Takes.ok {t : SerializerState} (h : Takes p k t) (hp : Ok p) : Ok (p.put k t) := by
  have hself (s : SerializerState) (hs : (p.put k t).arenas k = some s) : (p.put k t).see s = t := by
    rw [arenas_put, Option.some.injEq] at hs
    rw [← hs]
    rfl
  constructor
  . intro j s hs
    by_cases hj : j = k
    . subst hj
      rw [hself s hs]
      exact h.wf
    . have hrelies := h.relies hp hj
      have hs := hrelies.same ▸ hs
      exact WF.other (hp.wf j s hs) (hrelies.regions s hs)
  . intro j s hs
    by_cases hj : j = k
    . subst hj
      rw [hself s hs]
      exact h.inside
    . have hs := (h.relies hp hj).same ▸ hs
      exact (hp.inside j s hs).of_eq rfl rfl rfl rfl rfl
  . rw [owned_put]
    exact hp.separate.step h.guarantee (owned_allocated h.wf)

def target : ProcessEvent κ ρ → Option κ
  | .newArena k => some k
  | .arena k _ => some k
  | .dropArena k => some k
  | .other _ _ => none

theorem step_ok {l : ProcessEvent κ ρ} (h : Ok p) (hstep : step p l q) :
    Ok q ∧ ∀ j, target l ≠ some j → Relies p q j := by
  cases l with
  | newArena k =>
    obtain ⟨hnone, alloc, s₀, s₁, arena, hmemory, hregions, hnew, rfl⟩ := hstep
    have htakes := takes_newArena hnone hmemory hregions hnew
    exact ⟨htakes.ok h, fun j hj => htakes.relies h fun heq => hj (heq ▸ rfl)⟩
  | arena k event =>
    obtain ⟨hown, s, t, hs, harena, rfl⟩ := hstep
    have htakes := takes_arena h hs hown harena
    exact ⟨htakes.ok h, fun j hj => htakes.relies h fun heq => hj (heq ▸ rfl)⟩
  | dropArena k =>
    have hq : q = { p with arenas := Function.update p.arenas k none } := hstep
    have hrelies (j : κ) (hj : j ≠ k) : Relies p q j := by
      rw [hq]
      exact ⟨Function.update_of_ne hj .., fun s hs b hb => (h.wf j s hs).buffers.regions b hb,
        fun _ _ _ _ => rfl⟩
    refine ⟨h.of_relies fun j => ?_, fun j hj => hrelies j fun heq => hj (heq ▸ rfl)⟩
    by_cases hj : j = k
    . left
      rw [hq, hj]
      exact Function.update_self ..
    . exact Or.inr (hrelies j hj)
  | other memory regions =>
    obtain ⟨hframe, rfl⟩ := hstep
    have hrelies (j : κ) : Relies p ⟨memory, regions, p.arenas⟩ j :=
      ⟨rfl, fun s hs => (hframe j s hs).1, fun s hs => (hframe j s hs).2⟩
    exact ⟨h.of_relies fun j => Or.inr (hrelies j), fun j _ => hrelies j⟩

end Steps

section Leases

theorem reaches_arena {es : List (ArenaEvent ρ)} {s : SerializerState}
    (hrun : (leaseSystem ρ).Reaches es s) : ∃ es', (arenaSystem ρ).Reaches es' s := by
  induction hrun with
  | init hinit => exact hinit.1
  | step _ hstep ih =>
    have ⟨es', hes'⟩ := ih
    exact ⟨_, hes'.step hstep.1⟩

def SeesLease (s : SerializerState) (returned : List (Call ρ × ByteBuffer)) : Prop :=
  ∃ es, (leaseSystem ρ).Reaches es s ∧ ∀ c ∈ returned, ArenaEvent.serializeMore c.1 (.ok c.2) ∈ es

variable {p q : Process κ} {k : κ}

theorem SeesLease.relies {s : SerializerState} {returned : List (Call ρ × ByteBuffer)}
    (h : SeesLease (p.see s) returned) (hwf : WF (p.see s)) (hs : p.arenas k = some s)
    (hrelies : Relies p q k) : SeesLease (q.see s) returned := by
  have ⟨es, hrun, hes⟩ := h
  have hstep : leaseStep (p.see s) (.other q.memory q.regions : ArenaEvent ρ) (q.see s) :=
    ⟨⟨hrelies.regions s hs, rfl⟩,
      fun x hx => hrelies.memory s hs x (owned_subset_of_used hwf hx)⟩
  exact ⟨_, hrun.step hstep, fun c hc => List.mem_append_left _ (hes c hc)⟩

theorem SeesLease.close {s : SerializerState} {returned : List (Call ρ × ByteBuffer)}
    (h : SeesLease s returned) : SeesLease s.reset ([] : List (Call ρ × ByteBuffer)) := by
  have ⟨es, hrun, _⟩ := h
  have ⟨es', harena⟩ := reaches_arena hrun
  have hclosed : (arenaSystem ρ).Reaches (es' ++ [.close]) s.reset := harena.step rfl
  exact ⟨[], .init ⟨⟨_, hclosed⟩, not_used_reset s⟩, fun _ hc => nomatch hc⟩

theorem seesLease_fresh {s : SerializerState} (h : Fresh s) :
    SeesLease s ([] : List (Call ρ × ByteBuffer)) :=
  ⟨[], .init ⟨⟨[], .init h⟩, h.not_used⟩, fun _ hc => nomatch hc⟩

variable [DecidableEq κ]

theorem roots_of_ne {l : ProcessEvent κ ρ} {k : κ} (hk : target l ≠ some k)
    (before : List (Call ρ × ByteBuffer)) : roots k before l = before := by
  cases l with
  | newArena j =>
    have hj : j ≠ k := fun hj => hk (hj ▸ rfl)
    exact if_neg hj
  | arena j event =>
    have hj : j ≠ k := fun hj => hk (hj ▸ rfl)
    cases event with
    | serializeMore call result =>
      cases result with
      | ok root => exact if_neg hj
      | error e => rfl
    | close => exact if_neg hj
    | other memory regions => rfl
  | dropArena j =>
    have hj : j ≠ k := fun hj => hk (hj ▸ rfl)
    exact if_neg hj
  | other memory regions => rfl

theorem SeesLease.call {s t : SerializerState} {returned : List (Call ρ × ByteBuffer)}
    {call : Call ρ} {result : Except Stop ByteBuffer} (h : SeesLease s returned)
    (hstep : arenaStep s (.serializeMore call result) t) :
    SeesLease t (roots k returned (.arena k (.serializeMore call result))) := by
  have ⟨es, hrun, hes⟩ := h
  refine ⟨es ++ [.serializeMore call result], hrun.step ⟨hstep, trivial⟩, ?_⟩
  intro c hc
  cases result with
  | error e => exact List.mem_append_left _ (hes c hc)
  | ok root =>
    simp only [roots, if_true] at hc
    rcases List.mem_cons.mp hc with rfl | hc
    . exact List.mem_append_right _ (List.mem_singleton_self _)
    . exact List.mem_append_left _ (hes c hc)

structure Leases (ls : List (ProcessEvent κ ρ)) (p : Process κ) : Prop where
  ok : Ok p
  sees : ∀ k s, p.arenas k = some s → SeesLease (p.see s) (openRoots k ls)
  none : ∀ k, p.arenas k = none → openRoots k ls = []

theorem Leases.init (h : (system κ ρ).init p) : Leases ([] : List (ProcessEvent κ ρ)) p := by
  have hnone (k : κ) : p.arenas k = Option.none := h k
  constructor
  . constructor
    . intro k s hs
      rw [hnone k] at hs
      contradiction
    . intro k s hs
      rw [hnone k] at hs
      contradiction
    . constructor
      . intro k
        rw [owned_none (hnone k)]
        exact Set.empty_subset _
      . intro k k' _
        rw [owned_none (hnone k)]
        exact Set.empty_disjoint _
  . intro k s hs
    rw [hnone k] at hs
    contradiction
  . exact fun _ _ => rfl

theorem Leases.target {ls : List (ProcessEvent κ ρ)} {l : ProcessEvent κ ρ} (h : Leases ls p)
    (hstep : step p l q) (hk : Process.target l = some k) :
    (∀ s, q.arenas k = some s → SeesLease (q.see s) (roots k (openRoots k ls) l)) ∧
      (q.arenas k = Option.none → roots k (openRoots k ls) l = []) := by
  cases l with
  | newArena j =>
    cases hk
    obtain ⟨_, alloc, s₀, s₁, arena, _, _, hnew, rfl⟩ := hstep
    rw [arenas_put]
    refine ⟨fun s hs => ?_, fun hnone => nomatch hnone⟩
    cases hs
    simp only [roots, if_true]
    exact seesLease_fresh ⟨alloc, s₀, s₁, arena, hnew, rfl⟩
  | arena j event =>
    cases hk
    obtain ⟨hown, s, t, hs, harena, rfl⟩ := hstep
    have hsees := h.sees k s hs
    rw [arenas_put]
    refine ⟨fun s' hs' => ?_, fun hnone => nomatch hnone⟩
    cases hs'
    show SeesLease t _
    cases event with
    | serializeMore call result => exact hsees.call harena
    | close =>
      have ht : t = (p.see s).reset := harena
      rw [ht]
      simp only [roots, if_true]
      exact hsees.close
    | other memory regions => exact hown.elim
  | dropArena j =>
    cases hk
    have hq : q = { p with arenas := Function.update p.arenas k Option.none } := hstep
    have hnone : q.arenas k = Option.none := by
      rw [hq]
      exact Function.update_self ..
    rw [hnone]
    refine ⟨fun _ hs => (nomatch hs), fun _ => ?_⟩
    exact if_pos rfl
  | other memory regions => cases hk

theorem leases_of_reaches {ls : List (ProcessEvent κ ρ)} (hrun : (system κ ρ).Reaches ls p) :
    Leases ls p := by
  induction hrun with
  | init h => exact .init h
  | @step ls p l q _ hstep ih =>
    have ⟨hok, hrelies⟩ := step_ok ih.ok hstep
    refine ⟨hok, fun k s hs => ?_, fun k hnone => ?_⟩
    . rw [openRoots_concat]
      by_cases hk : Process.target l = some k
      . exact (ih.target hstep hk).1 s hs
      . have hrelies := hrelies k hk
        have hs := hrelies.same ▸ hs
        rw [roots_of_ne hk]
        exact (ih.sees k s hs).relies (ih.ok.wf k s hs) hs hrelies
    . rw [openRoots_concat]
      by_cases hk : Process.target l = some k
      . exact (ih.target hstep hk).2 hnone
      . rw [roots_of_ne hk]
        exact ih.none k ((hrelies k hk).same ▸ hnone)

theorem Leases.decode {ls : List (ProcessEvent κ ρ)} (h : Leases ls p) {c : Call ρ × ByteBuffer}
    (hc : c ∈ openRoots k ls) : ∃ o counters, c.1.reference = .ok (o, counters) ∧
      decode p.memory c.1.levels c.2.address = some (Option.none, o) := by
  cases hs : p.arenas k with
  | none =>
    rw [h.none k hs] at hc
    contradiction
  | some s =>
    have ⟨es, hlease, hes⟩ := h.sees k s hs
    have ⟨_, hroots⟩ := leaseSystem_roots hlease
    have ⟨F, o, counters, hreference, _, hdecode⟩ := hroots c.1 c.2 (hes c hc)
    exact ⟨o, counters, hreference, hdecode p.memory fun _ _ => rfl⟩

/--
In whatever order the arenas of a process are used, what each of them sees is a run of its open lease:
no call writes to the buffers of another arena, and what a lease has returned stays what it stands for
until the lease is closed.
-/
theorem process_leases {ls : List (ProcessEvent κ ρ)} (hrun : (system κ ρ).Reaches ls p) :
    (∀ k s, p.arenas k = some s → SeesLease (p.see s) (openRoots k ls)) ∧
    (∀ k, ∀ c ∈ openRoots k ls, ∃ o counters, c.1.reference = .ok (o, counters) ∧
      decode p.memory c.1.levels c.2.address = some (Option.none, o)) ∧
    (∀ k k' s s', k ≠ k' → p.arenas k = some s → p.arenas k' = some s' →
      Disjoint s.Owned s'.Owned) ∧
    ∀ k (event : ArenaEvent ρ) q, step p (.arena k event) q → ∀ k' s', k ≠ k' → p.arenas k' = some s' →
      ∀ x ∈ s'.Owned, q.memory x = p.memory x := by
  have hleases := leases_of_reaches hrun
  refine ⟨hleases.sees, fun k c hc => hleases.decode hc, ?_, ?_⟩
  . intro k k' s s' hne hs hs'
    have hdisjoint := hleases.ok.separate.disjoint k k' hne
    rw [owned_some hs, owned_some hs'] at hdisjoint
    exact hdisjoint
  . intro k event q hstep k' s' hne hs'
    have hrelies := (step_ok hleases.ok hstep).2 k' fun heq => hne (Option.some.inj heq)
    exact hrelies.memory s' hs'

end Leases

section Sample

def start : Process Nat := ⟨emptyState.memory, emptyState.regions, fun _ => none⟩

def noArena (t : SerializerState) : SerializerState :=
  { emptyState with memory := t.memory, regions := t.regions }

def opened (arena : Arena) (s : SerializerState) : SerializerState :=
  { s with arena := arena, nextArray := 0, nextView := 0, handedOut := [] }

def secondArena (t : SerializerState) : SerializerState :=
  match exec (Arena.new bumpAllocator) (noArena t) with
  | (.ok arena, s) => opened arena s
  | (.error _, s) => s

theorem secondArena_eq {t s : SerializerState} {arena : Arena}
    (h : exec (Arena.new bumpAllocator) (noArena t) = (.ok arena, s)) :
    secondArena t = opened arena s := by
  unfold secondArena
  split
  . next h' =>
    rw [h] at h'
    cases h'
    rfl
  . next h' =>
    rw [h] at h'
    cases h'

def twoArenas : Process Nat := (start.put 0 freshState).put 1 (secondArena freshState)

theorem reaches_twoArenas : (system Nat ρ).Reaches [.newArena 0, .newArena 1] twoArenas := by
  have hok : (exec (Arena.new bumpAllocator) (noArena freshState)).1.isOk = true := by
    decide +kernel
  obtain ⟨arena, harena⟩ := exec_of_isOk hok
  have hfirst : (system Nat ρ).step start (.newArena 0) (start.put 0 freshState) :=
    ⟨rfl, bumpAllocator, emptyState, _, bumpArena, rfl, rfl, newArena_bump, rfl⟩
  have hsecond : (system Nat ρ).step (start.put 0 freshState) (.newArena 1) twoArenas :=
    ⟨rfl, bumpAllocator, noArena freshState, _, arena, rfl, rfl, harena,
      by rw [twoArenas, secondArena_eq harena]; rfl⟩
  exact .step (.step (.init fun _ => rfl) hfirst) hsecond

def runOn (p : Process Nat) (k : Nat) (call : Call ρ) : Process Nat :=
  match p.arenas k with
  | none => p
  | some s => p.put k (exec call.program (p.see s)).2

def returns (p : Process Nat) (k : Nat) (call : Call ρ) : Option Bool :=
  (p.arenas k).map fun s => (exec call.program (p.see s)).1.isOk

theorem step_of_returns {p : Process Nat} {k : Nat} {call : Call ρ} {ok : Bool}
    (h : p.returns k call = some ok) :
    ∃ result : Except Stop ByteBuffer, result.isOk = ok ∧
      (system Nat ρ).step p (.arena k (.serializeMore call result)) (p.runOn k call) := by
  obtain ⟨s, hs, hok⟩ := Option.map_eq_some_iff.mp h
  have hstep : arenaStep (p.see s) (.serializeMore call (exec call.program (p.see s)).1)
      (exec call.program (p.see s)).2 := rfl
  have hrunOn : p.runOn k call = p.put k (exec call.program (p.see s)).2 := by
    simp only [runOn, hs]
  exact ⟨_, hok, trivial, s, _, hs, hstep, hrunOn⟩

theorem step_returns (p : Process Nat) (k : Nat) (call : Call ρ) (h : p.returns k call = some true) :
    ∃ root, (system Nat ρ).step p (.arena k (.serializeMore call (.ok root))) (p.runOn k call) := by
  obtain ⟨result, hok, hstep⟩ := step_of_returns h
  cases result with
  | error e => contradiction
  | ok root => exact ⟨root, hstep⟩

theorem step_throws (p : Process Nat) (k : Nat) (call : Call ρ) (h : p.returns k call = some false) :
    ∃ e, (system Nat ρ).step p (.arena k (.serializeMore call (.error e))) (p.runOn k call) := by
  obtain ⟨result, hok, hstep⟩ := step_of_returns h
  cases result with
  | error e => exact ⟨e, hstep⟩
  | ok root => contradiction

def closed (p : Process Nat) (k : Nat) : Process Nat :=
  match p.arenas k with
  | none => p
  | some s => p.put k (p.see s).reset

theorem step_closed {p : Process Nat} {k : Nat} {s : SerializerState} (hs : p.arenas k = some s) :
    (system Nat ρ).step p (.arena k .close) (p.closed k) :=
  ⟨trivial, s, _, hs, rfl, by simp only [closed, hs]⟩

def process₁ : Process Nat := twoArenas.runOn 0 (richCall 0)

def process₂ : Process Nat := process₁.runOn 1 (richCall 2)

def process₃ : Process Nat := process₂.runOn 1 (richCall 1)

def process₄ : Process Nat := process₃.closed 0

def process₅ : Process Nat := process₄.runOn 0 (richCall 0)

/--
A call on one arena, one that throws and one that returns on the other, and then another lease of the
first.
-/
theorem reaches_sample : ∃ ls root root', (system Nat Nat).Reaches ls process₅ ∧
    openRoots 0 ls = [(richCall 0, root)] ∧ openRoots 1 ls = [(richCall 1, root')] := by
  obtain ⟨s, hs⟩ : ∃ s, process₃.arenas 0 = some s := Option.isSome_iff_exists.mp (by decide +kernel)
  obtain ⟨first, h₁⟩ := step_returns twoArenas 0 (richCall 0) (by decide +kernel)
  obtain ⟨e, h₂⟩ := step_throws process₁ 1 (richCall 2) (by decide +kernel)
  obtain ⟨root', h₃⟩ := step_returns process₂ 1 (richCall 1) (by decide +kernel)
  obtain ⟨root, h₅⟩ := step_returns process₄ 0 (richCall 0) (by decide +kernel)
  have hcalls : (system Nat Nat).Reaches _ process₃ :=
    ((reaches_twoArenas.step h₁).step h₂).step h₃
  exact ⟨_, root, root', (hcalls.step (step_closed hs)).step h₅, rfl, rfl⟩

theorem process_leases_sample :
    ∃ (s s' : SerializerState) (root root' : ByteBuffer),
      process₅.arenas 0 = some s ∧ process₅.arenas 1 = some s' ∧ Disjoint s.Owned s'.Owned ∧
      SeesLease (process₅.see s) [(richCall 0, root)] ∧
      SeesLease (process₅.see s') [(richCall 1, root')] ∧
      decode process₅.memory (richCall 0).levels root.address = some (Option.none, firstMap) ∧
      decode process₅.memory (richCall 1).levels root'.address = some (Option.none, secondMap) := by
  obtain ⟨s, hs⟩ : ∃ s, process₅.arenas 0 = some s := Option.isSome_iff_exists.mp (by decide +kernel)
  obtain ⟨s', hs'⟩ : ∃ s, process₅.arenas 1 = some s := Option.isSome_iff_exists.mp (by decide +kernel)
  obtain ⟨ls, root, root', hrun, hfirst, hsecond⟩ := reaches_sample
  obtain ⟨hsees, hroots, hdisjoint, -⟩ := process_leases hrun
  obtain ⟨o, c, ho, hdecode⟩ := hroots 0 (richCall 0, root) (hfirst ▸ List.mem_cons_self)
  obtain ⟨o', c', ho', hdecode'⟩ := hroots 1 (richCall 1, root') (hsecond ▸ List.mem_cons_self)
  rw [richCall_reference] at ho
  rw [richCall_reference_second] at ho'
  cases ho
  cases ho'
  exact ⟨s, s', root, root', hs, hs', hdisjoint 0 1 s s' Nat.zero_ne_one hs hs',
    hfirst ▸ hsees 0 s hs, hsecond ▸ hsees 1 s' hs', hdecode, hdecode'⟩

end Sample

end Process

end Ddwaf
