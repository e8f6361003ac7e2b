import Ddwaf.ByteBufferSerializer.Lemmas.Fresh
import Ddwaf.ByteBufferSerializer.Lemmas.Serialize
import Ddwaf.Lib.System

/-!
This module contains what is known about the runs of an arena: every root that `serializeMore` has
returned is the root of the object that its map stands for, and stays so for as long as the lease is
open.
-/

namespace Ddwaf

open Memory Program SerializerState

structure Call (ρ : Type) where
  alloc : Allocator
  limits : WafLimits
  heap : ρ → JavaValue ρ
  map : ρ
  metrics : Option WafMetrics

namespace Call

variable {ρ : Type}

def program (call : Call ρ) : SerializerM ByteBuffer :=
  ByteBufferSerializer.serializeMore call.alloc call.limits call.heap call.map call.metrics

def reference (call : Call ρ) : Except Stop (PWArgs × Counters) :=
  refRoot call.limits call.heap call.map call.metrics

def levels (call : Call ρ) : Nat := call.limits.maxDepth + 2

end Call

/--
What happens to an arena, `other` being what the rest of the process does to memory and to the
direct buffers that exist.
-/
inductive ArenaEvent (ρ : Type) where
  | serializeMore (call : Call ρ) (result : Except Stop ByteBuffer)
  | close
  | other (memory : Memory) (regions : List Range)

section Sample

def endOf (regions : List (Nat × Nat)) : Nat := regions.foldr (fun r m => max (r.1 + r.2) m) 1

theorem endOf_pos (regions : List (Nat × Nat)) : 0 < endOf regions := by
  induction regions with
  | nil => exact Nat.one_pos
  | cons r rs ih => exact Nat.lt_of_lt_of_le ih (Nat.le_max_right _ _)

theorem le_endOf {regions : List (Nat × Nat)} (hr : r ∈ regions) : r.1 + r.2 ≤ endOf regions := by
  induction regions with
  | nil => contradiction
  | cons r' rs ih =>
    rcases List.mem_cons.mp hr with rfl | hr
    . exact Nat.le_max_left _ _
    . exact Nat.le_trans (ih hr) (Nat.le_max_right _ _)

def bumpAddress (regions : List (Nat × Nat)) (n : Nat) : Option Nat :=
  if endOf regions + n ≤ 2 ^ 63 then some (endOf regions) else none

theorem bumpAddress_eq_some_iff {regions : List (Nat × Nat)} :
    bumpAddress regions n = some a ↔ endOf regions + n ≤ 2 ^ 63 ∧ endOf regions = a := by
  simp only [bumpAddress, Option.ite_none_right_eq_some, Option.some.injEq]

def bumpAllocator : Allocator where
  address := bumpAddress
  pos := by
    intro regions n a h
    rw [← (bumpAddress_eq_some_iff.mp h).2]
    apply endOf_pos
  le := by
    intro regions n a h
    rw [← (bumpAddress_eq_some_iff.mp h).2]
    exact (bumpAddress_eq_some_iff.mp h).1
  disjoint := by
    intro regions n a h r hr
    rw [← (bumpAddress_eq_some_iff.mp h).2]
    exact Or.inr (le_endOf hr)
  newSegments := 1

def emptyState : SerializerState where
  memory _ := 255
  regions := []
  arena := ⟨[], 0, none, [], 0, none⟩
  arrays _ := ⟨⟨0, 0, 0, 0⟩, 0, 0, []⟩
  nextArray := 0
  views _ := ⟨0, 0, 0, 0⟩
  nextView := 0
  remainingElements := 0
  metrics := none
  handedOut := []
  written := []

def bumpArena : Arena :=
  ⟨[⟨⟨1, 20480, 20480, 0⟩, [], 0⟩], 0, none, [⟨⟨20481, 81920, 81920, 0⟩, 20481⟩], 0, none⟩

def freshState : SerializerState :=
  { emptyState with
    memory := fill (fill emptyState.memory 1 20480 0) 20481 81920 0
    regions := [(20481, 81920), (1, 20480)]
    arena := bumpArena }

theorem allocateDirect_bump {n : Nat} {s : SerializerState} (hn : endOf s.regions + n ≤ 2 ^ 63) :
    exec (allocateDirect bumpAllocator n) s =
      (.ok ⟨endOf s.regions, n, n, 0⟩, { s with
        memory := fill s.memory (endOf s.regions) n 0
        regions := (endOf s.regions, n) :: s.regions }) := by
  have haddress : bumpAllocator.address s.regions n = some (endOf s.regions) :=
    bumpAddress_eq_some_iff.mpr ⟨hn, rfl⟩
  have hsize : ¬(n : Int) < 0 := Int.not_lt.mpr (Int.natCast_nonneg n)
  simp only [allocateDirect, if_neg hsize, exec_bind, exec_get, Int.toNat_natCast, haddress,
    exec_modify, exec_pure]

theorem newArena_eq {alloc : Allocator} {s t u : SerializerState} {e b : ByteBuffer}
    (hpwargs : exec (allocateDirect alloc ((20480 : Nat) : Int)) s = (.ok e, t))
    (hstrings : exec (allocateDirect alloc ((81920 : Nat) : Int)) t = (.ok b, u)) :
    exec (Arena.new alloc) s = (.ok ⟨[⟨e, [], 0⟩], 0, none, [⟨b, b.address⟩], 0, none⟩, u) := by
  have hsize : toInt32 ((sizeofPwargs : Int) * pwargsMinSegmentsSize) = (20480 : Nat) := by decide
  simp only [Arena.new, PWArgsSegment.new, StringsSegment.new, exec_bind, hsize, hpwargs, exec_pure,
    stringsMinSegmentsSize, hstrings]

theorem newArena_bump :
    exec (Arena.new bumpAllocator) emptyState =
      (.ok bumpArena, { freshState with arena := emptyState.arena }) := by
  have hpwargs := allocateDirect_bump (n := 20480) (s := emptyState) (by decide)
  have hfirst : endOf emptyState.regions = 1 := by decide
  have hsecond : endOf [(1, 20480)] = 20481 := by decide
  have hregions : emptyState.regions = [] := by simp only [emptyState]
  rw [hfirst, hregions] at hpwargs
  have hstrings := fun memory => allocateDirect_bump (n := 81920)
    (s := { emptyState with memory := memory, regions := [(1, 20480)] })
    (by simp only [hsecond]; decide)
  simp only [hsecond] at hstrings
  rw [newArena_eq hpwargs (hstrings _), bumpArena, freshState]
theorem freshState_fresh : Fresh freshState :=
  ⟨bumpAllocator, emptyState, _, bumpArena, newArena_bump, rfl⟩

def sampleHeap : Bool → JavaValue Bool
  | true => .map 1 fun i => if i = 0 then .elem (.toString (some [97]), false) else .done
  | false => .boolean true

def sampleCall : Call Bool where
  alloc := bumpAllocator
  limits := .sample
  heap := sampleHeap
  map := true
  metrics := none

theorem exec_of_isOk {x : SerializerM α} {s : SerializerState} (h : (exec x s).1.isOk = true) :
    ∃ a, exec x s = (.ok a, (exec x s).2) := by
  cases hexec : exec x s with
  | mk result t =>
    rw [hexec] at h
    cases result with
    | error e => contradiction
    | ok a => exact ⟨a, rfl⟩

theorem exec_of_not_isOk {x : SerializerM α} {s : SerializerState} (h : (exec x s).1.isOk = false) :
    ∃ e, exec x s = (.error e, (exec x s).2) := by
  cases hexec : exec x s with
  | mk result t =>
    rw [hexec] at h
    cases result with
    | error e => exact ⟨e, rfl⟩
    | ok a => contradiction

/-- Three maps: the second one has a list that says that it has one element where it has two, and the
third one a list that says that it has three. -/
def richHeap : Nat → JavaValue Nat
  | 0 => .map 2 (ByteBufferSerializer.arrayIterator [(.toString (some [98]), 3), (.null, 5)])
  | 1 => .map 3 (ByteBufferSerializer.arrayIterator [(.toString (some [99]), 6), (.toString none, 4),
      (.toString (some [101]), 8)])
  | 2 => .map 2 (ByteBufferSerializer.arrayIterator [(.null, 3), (.toString (some [100]), 7)])
  | 3 => .collection 2 (ByteBufferSerializer.arrayIterator [4, 5])
  | 4 => .charSequence ⟨[120, 0xD800], none⟩
  | 5 => .boolean true
  | 6 => .collection 1 (ByteBufferSerializer.arrayIterator [5, 4])
  | 7 => .collection 3 (ByteBufferSerializer.arrayIterator [5, 4])
  | 8 => .floating 0xD4B249AD2594C37D -- -1e100
  | _ => .null

def richCall (map : Nat) : Call Nat where
  alloc := bumpAllocator
  limits := .sample
  heap := richHeap
  map := map
  metrics := none

def firstMap : PWArgs :=
  .map [(some [98], .array [.string [120, 0xEF, 0xBF, 0xBD], .bool true]), (some [], .bool true)]

def secondMap : PWArgs :=
  .map [(some [99], .array [.bool true]), (none, .string [120, 0xEF, 0xBF, 0xBD]),
    (some [101], .float 0xD4B249AD2594C37D)]

theorem richCall_reference : (richCall 0).reference = .ok (firstMap, ⟨251, none⟩) := by
  rfl

theorem richCall_reference_second : (richCall 1).reference = .ok (secondMap, ⟨251, none⟩) := by
  rfl

end Sample

section Runs

variable {ρ : Type}

def arenaStep (s : SerializerState) : ArenaEvent ρ → SerializerState → Prop
  | .serializeMore call result, t => exec call.program s = (result, t)
  | .close, t => t = s.reset
  | .other memory regions, t =>
    (∀ b ∈ s.arena.buffers, b.range ∈ regions) ∧ t = { s with memory := memory, regions := regions }

def arenaSystem (ρ : Type) : System SerializerState (ArenaEvent ρ) where
  init := Fresh
  step := arenaStep

theorem WF.other {s : SerializerState} (h : WF s) {memory : Memory} {regions : List Range}
    (hregions : ∀ b ∈ s.arena.buffers, b.range ∈ regions) :
    WF { s with memory := memory, regions := regions } :=
  ⟨h.curPWArgs, h.curStrings, ⟨h.buffers.ok, h.buffers.disjoint, hregions⟩, h.base,
    ⟨h.arrays.known, h.arrays.views, h.arrays.idx, h.arrays.nodup⟩,
    ⟨h.handedOut.pos, h.handedOut.inSegment, h.handedOut.disjoint⟩⟩

theorem keeps_call (call : Call ρ) {s : SerializerState} (h : WF s) :
    Keeps WF Calls (Outcome call.reference) call.program s (fun root s' =>
      ∃ F o, call.reference = .ok (o, s'.counters) ∧
        Serialized s s' F root.address call.levels none o) :=
  keeps_serializeMore call.alloc call.limits call.heap h call.map call.metrics

theorem arenaSystem_wf : (arenaSystem ρ).Invariant WF := by
  constructor
  . intro s hs
    exact hs.wf
  . intro s event t h hstep
    cases event with
    | serializeMore call result =>
      have hinv := (keeps_call call h).inv
      rw [show exec call.program s = (result, t) from hstep] at hinv
      exact hinv
    | close =>
      rw [show t = s.reset from hstep]
      exact h.reset
    | other memory regions =>
      obtain ⟨hregions, rfl⟩ := hstep
      exact WF.other h hregions

theorem WF.of_reaches {ls : List (ArenaEvent ρ)} {s : SerializerState}
    (hrun : (arenaSystem ρ).Reaches ls s) : WF s := arenaSystem_wf.reaches hrun

structure CallDone (call : Call ρ) (s : SerializerState) (result : Except Stop ByteBuffer)
    (t : SerializerState) : Prop where
  wf : WF t
  calls : Calls s t
  root : ∀ root, result = .ok root → ∃ F o, call.reference = .ok (o, t.counters) ∧
    Serialized s t F root.address call.levels none o
  error : ∀ e, result = .error e → Outcome call.reference e

theorem CallDone.of_step {call : Call ρ} {s t : SerializerState} {result : Except Stop ByteBuffer}
    (h : WF s) (hstep : arenaStep s (.serializeMore call result) t) : CallDone call s result t := by
  have hkeeps := keeps_call call h
  have hexec : exec call.program s = (result, t) := hstep
  constructor
  . have hinv := hkeeps.inv
    rw [hexec] at hinv
    exact hinv
  . have hrel := hkeeps.rel
    rw [hexec] at hrel
    exact hrel
  . intro root hroot
    have hpost := hkeeps.post root
    rw [hexec] at hpost
    exact hpost hroot
  . intro e he
    have herr := hkeeps.err e
    rw [hexec] at herr
    exact herr he

/--
Whatever has happened to an arena before and whatever its memory holds, a call that returns has
written the object that the map stands for.
-/
theorem serializeMore_decodes {ls : List (ArenaEvent ρ)} {s t : SerializerState} {call : Call ρ}
    {root : ByteBuffer} (hrun : (arenaSystem ρ).Reaches ls s)
    (hstep : arenaStep s (.serializeMore call (.ok root)) t) :
    ∃ o c, call.reference = .ok (o, c) ∧
      decode t.memory call.levels root.address = some (none, o) := by
  have hdone := CallDone.of_step (WF.of_reaches hrun) hstep
  obtain ⟨F, o, ho, hserialized⟩ := hdone.root root rfl
  exact ⟨o, t.counters, ho, hserialized.decode t.memory fun _ _ => rfl⟩

theorem richCall_returns :
    ∃ s root, arenaStep freshState (.serializeMore (richCall 0) (.ok root)) s ∧
      ∃ t root', arenaStep s (.serializeMore (richCall 1) (.ok root')) t := by
  obtain ⟨root, hreturns⟩ := exec_of_isOk (x := (richCall 0).program) (s := freshState)
    (by decide +kernel)
  obtain ⟨root', hreturns'⟩ := exec_of_isOk (x := (richCall 1).program)
    (s := (exec (richCall 0).program freshState).2) (by decide +kernel)
  exact ⟨_, root, hreturns, _, root', hreturns'⟩

theorem serializeMore_decodes_sample :
    ∃ (s t : SerializerState) (root root' : ByteBuffer),
      decode s.memory (richCall 0).levels root.address = some (none, firstMap) ∧
      decode t.memory (richCall 1).levels root'.address = some (none, secondMap) := by
  obtain ⟨s, root, hreturns, t, root', hreturns'⟩ := richCall_returns
  have hinit : (arenaSystem Nat).Reaches [] freshState := .init freshState_fresh
  obtain ⟨o, c, ho, hdecode⟩ := serializeMore_decodes hinit hreturns
  have hrun : (arenaSystem Nat).Reaches [.serializeMore (richCall 0) (.ok root)] s :=
    hinit.step hreturns
  obtain ⟨o', c', ho', hdecode'⟩ := serializeMore_decodes hrun hreturns'
  rw [richCall_reference] at ho
  rw [richCall_reference_second] at ho'
  cases ho
  cases ho'
  exact ⟨s, t, root, root', hdecode, hdecode'⟩

/--
Two runs of one call have the same result, but for where the records are and whether there was
memory for them.
-/
def SameResult (call : Call ρ) (r : Except Stop ByteBuffer) (s : SerializerState)
    (r' : Except Stop ByteBuffer) (s' : SerializerState) : Prop :=
  match r, r' with
  | .ok root, .ok root' => s.counters = s'.counters ∧
    decode s.memory call.levels root.address = decode s'.memory call.levels root'.address
  | .error e, .error e' => CannotAllocate e ∨ CannotAllocate e' ∨ e = e'
  | .ok _, .error e' => CannotAllocate e'
  | .error e, .ok _ => CannotAllocate e

theorem CallDone.same {call : Call ρ} {s t s' t' : SerializerState} {r r' : Except Stop ByteBuffer}
    (h : CallDone call s r t) (h' : CallDone call s' r' t') : SameResult call r t r' t' := by
  cases r with
  | ok root =>
    obtain ⟨F, o, ho, hserialized⟩ := h.root root rfl
    cases r' with
    | ok root' =>
      obtain ⟨F', o', ho', hserialized'⟩ := h'.root root' rfl
      rw [ho, Except.ok.injEq, Prod.mk.injEq] at ho'
      refine ⟨ho'.2, ?_⟩
      rw [hserialized.decode t.memory fun _ _ => rfl, hserialized'.decode t'.memory fun _ _ => rfl,
        ho'.1]
    | error e' =>
      rcases h'.error e' rfl with he' | he'
      . exact he'
      . rw [ho] at he'
        contradiction
  | error e =>
    rcases h.error e rfl with he | he
    . cases r' with
      | ok root' => exact he
      | error e' => exact Or.inl he
    . cases r' with
      | ok root' =>
        obtain ⟨F', o', ho', -⟩ := h'.root root' rfl
        rw [ho'] at he
        contradiction
      | error e' =>
        rcases h'.error e' rfl with he' | he'
        . exact Or.inr (Or.inl he')
        . rw [he, Except.error.injEq] at he'
          exact Or.inr (Or.inr he')

/--
Every record that can be reached from a root has been written by the call that returned it, to
addresses that were not in use. A call that throws changes nothing for the calls after it.
-/
theorem serializeMore_all_or_nothing {ls : List (ArenaEvent ρ)} {s t : SerializerState}
    {call : Call ρ} {result : Except Stop ByteBuffer} (hrun : (arenaSystem ρ).Reaches ls s)
    (hstep : arenaStep s (.serializeMore call result) t) :
    (∀ root, result = .ok root → ∀ A ∈ slotsFrom t.memory call.levels root.address,
      ∀ x ∈ recordRange A, t.Written x) ∧
    (∀ root, result = .ok root →
      ∃ o, decode t.memory call.levels root.address = some (none, o)) ∧
    (∀ x, s.Used x → ¬t.Written x) ∧
    (∀ e, result = .error e → ∀ (call' : Call ρ) r u r' v,
      arenaStep s (.serializeMore call' r) u → arenaStep t (.serializeMore call' r') v →
        SameResult call' r u r' v) := by
  have hwf := WF.of_reaches hrun
  have hdone := CallDone.of_step hwf hstep
  refine ⟨?_, ?_, hdone.calls.only, ?_⟩
  . intro root hroot A hA x hx
    obtain ⟨F, o, -, hserialized⟩ := hdone.root root hroot
    exact hserialized.written x (hserialized.slots t.memory (fun _ _ => rfl) A hA hx)
  . intro root hroot
    obtain ⟨F, o, -, hserialized⟩ := hdone.root root hroot
    exact ⟨o, hserialized.decode t.memory fun _ _ => rfl⟩
  . intro e _ call' r u r' v hu hv
    exact (CallDone.of_step hwf hu).same (CallDone.of_step hdone.wf hv)

theorem richCall_throws :
    ∃ s e, arenaStep freshState (.serializeMore (richCall 2) (.error e)) s ∧
      (∃ t root, arenaStep freshState (.serializeMore (richCall 1) (.ok root)) t) ∧
      ∃ u root', arenaStep s (.serializeMore (richCall 1) (.ok root')) u := by
  obtain ⟨e, hthrows⟩ := exec_of_not_isOk (x := (richCall 2).program) (s := freshState)
    (by decide +kernel)
  obtain ⟨root, hreturns⟩ := exec_of_isOk (x := (richCall 1).program) (s := freshState)
    (by decide +kernel)
  obtain ⟨root', hreturns'⟩ := exec_of_isOk (x := (richCall 1).program)
    (s := (exec (richCall 2).program freshState).2) (by decide +kernel)
  exact ⟨_, e, hthrows, ⟨_, root, hreturns⟩, _, root', hreturns'⟩

theorem serializeMore_all_or_nothing_sample :
    ∃ (s t u : SerializerState) (e : Stop) (root root' : ByteBuffer),
      arenaStep freshState (.serializeMore (richCall 2) (.error e)) s ∧
      arenaStep freshState (.serializeMore (richCall 1) (.ok root)) t ∧
      arenaStep s (.serializeMore (richCall 1) (.ok root')) u ∧
      SameResult (richCall 1) (.ok root) t (.ok root') u ∧
      (∀ x, s.Used x → ¬u.Written x) ∧
      ∀ A ∈ slotsFrom u.memory (richCall 1).levels root'.address, ∀ x ∈ recordRange A, u.Written x := by
  obtain ⟨s, e, hthrows, ⟨t, root, hreturns⟩, u, root', hreturns'⟩ := richCall_throws
  have hinit : (arenaSystem Nat).Reaches [] freshState := .init freshState_fresh
  have hrun : (arenaSystem Nat).Reaches [.serializeMore (richCall 2) (.error e)] s :=
    hinit.step hthrows
  obtain ⟨-, -, -, hsame⟩ := serializeMore_all_or_nothing hinit hthrows
  obtain ⟨hwritten, -, hunused, -⟩ := serializeMore_all_or_nothing hrun hreturns'
  exact ⟨s, t, u, e, root, root', hthrows, hreturns, hreturns',
    hsame e rfl (richCall 1) _ _ _ _ hreturns hreturns', hunused, hwritten root' rfl⟩

section Lease

/--
While a lease is open, its arena is not reset, and nothing but its own calls writes to what is in
use.
-/
def leaseStep (s : SerializerState) (event : ArenaEvent ρ) (t : SerializerState) : Prop :=
  arenaStep s event t ∧
    match event with
    | .serializeMore _ _ => True
    | .close => False
    | .other memory _ => ∀ x, s.Used x → memory x = s.memory x

/-- The runs of one lease, of an arena with any history in which nothing is in use. -/
def leaseSystem (ρ : Type) : System SerializerState (ArenaEvent ρ) where
  init s := (∃ ls, (arenaSystem ρ).Reaches ls s) ∧ ∀ x, ¬s.Used x
  step := leaseStep

def RootOk (call : Call ρ) (root : ByteBuffer) (s : SerializerState) : Prop :=
  ∃ (F : Set Nat) (o : PWArgs) (c : Counters),
    call.reference = .ok (o, c) ∧ (∀ x ∈ F, s.Used x) ∧
    ∀ m : Memory, (∀ x ∈ F, m x = s.memory x) → decode m call.levels root.address = some (none, o)

theorem RootOk.mono {call : Call ρ} {root : ByteBuffer} {s t : SerializerState}
    (h : RootOk call root s) (hused : ∀ x, s.Used x → t.Used x)
    (hmemory : ∀ x, s.Used x → t.memory x = s.memory x) : RootOk call root t := by
  obtain ⟨F, o, c, ho, hF, hdecode⟩ := h
  refine ⟨F, o, c, ho, fun x hx => hused x (hF x hx), ?_⟩
  intro m hm
  apply hdecode
  intro x hx
  rw [hm x hx, hmemory x (hF x hx)]

theorem CallDone.rootOk {call : Call ρ} {root : ByteBuffer} {s t : SerializerState}
    (h : CallDone call s (.ok root) t) : RootOk call root t := by
  obtain ⟨F, o, ho, hserialized⟩ := h.root root rfl
  exact ⟨F, o, t.counters, ho, hserialized.used, hserialized.decode⟩

theorem leaseStep_frame {s t : SerializerState} {event : ArenaEvent ρ} (h : WF s)
    (hstep : leaseStep s event t) :
    WF t ∧ (∀ x, s.Used x → t.Used x) ∧ ∀ x, s.Used x → t.memory x = s.memory x := by
  obtain ⟨hstep, hlease⟩ := hstep
  cases event with
  | serializeMore call result =>
    have hdone := CallDone.of_step h hstep
    exact ⟨hdone.wf, hdone.calls.used,
      fun x hx => hdone.calls.frame x hx (Set.notMem_empty x)⟩
  | close => exact absurd hlease id
  | other memory regions =>
    obtain ⟨hregions, rfl⟩ := hstep
    exact ⟨WF.other h hregions, fun _ hx => hx, hlease⟩

theorem leaseSystem_roots {ls : List (ArenaEvent ρ)} {s : SerializerState}
    (hrun : (leaseSystem ρ).Reaches ls s) :
    WF s ∧ ∀ call root, ArenaEvent.serializeMore call (.ok root) ∈ ls → RootOk call root s := by
  induction hrun with
  | init hinit =>
    obtain ⟨⟨ls, hreach⟩, -⟩ := hinit
    exact ⟨WF.of_reaches hreach, fun _ _ hmem => by contradiction⟩
  | step _ hstep ih =>
    obtain ⟨hwf, hroots⟩ := ih
    obtain ⟨hwf', hused, hmemory⟩ := leaseStep_frame hwf hstep
    refine ⟨hwf', ?_⟩
    intro call root hmem
    rcases List.mem_append.mp hmem with hmem | hmem
    . exact (hroots call root hmem).mono hused hmemory
    . rw [List.mem_singleton] at hmem
      subst hmem
      exact (CallDone.of_step hwf hstep.1).rootOk

/--
Every root that was returned keeps its object, whatever the later calls do. The ranges that were
handed out are disjoint and in their segments, and no call writes to one of an earlier call.
-/
theorem lease_frame {ls : List (ArenaEvent ρ)} {s : SerializerState}
    (hrun : (leaseSystem ρ).Reaches ls s) :
    (∀ call root, ArenaEvent.serializeMore call (.ok root) ∈ ls →
      ∃ o c, call.reference = .ok (o, c) ∧
        decode s.memory call.levels root.address = some (none, o)) ∧
    s.handedOut.Pairwise Range.Disjoint ∧
    (∀ r ∈ s.handedOut, ∃ b ∈ s.arena.buffers,
      b.address ≤ r.1 ∧ r.1 + r.2 ≤ b.address + b.capacity) ∧
    ∀ (call : Call ρ) result t, arenaStep s (.serializeMore call result) t →
      s.handedOut <:+ t.handedOut ∧
      ∀ r ∈ s.handedOut, ∀ x, r.1 ≤ x → x < r.1 + r.2 →
        ¬t.Written x ∧ t.memory x = s.memory x := by
  obtain ⟨hwf, hroots⟩ := leaseSystem_roots hrun
  refine ⟨?_, hwf.handedOut.disjoint, ?_, ?_⟩
  . intro call root hmem
    obtain ⟨F, o, c, ho, -, hdecode⟩ := hroots call root hmem
    exact ⟨o, c, ho, hdecode s.memory fun _ _ => rfl⟩
  . intro r hr
    obtain ⟨b, hb, hge, hle⟩ := hwf.handedOut.inSegment r hr
    have := (hwf.buffers.ok b hb).position
    exact ⟨b, hb, hge, by omega⟩
  . intro call result t hstep
    have hdone := CallDone.of_step hwf hstep
    refine ⟨hdone.calls.handedOut, ?_⟩
    intro r hr x hge hlt
    obtain ⟨b, hb, hbge, hble⟩ := hwf.handedOut.inSegment r hr
    have hused : s.Used x := ⟨b, hb, by omega, by omega⟩
    exact ⟨hdone.calls.only x hused, hdone.calls.frame x hused (Set.notMem_empty x)⟩

theorem lease_frame_sample :
    ∃ (s t : SerializerState) (root root' : ByteBuffer),
      decode t.memory (richCall 0).levels root.address = some (none, firstMap) ∧
      decode t.memory (richCall 1).levels root'.address = some (none, secondMap) ∧
      t.handedOut.Pairwise Range.Disjoint ∧ s.handedOut <:+ t.handedOut ∧
      ∀ r ∈ s.handedOut, ∀ x, r.1 ≤ x → x < r.1 + r.2 →
        ¬t.Written x ∧ t.memory x = s.memory x := by
  obtain ⟨s, root, hreturns, t, root', hreturns'⟩ := richCall_returns
  have hinit : (leaseSystem Nat).init freshState :=
    ⟨⟨[], .init freshState_fresh⟩, freshState_fresh.not_used⟩
  have hfirst : (leaseSystem Nat).Reaches [.serializeMore (richCall 0) (.ok root)] s :=
    .step (.init hinit) ⟨hreturns, trivial⟩
  have hsecond : (leaseSystem Nat).Reaches
      [.serializeMore (richCall 0) (.ok root), .serializeMore (richCall 1) (.ok root')] t :=
    hfirst.step ⟨hreturns', trivial⟩
  obtain ⟨-, -, -, hlater⟩ := lease_frame hfirst
  obtain ⟨hroots, hdisjoint, -⟩ := lease_frame hsecond
  obtain ⟨hsuffix, hkept⟩ := hlater (richCall 1) (.ok root') t hreturns'
  obtain ⟨o, c, ho, hdecode⟩ := hroots (richCall 0) root List.mem_cons_self
  obtain ⟨o', c', ho', hdecode'⟩ :=
    hroots (richCall 1) root' (List.mem_cons_of_mem _ List.mem_cons_self)
  rw [richCall_reference] at ho
  rw [richCall_reference_second] at ho'
  cases ho
  cases ho'
  exact ⟨s, t, root, root', hdecode, hdecode', hdisjoint, hsuffix, hkept⟩

end Lease

end Runs

end Ddwaf
