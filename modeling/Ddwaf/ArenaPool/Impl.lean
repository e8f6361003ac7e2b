import Ddwaf.ByteBufferSerializer.Lease

/-!
This module contains the pool of arenas and those who take arenas from it: `WafContext`s, whose
operations run under their own monitor, and `ByteBufferSerializer`s. One step of a context or of a
lease is one access to something that others can see.
-/

namespace Ddwaf

/--
Who has a lease: a call of `serialize`, with or without an exception, its caller, or a context.
-/
inductive LeaseUse (κ : Type) where
  | serialize
  | failed
  | lost
  | plain
  | persistent (k : κ)
  | ephemeral (k : κ)
  deriving DecidableEq

/-- How far `close` has come; `closeCalled` is set from `marked` on. -/
inductive LeaseStage where
  | unclosed
  | marked
  | reset
  | returned
  deriving DecidableEq

/-- The next step of `close` is its last: it adds the arena to the deque, or finds `closeCalled` set. -/
def LeaseStage.endsClose : LeaseStage → Bool
  | .unclosed | .marked => false
  | .reset | .returned => true

def LeaseStage.next : LeaseStage → LeaseStage
  | .unclosed => .marked
  | .marked => .reset
  | .reset | .returned => .returned

structure ArenaLease (κ : Type) where
  arena : Nat
  stage : LeaseStage
  use : LeaseUse κ

/--
What others see of a step: an arena that is reset or returned, a native context that is destroyed.
-/
inductive PoolAction where
  | reset (arena : Nat)
  | addFirst (arena : Nat)
  | destroy (context : Nat)
  deriving DecidableEq

structure ArenaPool (κ : Type) where
  -- The deque, from its first element.
  arenas : List Nat
  contents : Nat → Arena
  nextArena : Nat
  leases : Nat → Option (ArenaLease κ)
  nextLease : Nat
  -- The leases that have put their arena into the deque, one for each time.
  returned : List Nat

namespace ArenaPool

variable {κ : Type} (p : ArenaPool κ)

/-- With the arena that is made when the deque is empty; `none` when that throws. -/
def getLease (fresh : Option Arena) (use : LeaseUse κ) : Option (ArenaPool κ) :=
  match p.arenas with
  | arena :: arenas =>
    some { p with
      arenas := arenas
      leases := Function.update p.leases p.nextLease (some ⟨arena, .unclosed, use⟩)
      nextLease := p.nextLease + 1 }
  | [] => fresh.map fun content =>
    { p with
      contents := Function.update p.contents p.nextArena content
      nextArena := p.nextArena + 1
      leases := Function.update p.leases p.nextLease (some ⟨p.nextArena, .unclosed, use⟩)
      nextLease := p.nextLease + 1 }

def setLease (l : Nat) (lease : ArenaLease κ) : ArenaPool κ :=
  { p with leases := Function.update p.leases l (some lease) }

def setContent (arena : Nat) (content : Arena) : ArenaPool κ :=
  { p with contents := Function.update p.contents arena content }

def closeStep (l : Nat) (lease : ArenaLease κ) : ArenaPool κ × Option PoolAction :=
  match lease.stage with
  | .unclosed => (p.setLease l { lease with stage := .marked }, none)
  | .marked =>
    ((p.setContent lease.arena (p.contents lease.arena).reset).setLease l
      { lease with stage := .reset }, some (.reset lease.arena))
  | .reset =>
    ({ p.setLease l { lease with stage := .returned } with
        arenas := lease.arena :: p.arenas
        returned := l :: p.returned }, some (.addFirst lease.arena))
  | .returned => (p, none)

end ArenaPool

inductive ContextPc where
  | idle
  | serializePersistent (ephemeral : Bool)
  | getEphemeralLease
  | serializeEphemeral (ephemeralLease : Nat)
  | runWafContext (ephemeralLease : Option Nat)
  | leave (ephemeralLease : Option Nat)
  | clearWafContext
  | closeLease
  deriving DecidableEq

def ContextPc.ephemeralLease : ContextPc → Option Nat
  | .serializeEphemeral l => some l
  | .runWafContext l => l
  | .leave l => l
  | _ => none

/--
The field `ptr` is none for 0, and `cleared` tells whether `clearWafContext` has been called.
-/
structure PooledContext where
  ptr : Option Nat
  lease : Nat
  online : Bool
  pc : ContextPc
  cleared : Bool

structure PoolState (κ : Type) where
  pool : ArenaPool κ
  -- The contexts whose constructor has a native context, but no lease yet.
  starting : κ → Option Nat
  contexts : κ → Option PooledContext
  nextContext : Nat
  -- The calls of `ddwaf_context_destroy`.
  destroyed : List Nat

inductive SerializeOutcome where
  | returns
  | throws
  | throwsChecked
  deriving DecidableEq

inductive PoolEvent (κ : Type) where
  | initWafContext (k : κ)
  | getContextLease (k : κ) (fresh : Option Arena)
  | run (k : κ) (persistent ephemeral : Bool)
  | serializePersistent (k : κ) (content : Arena) (returns : Bool)
  | getEphemeralLease (k : κ) (fresh : Option Arena)
  | serializeEphemeral (k : κ) (content : Arena) (returns : Bool)
  | runWafContext (k : κ)
  | leaveRun (k : κ)
  | close (k : κ)
  | clearWafContext (k : κ)
  | closeContextLease (k : κ)
  | getLease (fresh : Option Arena) (inSerialize : Bool)
  | serialize (l : Nat) (content : Arena) (outcome : SerializeOutcome)
  | serializeMore (l : Nat) (content : Arena)
  | closeLease (l : Nat)

namespace PoolState

variable {κ : Type} [DecidableEq κ] (s : PoolState κ)

def setPool (pool : ArenaPool κ) : PoolState κ := { s with pool := pool }

def setContext (k : κ) (c : PooledContext) : PoolState κ :=
  { s with contexts := Function.update s.contexts k (some c) }

def closeStep (l : Nat) : Option (PoolState κ × Option PoolAction) :=
  (s.pool.leases l).map fun lease =>
    (s.setPool (s.pool.closeStep l lease).1, (s.pool.closeStep l lease).2)

def closeFor (k : κ) (l : Nat) (c : PooledContext) : Option (PoolState κ × Option PoolAction) :=
  (s.pool.leases l).map fun lease =>
    let s' := s.setPool (s.pool.closeStep l lease).1
    (if lease.stage.endsClose then s'.setContext k { c with pc := .idle } else s',
      (s.pool.closeStep l lease).2)

/-- A call of `serializeMore` on a lease changes what its arena holds, also when it throws. -/
def write (l : Nat) (content : Arena) : Option (PoolState κ) :=
  (s.pool.leases l).map fun lease => s.setPool (s.pool.setContent lease.arena content)

def initWafContext (k : κ) : Option (PoolState κ) :=
  if s.starting k = none ∧ (s.contexts k).isNone then
    some { s with
      starting := Function.update s.starting k (some s.nextContext)
      nextContext := s.nextContext + 1 }
  else
    none

/-- When there is no memory for an arena, the constructor throws and the native context is lost. -/
def getContextLease (k : κ) (fresh : Option Arena) : Option (PoolState κ) :=
  (s.starting k).map fun ptr =>
    let s' := { s with starting := Function.update s.starting k none }
    match s.pool.getLease fresh (.persistent k) with
    | none => s'
    | some pool => (s'.setPool pool).setContext k ⟨some ptr, s.pool.nextLease, true, .idle, false⟩

def contextStep (k : κ) (f : PooledContext → Option (PoolState κ × Option PoolAction)) :
    Option (PoolState κ × Option PoolAction) :=
  (s.contexts k).bind f

def afterPersistent (ephemeral : Bool) : ContextPc :=
  if ephemeral then .getEphemeralLease else .runWafContext none

def run (k : κ) (persistent ephemeral : Bool) (c : PooledContext) : Option (PoolState κ) :=
  if c.pc = .idle then
    if c.online then
      some (s.setContext k { c with
        pc := if persistent then .serializePersistent ephemeral else afterPersistent ephemeral })
    else
      some s
  else
    none

def serializePersistent (k : κ) (content : Arena) (returns : Bool) (c : PooledContext) :
    Option (PoolState κ) :=
  match c.pc with
  | .serializePersistent ephemeral =>
    (s.write c.lease content).map fun s' =>
      s'.setContext k { c with pc := if returns then afterPersistent ephemeral else .leave none }
  | _ => none

def getEphemeralLease (k : κ) (fresh : Option Arena) (c : PooledContext) : Option (PoolState κ) :=
  if c.pc = .getEphemeralLease then
    match s.pool.getLease fresh (.ephemeral k) with
    | none => some (s.setContext k { c with pc := .leave none })
    | some pool =>
      some ((s.setPool pool).setContext k { c with pc := .serializeEphemeral s.pool.nextLease })
  else
    none

def serializeEphemeral (k : κ) (content : Arena) (returns : Bool) (c : PooledContext) :
    Option (PoolState κ) :=
  match c.pc with
  | .serializeEphemeral l =>
    (s.write l content).map fun s' =>
      s'.setContext k { c with pc := if returns then .runWafContext (some l) else .leave (some l) }
  | _ => none

def runWafContext (k : κ) (c : PooledContext) : Option (PoolState κ) :=
  match c.pc with
  | .runWafContext l => some (s.setContext k { c with pc := .leave l })
  | _ => none

def leaveRun (k : κ) (c : PooledContext) : Option (PoolState κ × Option PoolAction) :=
  match c.pc with
  | .leave none => some (s.setContext k { c with pc := .idle }, none)
  | .leave (some l) => s.closeFor k l c
  | _ => none

def close (k : κ) (c : PooledContext) : Option (PoolState κ) :=
  if c.pc = .idle then
    if c.online then
      some (s.setContext k { c with online := false, pc := .clearWafContext })
    else
      some s
  else
    none

def clearWafContext (k : κ) (c : PooledContext) : Option (PoolState κ × Option PoolAction) :=
  if c.pc = .clearWafContext then
    match c.ptr with
    | none => some (s.setContext k { c with pc := .closeLease, cleared := true }, none)
    | some ptr =>
      some ({ s with destroyed := ptr :: s.destroyed }.setContext k
        { c with ptr := none, pc := .closeLease, cleared := true }, some (.destroy ptr))
  else
    none

def closeContextLease (k : κ) (c : PooledContext) : Option (PoolState κ × Option PoolAction) :=
  if c.pc = .closeLease then s.closeFor k c.lease c else none

def getLease (fresh : Option Arena) (inSerialize : Bool) : PoolState κ :=
  match s.pool.getLease fresh (if inSerialize then .serialize else .plain) with
  | none => s
  | some pool => s.setPool pool

def useAfter : SerializeOutcome → LeaseUse κ
  | .returns => .plain
  | .throws => .failed
  | .throwsChecked => .lost

def serialize (l : Nat) (content : Arena) (outcome : SerializeOutcome) : Option (PoolState κ) :=
  match s.pool.leases l with
  | some lease =>
    if lease.use = .serialize ∧ lease.stage = .unclosed then
      some (s.setPool ((s.pool.setContent lease.arena content).setLease l
        { lease with use := useAfter outcome }))
    else
      none
  | none => none

def serializeMore (l : Nat) (content : Arena) : Option (PoolState κ) :=
  match s.pool.leases l with
  | some lease =>
    if lease.use = .plain ∧ lease.stage = .unclosed then s.write l content else none
  | none => none

def closeLease (l : Nat) : Option (PoolState κ × Option PoolAction) :=
  match s.pool.leases l with
  | some lease => if lease.use = .plain ∨ lease.use = .failed then s.closeStep l else none
  | none => none

def silent (x : Option (PoolState κ)) : Option (PoolState κ × Option PoolAction) :=
  x.map fun s => (s, none)

def exec : PoolEvent κ → Option (PoolState κ × Option PoolAction)
  | .initWafContext k => silent (s.initWafContext k)
  | .getContextLease k fresh => silent (s.getContextLease k fresh)
  | .run k persistent ephemeral =>
    s.contextStep k fun c => silent (s.run k persistent ephemeral c)
  | .serializePersistent k content returns =>
    s.contextStep k fun c => silent (s.serializePersistent k content returns c)
  | .getEphemeralLease k fresh => s.contextStep k fun c => silent (s.getEphemeralLease k fresh c)
  | .serializeEphemeral k content returns =>
    s.contextStep k fun c => silent (s.serializeEphemeral k content returns c)
  | .runWafContext k => s.contextStep k fun c => silent (s.runWafContext k c)
  | .leaveRun k => s.contextStep k fun c => s.leaveRun k c
  | .close k => s.contextStep k fun c => silent (s.close k c)
  | .clearWafContext k => s.contextStep k fun c => s.clearWafContext k c
  | .closeContextLease k => s.contextStep k fun c => s.closeContextLease k c
  | .getLease fresh inSerialize => some (s.getLease fresh inSerialize, none)
  | .serialize l content outcome => silent (s.serialize l content outcome)
  | .serializeMore l content => silent (s.serializeMore l content)
  | .closeLease l => s.closeLease l

def SerializesTo (a a' : Arena) : Prop :=
  ∃ (ρ : Type) (call : Call ρ) (s : SerializerState),
    s.arena = a ∧ (Program.exec call.program s).2.arena = a'

def NewArena (a : Arena) : Prop :=
  ∃ alloc s, (Program.exec (Arena.new alloc) s).1 = .ok a

def contentOk (l : Nat) (content : Arena) : Prop :=
  ∀ lease, s.pool.leases l = some lease → SerializesTo (s.pool.contents lease.arena) content

/-- The contents that an event brings are those that the serializer makes. -/
def EventOk : PoolEvent κ → Prop
  | .getContextLease _ fresh | .getEphemeralLease _ fresh | .getLease fresh _ =>
    ∀ a, fresh = some a → NewArena a
  | .serializePersistent k content _ =>
    ∀ c, s.contexts k = some c → s.contentOk c.lease content
  | .serializeEphemeral k content _ =>
    ∀ c l, s.contexts k = some c → c.pc = .serializeEphemeral l → s.contentOk l content
  | .serialize l content _ | .serializeMore l content => s.contentOk l content
  | _ => True

def system (κ : Type) [DecidableEq κ] : System (PoolState κ) (PoolEvent κ × Option PoolAction) where
  init s :=
    s.pool.arenas = [] ∧ s.pool.nextArena = 0 ∧ (∀ l, (s.pool.leases l).isNone) ∧
      s.pool.nextLease = 0 ∧ s.pool.returned = [] ∧ (∀ k, s.starting k = none) ∧
      (∀ k, (s.contexts k).isNone) ∧ s.nextContext = 0 ∧ s.destroyed = []
  step s l s' := s.EventOk l.1 ∧ s.exec l.1 = some (s', l.2)

end PoolState

end Ddwaf
