import Ddwaf.Lib.System
import Ddwaf.Native.Basic
import Mathlib.Logic.Function.Basic

/-!
This module contains the life of `WafHandle`s and of the `WafContext`s that are made from them, with
the calls to libddwaf of each step. A region that is run under a lock is one step.
-/

namespace Ddwaf

/--
The final fields of the handles. A native handle stands for one call that built it: it is not used
again when it is destroyed.
-/
structure WafHandles (ι : Type) where
  nativeHandle : ι → Nat
  ne_zero : ∀ i, nativeHandle i ≠ 0
  injective : Function.Injective nativeHandle
  toString : ι → String

inductive LibddwafCall where
  | contextInit (handle : Nat)
  | knownAddresses (handle : Nat)
  | knownActions (handle : Nat)
  | destroy (handle : Nat)
  | run (context : Nat)
  | contextDestroy (context : Nat)

def LibddwafCall.handle : LibddwafCall → Option Nat
  | .contextInit handle => some handle
  | .knownAddresses handle => some handle
  | .knownActions handle => some handle
  | .destroy handle => some handle
  | .run _ => none
  | .contextDestroy _ => none

structure WafContext (ι : Type) where
  wafHandle : ι
  ptr : Nat
  online : Bool

structure WafState (ι κ τ : Type) where
  online : ι → Bool
  -- The native handles on which `ddwaf_destroy` has been called.
  destroyed : Nat → Bool
  -- The threads between `get_pwaf_handle_checked` and `ddwaf_context_init`.
  starting : τ → Option (ι × Nat)
  contexts : κ → Option (WafContext ι)

/--
What else decides the course of an operation is part of it: what comes back from libddwaf, and what
is thrown on the way.
-/
inductive WafOp (ι κ τ : Type) where
  | closeHandle (i : ι)
  | getKnownAddresses (i : ι) (answer : Except Throwable Unit)
  | getKnownActions (i : ι) (answer : Except Throwable Unit)
  | newContext (t : τ) (wafHandle : Option ι)
  | contextInit (t : τ) (k : κ) (context : Nat)
  | run (k : κ) (before answer : Except Throwable Unit)
  | runEphemeral (k : κ) (before answer : Except Throwable Unit)
  | closeContext (k : κ)

structure WafEffect (ι κ τ : Type) where
  state : WafState ι κ τ
  calls : List LibddwafCall
  result : Except Throwable Unit

section Native

variable (initOk : Bool)

def checkInit : Except Throwable Unit :=
  if !initOk then
    .error ⟨.runtimeException, "Library has not been properly initialized"⟩
  else
    .ok ()

def getPwafHandleChecked (handleObj : Option Nat) : Except Throwable Nat :=
  match handleObj with
  | none => .error ⟨.illegalArgumentException, "Passed null to WafHandle"⟩
  | some handle =>
    if handle = 0 then
      .error ⟨.illegalArgumentException, "Passed invalid (NULL) to WafHandle"⟩
    else
      .ok handle

def getKnownNative (call : Nat → LibddwafCall) (nativeHandle : Nat)
    (answer : Except Throwable Unit) : List LibddwafCall × Except Throwable Unit :=
  match checkInit initOk with
  | .error e => ([], .error e)
  | .ok _ =>
    match getPwafHandleChecked (some nativeHandle) with
    | .error e => ([], .error e)
    | .ok natHandle => ([call natHandle], answer)

def getWafContextContextChecked (ptr : Nat) : Except Throwable Nat :=
  if ptr = 0 then
    .error ⟨.runtimeException, "The WafContext has already been cleared"⟩
  else
    .ok ptr

end Native

namespace WafState

variable {ι κ τ : Type} [DecidableEq ι] [DecidableEq κ] [DecidableEq τ]
variable (handles : WafHandles ι) (initOk : Bool) (s : WafState ι κ τ)

def closeHandle (i : ι) : WafEffect ι κ τ :=
  let s' := { s with online := Function.update s.online i false }
  if handles.nativeHandle i = 0 ∨ s.online i = false then
    ⟨s', [], .ok ()⟩
  else
    ⟨{ s' with destroyed := Function.update s.destroyed (handles.nativeHandle i) true },
      [.destroy (handles.nativeHandle i)], .ok ()⟩

def getKnown (call : Nat → LibddwafCall) (i : ι) (answer : Except Throwable Unit) :
    WafEffect ι κ τ :=
  if s.online i = false then
    ⟨s, [], .error ⟨.illegalStateException, "This WafHandle is no longer online"⟩⟩
  else
    let r := getKnownNative initOk call (handles.nativeHandle i) answer
    ⟨s, r.1, r.2⟩

def getKnownAddresses (i : ι) (answer : Except Throwable Unit) : WafEffect ι κ τ :=
  s.getKnown handles initOk .knownAddresses i answer

def getKnownActions (i : ι) (answer : Except Throwable Unit) : WafEffect ι κ τ :=
  s.getKnown handles initOk .knownActions i answer

/-- The constructor up to `ddwaf_context_init`: it neither takes the lock nor looks at `online`. -/
def newContext (t : τ) (wafHandle : Option ι) : WafEffect ι κ τ :=
  match wafHandle, getPwafHandleChecked (wafHandle.map handles.nativeHandle) with
  | some i, .ok natHandle =>
    ⟨{ s with starting := Function.update s.starting t (some (i, natHandle)) }, [], .ok ()⟩
  | none, .ok _ => ⟨s, [], .ok ()⟩
  | _, .error e => ⟨s, [], .error e⟩

def contextInit (t : τ) (k : κ) (i : ι) (natHandle context : Nat) : WafEffect ι κ τ :=
  let s' := { s with starting := Function.update s.starting t none }
  if context = 0 then
    ⟨s', [.contextInit natHandle], .error ⟨.runtimeException, "ddwaf_context_init failed"⟩⟩
  else
    ⟨{ s' with contexts := Function.update s.contexts k (some ⟨i, context, true⟩) },
      [.contextInit natHandle], .ok ()⟩

def runContext (c : WafContext ι) (before answer : Except Throwable Unit) : WafEffect ι κ τ :=
  if c.online = false then
    ⟨s, [], .error ⟨.unclassifiedWafException, "Error running Waf's WafContext for handle " ++
      handles.toString c.wafHandle ++ ": This WafContext is no longer online"⟩⟩
  else
    match before, getWafContextContextChecked c.ptr with
    | .error e, _ => ⟨s, [], .error e⟩
    | .ok _, .error e => ⟨s, [], .error ⟨.unclassifiedWafException,
      "Error running Waf's WafContext for handle " ++ handles.toString c.wafHandle ++ ": " ++ e.msg⟩⟩
    | .ok _, .ok context => ⟨s, [.run context], answer⟩

def closeContext (k : κ) (c : WafContext ι) : WafEffect ι κ τ :=
  if c.online = false then
    ⟨s, [], .error ⟨.illegalStateException, "This WafContext is no longer online"⟩⟩
  else
    match getWafContextContextChecked c.ptr with
    | .error e =>
      ⟨{ s with contexts := Function.update s.contexts k (some { c with online := false }) }, [],
        .error e⟩
    | .ok context =>
      ⟨{ s with
          contexts := Function.update s.contexts k (some { c with ptr := 0, online := false }) },
        [.contextDestroy context], .ok ()⟩

/--
A step cannot be taken when it is `none`: a thread runs one constructor at a time, a constructor
makes a new context, and the other operations need one.
-/
def exec : WafOp ι κ τ → Option (WafEffect ι κ τ)
  | .closeHandle i => some (s.closeHandle handles i)
  | .getKnownAddresses i answer => some (s.getKnownAddresses handles initOk i answer)
  | .getKnownActions i answer => some (s.getKnownActions handles initOk i answer)
  | .newContext t wafHandle =>
    if s.starting t = none then some (s.newContext handles t wafHandle) else none
  | .contextInit t k context =>
    match s.starting t, s.contexts k with
    | some (i, natHandle), none => some (s.contextInit t k i natHandle context)
    | _, _ => none
  | .run k before answer => (s.contexts k).map fun c => s.runContext handles c before answer
  | .runEphemeral k before answer => (s.contexts k).map fun c => s.runContext handles c before answer
  | .closeContext k => (s.contexts k).map fun c => s.closeContext k c

def system : System (WafState ι κ τ) (WafOp ι κ τ × List LibddwafCall × Except Throwable Unit) where
  init s :=
    (∀ n, s.destroyed n = true ↔ ∃ i, handles.nativeHandle i = n ∧ s.online i = false) ∧
      (∀ t, s.starting t = none) ∧ ∀ k, s.contexts k = none
  step s l s' := s.exec handles initOk l.1 = some ⟨s', l.2.1, l.2.2⟩

end WafState

end Ddwaf
