import Ddwaf.Lib.System
import Ddwaf.Native.Library.Load

/-!
This module contains the life of the native library in a process: it is loaded once, several threads may
try to deinitialize it, and libddwaf may log in between.
-/

open Program

namespace Ddwaf

namespace Library

def State.unused : State where
  jni := ⟨none, 0⟩
  made := 0
  live := []
  ref _ := none
  meth _ := ⟨.uninitialized, none, none⟩
  rteConstrCause := false
  minLevel := .trace
  logCb := false
  csWrapperActive := false
  initOk := false

def State.enter (s : State) : State := { s with jni := { s.jni with pending := none } }

/--
The native methods can be called when the library is `loaded`, and `deinitializing` tells how many
of the calls of `_deinitialize` a thread has made.
-/
structure Lifetime (ι : Type) where
  lib : State
  triedInitializing : Bool
  initialized : Bool
  loaded : Bool
  deinitializing : ι → Option Nat
  crashed : Bool

inductive LibraryEvent (ι : Type) where
  -- `Waf.initialize`, and whether the loader finds the library
  | wafInitialize (found : Bool)
  -- `Waf.deinitialize` or `JNI_OnUnload`, up to the first call
  | deinitializeJni (t : ι)
  | deinitializeNext (t : ι)
  -- what most native methods begin with
  | checkInit
  -- libddwaf calls what it was given
  | log (level : DdwafLogLevel) (message : List UInt8)

namespace Lifetime

variable {ι : Type}

def run {α : Type} (p : Lifetime ι) (x : Refs α) : Lifetime ι :=
  let (result, lib) := exec x p.lib.enter
  { p with lib, crashed := p.crashed || !result.isOk }

section Steps

variable (env : Env)

def load (p : Lifetime ι) : Lifetime ι :=
  let q := p.run (jniOnLoad env)
  let loaded := q.lib.jni.pending.isNone
  { q with loaded, initialized := loaded }

def wafInitialize (p : Lifetime ι) (found : Bool) : Lifetime ι :=
  if p.initialized then
    p
  else if p.triedInitializing then
    p
  else if found then
    load env { p with triedInitializing := true }
  else
    { p with triedInitializing := true }

variable [DecidableEq ι]

def deinitializeJni (p : Lifetime ι) (t : ι) : Lifetime ι :=
  match exec compareAndSwap p.lib with
  | (.ok true, lib) => { p with lib, deinitializing := Function.update p.deinitializing t (some 0) }
  | (_, lib) => { p with lib }

def deinitializeNext (p : Lifetime ι) (t : ι) (count : Nat) : Lifetime ι :=
  match (deinitializeJni.calls env)[count]? with
  | some x =>
    { p.run x with deinitializing := Function.update p.deinitializing t (some (count + 1)) }
  | none => { p with deinitializing := Function.update p.deinitializing t none }

def step (p : Lifetime ι) : LibraryEvent ι → Lifetime ι → Prop
  | .wafInitialize found, q => q = p.wafInitialize env found
  | .deinitializeJni t, q => p.loaded = true ∧ p.deinitializing t = none ∧ q = p.deinitializeJni t
  | .deinitializeNext t, q =>
    ∃ count, p.deinitializing t = some count ∧ q = p.deinitializeNext env t count
  | .checkInit, q => p.loaded = true ∧ q = p.run (checkInit env)
  | .log level message, q => p.lib.logCb = true ∧ q = p.run (wafLoggingC env level message)

end Steps

end Lifetime

def lifetimes (env : Env) (ι : Type) [DecidableEq ι] : System (Lifetime ι) (LibraryEvent ι) where
  init p := p = ⟨.unused, false, false, false, fun _ => none, false⟩
  step := Lifetime.step env

end Library

end Ddwaf
