import Ddwaf.Lib.ModifiedUtf8
import Ddwaf.Lib.System
import Ddwaf.Native.Basic
import Ddwaf.Native.DdwafObject
import Mathlib.Logic.Function.Basic

/-!
This module contains the class `WafBuilder` and the native functions behind it, over a libddwaf whose
builder maps each path, the bytes that it is given, to a configuration.
-/

namespace Ddwaf

def getStringLength (s : JString) : Nat := s.units.length

def getStringUTFChars (s : JString) : List UInt8 := ModifiedUtf8.encode s.units

structure Limits where
  maxDepth : Nat
  maxElements : Nat
  maxStringSize : Nat

/--
What the calls out of this module do: `C` is what libddwaf keeps of a configuration, `J` are the
Java maps and `D` is `WafDiagnostics`.
-/
structure BuilderCalls (C J D : Type) where
  convertChecked : J → Limits → Native DdwafObject
  addOrUpdate : Option C → DdwafObject → Option C × Bool × DdwafObject
  remove : Option C → Bool
  outputConvertDiagnosticsChecked : DdwafObject → Native D
  javaWrapExc : String → Stop → Stop

inductive DdwafBuilder (C : Type) where
  | live (configs : List UInt8 → Option C)
  | destroyed

structure WafBuilder (C : Type) where
  -- `none` is the pointer 0.
  ptr : Option (DdwafBuilder C)
  online : Bool

inductive BuilderStop (D : Type) where
  | stop (s : Stop)
  | invalidRuleSet (wafDiagnostics : Option D) (msg : String)

section Native

variable {C J D : Type} (calls : BuilderCalls C J D)

def ddwafBuilderAddOrUpdateConfig (builder : DdwafBuilder C) (path : List UInt8) (pathLen : Nat)
    (config : DdwafObject) : Native (DdwafBuilder C × Bool × DdwafObject) :=
  match builder with
  | .destroyed => .error .useAfterFree
  | .live configs => do
    let key ← loadRange path 0 pathLen
    let (entry, result, diagnostics) := calls.addOrUpdate (configs key) config
    return (.live (Function.update configs key entry), result, diagnostics)

def ddwafBuilderRemoveConfig (builder : DdwafBuilder C) (path : List UInt8) (pathLen : Nat) :
    Native (DdwafBuilder C × Bool) :=
  match builder with
  | .destroyed => .error .useAfterFree
  | .live configs => do
    let key ← loadRange path 0 pathLen
    return (.live (Function.update configs key none), calls.remove (configs key))

def getBuilderChecked (builder : WafBuilder C) : Native (DdwafBuilder C) :=
  match builder.ptr with
  | none => throwRte "The Builder has already been cleared"
  | some ddwafBuilder => .ok ddwafBuilder

def removeConfigNative (builder : WafBuilder C) (path : Option JString) :
    WafBuilder C × Native Bool :=
  match path with
  | none => (builder, .error (.thrown ⟨.illegalArgumentException, "path is null"⟩))
  | some path =>
    match getBuilderChecked builder with
    | .error e => (builder, .error e)
    | .ok ddwafBuilder =>
      match ddwafBuilderRemoveConfig calls ddwafBuilder (getStringUTFChars path)
          (getStringLength path) with
      | .error e => (builder, .error e)
      | .ok (ddwafBuilder, result) => ({ builder with ptr := some ddwafBuilder }, .ok result)

def resultDiagnostics (ddwafDiagnostics : DdwafObject) : Native (Option D) :=
  match ddwafDiagnostics with
  | .invalid => .ok none
  | ddwafDiagnostics =>
    match calls.outputConvertDiagnosticsChecked ddwafDiagnostics with
    | .error e => .error (calls.javaWrapExc "Error converting diagnostics structure" e)
    | .ok diagnostics => .ok (some diagnostics)

def limits : Limits := ⟨20, 1000000, 1000000⟩

def addOrUpdateConfigNative (builder : WafBuilder C) (path : Option JString) (configuration : J) :
    WafBuilder C × Native (Bool × Option D) :=
  match path with
  | none => (builder, .error (.thrown ⟨.illegalArgumentException, "path is null"⟩))
  | some path =>
    match calls.convertChecked configuration limits with
    | .error e => (builder, .error e)
    | .ok ddwafConfiguration =>
      match getBuilderChecked builder with
      | .error e => (builder, .error e)
      | .ok ddwafBuilder =>
        match ddwafBuilderAddOrUpdateConfig calls ddwafBuilder (getStringUTFChars path)
            (getStringLength path) ddwafConfiguration with
        | .error e => (builder, .error e)
        -- the builder stays changed when the diagnostics cannot be converted
        | .ok (ddwafBuilder, result, ddwafDiagnostics) =>
          ({ builder with ptr := some ddwafBuilder },
            (resultDiagnostics calls ddwafDiagnostics).map fun diagnostics => (result, diagnostics))

end Native

namespace WafBuilder

variable {C J D : Type} (calls : BuilderCalls C J D)

def new : WafBuilder C where
  ptr := some (.live fun _ => none)
  online := true

def thrown (cls : ThrowableClass) (msg : String) : Except (BuilderStop D) (Option D) :=
  .error (.stop (.thrown ⟨cls, msg⟩))

def addOrUpdateConfig (builder : WafBuilder C) (path : Option JString) (config : Option J) :
    WafBuilder C × Except (BuilderStop D) (Option D) :=
  if !builder.online then
    (builder, thrown .unclassifiedWafException "WafBuilder is offline")
  else
    match config, path with
    | none, _ => (builder, thrown .illegalArgumentException "Config cannot be null")
    | some _, none => (builder, thrown .illegalArgumentException "Path cannot be null")
    | some config, some path =>
      if path.units.isEmpty then
        (builder, thrown .illegalArgumentException "Path cannot be empty")
      else
        match addOrUpdateConfigNative calls builder (some path) config with
        | (builder, .error e) => (builder, .error (.stop e))
        | (builder, .ok (true, info)) => (builder, .ok info)
        | (builder, .ok (false, info)) =>
          (builder, .error (.invalidRuleSet info "Invalid WAF configuration"))

def removeConfig (builder : WafBuilder C) (path : Option JString) :
    WafBuilder C × Except (BuilderStop D) (Option D) :=
  if !builder.online then
    (builder, thrown .unclassifiedWafException "WafBuilder is offline")
  else
    match path with
    | none => (builder, thrown .illegalArgumentException "Path cannot be null")
    | some path =>
      if path.units.isEmpty then
        (builder, thrown .illegalArgumentException "Path cannot be empty")
      else
        match removeConfigNative calls builder (some path) with
        | (builder, .error e) => (builder, .error (.stop e))
        | (builder, .ok true) => (builder, .ok none)
        | (builder, .ok false) =>
          (builder, thrown .unclassifiedWafException "Failed to remove configuration")

/-- The field `ptr` is final: it still points at the builder that is destroyed. -/
def close (builder : WafBuilder C) : WafBuilder C :=
  if !builder.online then builder else { ptr := builder.ptr.map fun _ => .destroyed, online := false }

end WafBuilder

inductive BuilderCall (J : Type) where
  | addOrUpdateConfig (path : Option JString) (config : Option J)
  | removeConfig (path : Option JString)
  | close

section System

variable {C J D : Type} (calls : BuilderCalls C J D)

def WafBuilder.exec (builder : WafBuilder C) :
    BuilderCall J → WafBuilder C × Except (BuilderStop D) (Option D)
  | .addOrUpdateConfig path config => builder.addOrUpdateConfig calls path config
  | .removeConfig path => builder.removeConfig calls path
  | .close => (builder.close, .ok none)

/-- The methods are `synchronized`, so that a run is a sequence of calls. -/
def wafBuilderSystem :
    System (WafBuilder C) (BuilderCall J × Except (BuilderStop D) (Option D)) where
  init builder := builder = WafBuilder.new
  step builder l builder' := builder.exec calls l.1 = (builder', l.2)

end System

end Ddwaf
