import Ddwaf.Native.Jni.Impl

/-!
This module contains how `logging.c` hands a message to the Java logger, and how it wraps the pending
exception.
-/

namespace Ddwaf

/-- No exception can be pending in a thread that is not attached to the VM. -/
inductive JThread where
  | detached (calls : Nat)
  | attached (env : JniState)

def JThread.pending : JThread → Option JThrowable
  | .detached _ => none
  | .attached env => env.pending

namespace Jni

variable (jvm : Jvm)

def logLevelEnabled (level : DdwafLogLevel) : Bool := jvm.minLevel.toNat ≤ level.toNat

def attachVm (thread : JThread) : Option (JniState × Bool) × JThread :=
  match thread with
  | .attached env =>
    let after := { env with calls := env.calls + 1 }
    match jvm.outcome .getEnv env.calls with
    | .success => (some (after, false), .attached after)
    | _ => (none, .attached after)
  | .detached calls =>
    match jvm.outcome .getEnv calls, jvm.outcome .attachCurrentThread (calls + 1) with
    | .success, .success => (some (⟨none, calls + 2⟩, true), .attached ⟨none, calls + 2⟩)
    | .success, _ => (none, .detached (calls + 2))
    | _, _ => (none, .detached (calls + 1))

def detachVm (env : JniState) : JThread := .detached env.calls

def addArrElem : Jni Unit := do
  let _ ← checked (call jvm .setObjectArrayElement)
  return ()

/--
Up to the label `error`. The array is made of the message and of the place that it comes from.
-/
def logMessage (message : List UInt8) : Jni Unit := do
  let _messageJstr ← javaUtf8ToJstringChecked jvm message
  let _fileJstr ← make jvm .newStringUtf id
  let _functionJstr ← make jvm .newStringUtf id
  let _lineJstr ← make jvm .newStringUtf id
  let _argsArr ← make jvm .newObjectArray id
  addArrElem jvm
  addArrElem jvm
  addArrElem jvm
  addArrElem jvm
  call jvm .callMethod

def logInEnv (message : List UInt8) : Jni Unit := do
  let prevThr ← takePending
  let _ ← orNull (logMessage jvm message)
  exceptionClear
  throwRef prevThr

def wafLoggingCThrowable (message : List UInt8) (thread : JThread) : Except Exit Unit × JThread :=
  match attachVm jvm thread with
  | (none, thread) => (.ok (), thread)
  | (some (env, attached), _) =>
    let (r, env) := Program.exec (logInEnv jvm (message.takeWhile (· ≠ 0))) env
    (r, if attached then detachVm env else .attached env)

def wafLoggingC (message : List UInt8) (thread : JThread) : Except Exit Unit × JThread :=
  wafLoggingCThrowable jvm message thread

def onThread (f : JThread → Except Exit Unit × JThread) : Jni Unit :=
  Program.ofExec fun env =>
    match f (.attached env) with
    | (r, .attached env) => (r, env)
    | (r, .detached _) => (r, env)

def javaLog (level : DdwafLogLevel) (message : String) : Jni Unit := do
  if logLevelEnabled jvm level then
    match ← succeeds jvm .vasprintf with
    | true => onThread (wafLoggingCThrowable jvm (cstr message))
    | false => return ()
  else
    return ()

def removePath (path : List UInt8) : List UInt8 :=
  (path.reverse.takeWhile (· ≠ 0x2F)).reverse

def epilog (place : Place) : List UInt8 :=
  cstr "during native function " ++ place.function ++ cstr ", file " ++ removePath place.file ++
    cstr ", line " ++ decimal place.line

def finalMsg (place : Place) (userMsg : List UInt8) : Jni (List UInt8) := do
  require jvm .asprintf
  require jvm .vasprintf
  require jvm .malloc
  return userMsg ++ [0x20] ++ epilog place

def abortWrapping (prevThrowable : JThrowable) : Jni Unit := do
  exceptionClear
  throwRef (some prevThrowable)

def wrap (finalMsg : List UInt8) (prevThrowable : JThrowable) : Jni Unit := do
  exceptionClear
  let messageObj ← orNull (javaUtf8ToJstringChecked jvm finalMsg)
  if ← exceptionCheck then
    -- error in jstring creation
    abortWrapping prevThrowable
  else
    let newThrowable ←
      orNull (make jvm .newObject fun n => JThrowable.caused n messageObj prevThrowable)
    if ← exceptionCheck then
      abortWrapping prevThrowable
    else
      throwRef newThrowable

def javaWrapExcRelay (place : Place) (userMsg : List UInt8) : Jni Unit := do
  if !jvm.rteConstrCause || !jvm.jclsRte then
    return ()
  else
    match ← exceptionOccurred with
    | none => return ()
    | some prevThrowable =>
      match ← orNull (finalMsg jvm place userMsg) with
      | none => return ()
      | some finalMsg => wrap jvm finalMsg prevThrowable

def javaWrapExc (msg : String) : Jni Unit := javaWrapExcRelay jvm (jvm.place msg) (cstr msg)

end Jni

end Ddwaf
