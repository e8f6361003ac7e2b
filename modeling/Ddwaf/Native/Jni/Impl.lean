import Ddwaf.Lib.Program
import Ddwaf.WafContext.Impl

/-!
This module contains the calls of JNI and the exception that is pending between them, with the
functions of `java_call.c` and `utf16_utf8.c` on top of them. How a call turns out is arbitrary.
-/

namespace Ddwaf

/--
An object that can be thrown is known by the call that made it. The last ones are made by the
constructor of `RuntimeException` that takes a cause.
-/
inductive JThrowable where
  | other (id : Nat) (exc : Throwable)
  | waf (id : Nat) (exc : WafException)
  | caused (id : Nat) (message : Option (List UInt16)) (cause : JThrowable)

def JThrowable.cause : JThrowable → Option JThrowable
  | .caused _ _ cause => some cause
  | _ => none

abbrev JRef := Nat

inductive DdwafLogLevel where
  | trace
  | debug
  | info
  | warn
  | error

def DdwafLogLevel.toNat : DdwafLogLevel → Nat
  | .trace => 0
  | .debug => 1
  | .info => 2
  | .warn => 3
  | .error => 4

namespace Jni

inductive Function where
  | getEnv
  | attachCurrentThread
  | throwNew
  | newLocalRef
  | newObject
  | newString
  | newStringUtf
  | newObjectArray
  | setObjectArrayElement
  | getField
  | callMethod
  | monitorEnter
  | monitorExit
  | asprintf
  | vasprintf
  | malloc

inductive Outcome where
  | success
  | null
  | throws (exc : JThrowable)

/-- A native function that returns NULL, or that does not return. -/
inductive Exit where
  | null
  | stopped (stop : Stop)

end Jni

structure Place where
  file : List UInt8
  function : List UInt8
  line : Nat

/--
What is found outside of the native functions. The outcome of a call depends on the number of calls
before it.
-/
structure Jvm where
  outcome : Jni.Function → Nat → Jni.Outcome
  -- the allocations for one JSON text
  alloc : Nat → Alloc
  rteConstrCause : Bool
  jclsRte : Bool
  minLevel : DdwafLogLevel
  -- where an exception is wrapped with this message
  place : String → Place
  -- what libddwaf logs in a run
  ddwafRunLogs : Nat → List (List UInt8)

structure JniState where
  pending : Option JThrowable
  calls : Nat

abbrev Jni := Program JniState Jni.Exit

/-- A `struct j_method`, with the object that is made or with what the code of the method does. -/
inductive JMethod (α : Type) where
  | uninitialized
  | static (method : Nat → Except Throwable α)
  | nonVirtual (method : Nat → Except Throwable α)
  | constructor (object : Nat → α)
  | virtual (method : Nat → Except Throwable α)

namespace Jni

variable {α : Type}

def null : Jni α := throw .null

def exceptionOccurred : Jni (Option JThrowable) := do
  let s ← get
  return s.pending

def exceptionCheck : Jni Bool := do
  let s ← get
  return s.pending.isSome

def setPending (exc : Option JThrowable) : Jni Unit := modify fun s => { s with pending := exc }

def exceptionClear : Jni Unit := setPending none

def throwRef (exc : Option JThrowable) : Jni Unit :=
  match exc with
  | none => return ()
  | some exc => setPending (some exc)

def orNull (x : Jni α) : Jni (Option α) :=
  tryCatch (do return some (← x)) fun
    | .null => return none
    | .stopped stop => throw (.stopped stop)

def nullIfPending : Jni Unit := do
  if ← exceptionCheck then null else return ()

def checked (x : Jni α) : Jni (Option α) := do
  let a ← orNull x
  nullIfPending
  return a

def takePending : Jni (Option JThrowable) := do
  let exc ← exceptionOccurred
  exceptionClear
  return exc

variable (jvm : Jvm)

def answer (function : Function) : Jni (Nat × Outcome) := do
  let s ← get
  modify fun s => { s with calls := s.calls + 1 }
  return (s.calls, jvm.outcome function s.calls)

def succeeds (function : Function) : Jni Bool := do
  match ← answer jvm function with
  | (_, .success) => return true
  | _ => return false

def require (function : Function) : Jni Unit := do
  if ← succeeds jvm function then return () else null

def make (function : Function) (object : Nat → α) : Jni α := do
  match ← answer jvm function with
  | (n, .success) => return object n
  | (_, .null) => null
  | (_, .throws exc) =>
    setPending (some exc)
    null

def call (function : Function) : Jni Unit := do
  match ← answer jvm function with
  | (_, .throws exc) => setPending (some exc)
  | _ => return ()

def callMethod (method : Nat → Except Throwable α) : Jni α := do
  match ← answer jvm .callMethod with
  | (_, .throws exc) =>
    setPending (some exc)
    null
  | (n, _) =>
    match method n with
    | .ok a => return a
    | .error exc =>
      setPending (some (.other n exc))
      null

def throwNew (exc : Throwable) : Jni Unit := do
  match ← answer jvm .throwNew with
  | (_, .throws other) => setPending (some other)
  | (n, _) => setPending (some (.other n exc))

def ofExcept (x : Except Throwable α) : Jni α :=
  match x with
  | .ok a => return a
  | .error exc => do
    throwNew jvm exc
    null

def ofNative (x : Native α) : Jni α :=
  match x with
  | .ok a => return a
  | .error (.thrown exc) => do
    throwNew jvm exc
    null
  | .error stop => throw (.stopped stop)

def javaMethCall (jmeth : JMethod α) : Jni α :=
  match jmeth with
  | .uninitialized => do
    throwNew jvm ⟨.runtimeException, "j_method unitialized"⟩
    null
  | .static method => do
    classStrongref
    callMethod jvm method
  | .nonVirtual method => do
    classStrongref
    callMethod jvm method
  | .constructor object => do
    classStrongref
    make jvm .newObject object
  | .virtual method => callMethod jvm method
where
  classStrongref : Jni Unit := do
    match ← orNull (make jvm .newLocalRef id) with
    | some _ => return ()
    | none =>
      if ← exceptionCheck then
        null
      else
        throwNew jvm ⟨.runtimeException, "Cached class was garbage collected"⟩
        null

def makeJstring (convert : Alloc → Native (List UInt16)) : Jni (List UInt16) := do
  let malloc ← succeeds jvm .malloc
  let out ← ofNative jvm (convert fun n => n ≠ 0 || malloc)
  make jvm .newString fun _ => out

def javaUtf8ToJstringChecked (input : List UInt8) : Jni (List UInt16) :=
  makeJstring jvm fun alloc => Ddwaf.javaUtf8ToJstringChecked alloc input

def javaJsonToJstringChecked (seg : List JsonSegment) : Jni (List UInt16) :=
  makeJstring jvm fun alloc => Ddwaf.javaJsonToJstringChecked alloc seg

end Jni

end Ddwaf
