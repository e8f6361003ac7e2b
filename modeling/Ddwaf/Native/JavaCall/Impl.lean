import Ddwaf.Native.Logging.Impl

/-!
This module contains the global references that the native library keeps in static variables, and
`java_call.c`, which makes most of them. Local references are left out, which end with the native method.
-/

namespace Ddwaf

namespace Library

inductive JMethodType where
  | uninitialized
  | static
  | nonVirtual
  | constructor
  | virtual
  | virtualRetrieveClass
  deriving DecidableEq

structure MethodId where
  className : String
  methodName : String
  sig : String

inductive JObj where
  | cls (className : String)
  | staticField (className name : String)
  | returned (methId : MethodId)
  | string (text : String)

inductive Call where
  | findClass (className : String)
  | getMethodId (methId : MethodId)
  | getStaticMethodId (methId : MethodId)
  | getFieldId (className name sig : String)
  | getStaticFieldId (className name sig : String)
  | getStaticObjectField (className name : String)
  | newGlobalRef (obj : JObj)
  | newWeakGlobalRef (obj : JObj)
  | newLocalRef
  | newStringUtf (text : String)
  | newObject (methId : MethodId)
  | callMethod (methId : MethodId)
  -- `java_to_utf8_checked`
  | javaToUtf8

/--
The calls that throw when they return NULL. A method may return NULL, a static field may be NULL,
and `NewGlobalRef` and `NewLocalRef` do not say that they throw.
-/
def Call.throwsForNull : Call → Bool
  | .getStaticObjectField .. | .newGlobalRef _ | .newLocalRef | .callMethod _ => false
  | _ => true

structure Env where
  jvm : Jvm
  outcome : Call → Nat → Jni.Outcome
  throws_for_null : ∀ c n, c.throwsForNull = true → outcome c n ≠ .null
  newObject_throws : ∀ n, jvm.outcome .newObject n ≠ .null
  loggable : DdwafLogLevel → Bool
  -- whether the binary is made for glibc, and whether glibc is found
  forGlibc : Bool
  glibcVersionFound : Bool
  -- whether `DD_APPSEC_WAF_TIMEOUT` is set, and whether it is a number
  timeoutIsSet : Bool
  timeoutIsNumber : Bool

/-- A reference is known by the number of those that were made before it. -/
structure GlobalRef where
  number : Nat
  weak : Bool
  deriving DecidableEq

inductive RefVar where
  -- `waf_jni.c`
  | jclsRte
  | jclsIae
  | charSequenceCls
  | bufferCls
  | charBufferCls
  | stringCls
  | doubleCls
  | floatCls
  | bigdecimalCls
  | actionOk
  | actionMatch
  | resultWithDataOkNull
  | resultWithDataEmptyMap
  | nativeOrder
  -- `logging.c`
  | objectJcls
  | trace
  | debug
  | info
  | warn
  | error
  | logger
  | logPattern
  -- `output.c`, which has a `double_cls` of its own
  | longCls
  | outputDoubleCls
  | booleanCls
  deriving DecidableEq

inductive MethodVar where
  -- `waf_jni.c`
  | createException
  | timeoutExceptionInit
  | toString
  | charSequenceLength
  | charSequenceSubSequence
  | bufferPosition
  | bufferLimit
  | charBufferHasArray
  | charBufferArray
  | charBufferOrder
  | numberLongValue
  | numberDoubleValue
  | booleanBooleanValue
  | resultWithDataInit
  | pwafHandleInit
  | mapEntryset
  | mapSize
  | entryKey
  | entryValue
  | iterableIterator
  | iteratorNext
  | iteratorHasNext
  | classIsArray
  | classGetName
  -- `logging.c`
  | logMeth
  | isLoggable
  -- `output.c`
  | rsiInit
  | sectInfoErrInit
  | sectInfoNormalInit
  | arrayListInit
  | arrayListAdd
  | linkedHmInit
  | mapPut
  | longValueOf
  | doubleValueOf
  | booleanValueOf
  -- local variables of `_fetch_native_order_obj`, `java_log_init` and `_get_pw_run_timeout_checked`
  | nativeOrderMeth
  | factGet
  | wrapperLogInit
  | getProp
  deriving DecidableEq

structure JMethod where
  type : JMethodType
  classGlob : Option GlobalRef
  methId : Option MethodId

structure State where
  jni : JniState
  made : Nat
  -- the references that are made and not deleted
  live : List GlobalRef
  ref : RefVar → Option GlobalRef
  meth : MethodVar → JMethod
  rteConstrCause : Bool
  minLevel : DdwafLogLevel
  -- whether libddwaf has `_waf_logging_c`
  logCb : Bool
  csWrapperActive : Bool
  initOk : Bool

inductive Exit where
  | native (exit : Jni.Exit)
  -- a reference that is not live, or a call that may not be made while an exception is pending
  | misuse

abbrev Refs := Program State Exit

def State.setRef (s : State) (v : RefVar) (r : Option GlobalRef) : State :=
  { s with ref := Function.update s.ref v r }

def State.setMeth (s : State) (m : MethodVar) (jmeth : JMethod) : State :=
  { s with meth := Function.update s.meth m jmeth }

def failed {α : Type} : Refs α := throw (.native .null)

def misuse {α : Type} : Refs α := throw .misuse

def State.jvm (s : State) (jvm : Jvm) : Jvm :=
  { jvm with
    rteConstrCause := s.rteConstrCause
    jclsRte := (s.ref .jclsRte).isSome
    minLevel := s.minLevel }

def lift {α : Type} (x : Jni α) : Refs α :=
  Program.ofExec fun s =>
    match Program.exec x s.jni with
    | (.ok a, jni) => (.ok a, { s with jni })
    | (.error e, jni) => (.error (.native e), { s with jni })

def succeeds (x : Refs Unit) : Refs Bool :=
  tryCatch (do x; return true) fun
    | .native .null => return false
    | e => throw e

def exceptionCheck : Refs Bool := lift Jni.exceptionCheck

def requireNoException : Refs Unit := do
  if ← exceptionCheck then misuse else return ()

def failIfPending : Refs Unit := do
  if ← exceptionCheck then failed else return ()

def use (r : Option GlobalRef) : Refs Unit := do
  let s ← get
  match r with
  | none => misuse
  | some r => if r ∈ s.live then return () else misuse

def setRef (v : RefVar) (r : Option GlobalRef) : Refs Unit := modify (·.setRef v r)

def setMeth (m : MethodVar) (jmeth : JMethod) : Refs Unit := modify (·.setMeth m jmeth)

section Calls

variable (env : Env)

def answer (c : Call) : Jni Bool := do
  let s ← get
  modify fun s => { s with calls := s.calls + 1 }
  match env.outcome c s.calls with
  | .success => return true
  | .null => return false
  | .throws exc => do
    Jni.setPending (some exc)
    return false

def call (c : Call) : Refs Bool := do
  requireNoException
  lift (answer env c)

def require (c : Call) : Refs Unit := do
  if ← call env c then return () else failed

def newRef (weak : Bool) (obj : Option JObj) : Refs (Option GlobalRef) := do
  match obj with
  | none => do
    requireNoException
    return none
  | some obj =>
    if ← call env (if weak then .newWeakGlobalRef obj else .newGlobalRef obj) then do
      let s ← get
      let r : GlobalRef := ⟨s.made, weak⟩
      modify fun s => { s with made := s.made + 1, live := r :: s.live }
      return some r
    else
      return none

def newGlobalRef (obj : Option JObj) : Refs (Option GlobalRef) := newRef env false obj

def newWeakGlobalRef (obj : Option JObj) : Refs (Option GlobalRef) := newRef env true obj

def deleteRef (weak : Bool) (r : GlobalRef) : Refs Unit := do
  let s ← get
  if r ∈ s.live ∧ r.weak = weak then
    modify fun s => { s with live := s.live.erase r }
  else
    misuse

def deleteWeakGlobalRef (r : GlobalRef) : Refs Unit := deleteRef true r

def throwNew (msg : String) : Refs Unit := do
  let s ← get
  requireNoException
  use (s.ref .jclsRte)
  lift (Jni.throwNew env.jvm ⟨.runtimeException, msg⟩)

def throwNewUnlessPending (msg : String) : Refs Unit := do
  if ← exceptionCheck then return () else throwNew env msg

def javaWrapExc.useRte : Refs Unit := do
  let s ← get
  if s.rteConstrCause && (s.ref .jclsRte).isSome then use (s.ref .jclsRte) else return ()

def javaWrapExc (msg : String) : Refs Unit := do
  let s ← get
  javaWrapExc.useRte
  lift (Jni.javaWrapExc (s.jvm env.jvm) msg)

def lvlApiToJava : DdwafLogLevel → RefVar
  | .trace => .trace
  | .debug => .debug
  | .info => .info
  | .warn => .warn
  | .error => .error

def useLog (level : DdwafLogLevel) : Refs Unit := do
  let s ← get
  use (s.ref .objectJcls)
  use (s.ref .logger)
  use (s.ref (lvlApiToJava level))
  use (s.ref .logPattern)
  if (s.meth .logMeth).methId.isSome then return () else misuse

def wafLoggingC (level : DdwafLogLevel) (message : List UInt8) : Refs Unit := do
  let s ← get
  useLog level
  lift (Jni.onThread (Jni.wafLoggingC (s.jvm env.jvm) message))

def javaLog.useLog (level : DdwafLogLevel) : Refs Unit := do
  let s ← get
  if Jni.logLevelEnabled (s.jvm env.jvm) level then Library.useLog level else return ()

def javaLog (level : DdwafLogLevel) (msg : String) : Refs Unit := do
  let s ← get
  javaLog.useLog env level
  lift (Jni.javaLog (s.jvm env.jvm) level msg)

def javaMethInitChecked.classGlobal (className : String) (type : JMethodType) :
    Refs (Option GlobalRef) := do
  if type = .virtual then
    return none
  else
    match ← newWeakGlobalRef env (some (.cls className)) with
    | some classGlobal => return some classGlobal
    | none => do
      throwNewUnlessPending env "Failed creating global reference"
      failed

/-- When the method is not found, nothing deletes the reference to the class. -/
def javaMethInitChecked (jmeth : MethodVar) (className methodName sig : String) (type : JMethodType) :
    Refs Unit := do
  if ← call env (.findClass className) then
    let methId := ⟨className, if type = .constructor then "<init>" else methodName, sig⟩
    let classGlobal ← javaMethInitChecked.classGlobal env className type
    if ← call env (if type = .static then .getStaticMethodId methId else .getMethodId methId) then
      setMeth jmeth {
        type := if type = .virtualRetrieveClass then .virtual else type
        classGlob := classGlobal
        methId := some methId
      }
    else do
      javaWrapExc env ("Could not find method " ++ className ++ "." ++ methId.methodName ++ sig)
      failed
  else do
    javaWrapExc env ("Could not find class " ++ className)
    failed

def javaMethCall.classStrongref (jmeth : JMethod) : Refs Bool := do
  if jmeth.type = .virtual then
    return true
  else
    match jmeth.classGlob with
    | none => do
      requireNoException
      throwNew env "Cached class was garbage collected"
      return false
    | some r =>
      use (some r)
      if ← call env .newLocalRef then
        return true
      else do
        throwNewUnlessPending env "Cached class was garbage collected"
        return false

def javaMethCall (m : MethodVar) : Refs (Option JObj) := do
  let s ← get
  let jmeth := s.meth m
  if jmeth.type = .uninitialized then do
    throwNew env "j_method unitialized"
    return none
  else if ← javaMethCall.classStrongref env jmeth then
    match jmeth.methId with
    | none => misuse
    | some methId =>
      if ← call env (if jmeth.type = .constructor then .newObject methId else .callMethod methId) then
        return some (.returned methId)
      else
        return none
  else
    return none

def javaMethDestroy (m : MethodVar) : Refs Unit := do
  let s ← get
  match (s.meth m).classGlob with
  | none => return ()
  | some r => do
    deleteWeakGlobalRef r
    setMeth m { s.meth m with classGlob := none }

def javaStaticFieldChecked.globalObj (className name sig : String) : Refs (Option GlobalRef) := do
  if ← call env (.getStaticFieldId className name sig) then
    let found ← call env (.getStaticObjectField className name)
    if ← exceptionCheck then
      return none
    else
      newWeakGlobalRef env (if found then some (.staticField className name) else none)
  else
    return none

def javaStaticFieldChecked (className name sig : String) : Refs (Option GlobalRef) := do
  match ← javaStaticFieldChecked.globalObj env className name sig with
  | some globalObj => return some globalObj
  | none => do
    if ← exceptionCheck then
      javaWrapExc env ("Error fetching static field " ++ name ++ sig)
    else
      throwNew env "Could not fetch field"
    return none

end Calls

end Library

end Ddwaf
