import Ddwaf.Native.CreateResult.Impl
import Ddwaf.WafHandle.Impl

/-!
This module contains a run of a `WafContext`: `WafContext.run` up to the native method, and
`_run_waf_context_common` behind it.
-/

namespace Ddwaf

namespace Waf

structure Limits where
  maxDepth : Int32
  maxElements : Int32
  maxStringSize : Int32
  generalBudgetInUs : Int64
  runBudgetInUs : Int64

namespace Limits

def reduceBudget (limits : Limits) (amountInUs : Int64) : Limits :=
  let newBudget := limits.generalBudgetInUs - amountInUs
  { limits with generalBudgetInUs := if newBudget < 0 then 0 else newBudget }

end Limits

end Waf

structure Timespec where
  tvSec : Int64
  tvNsec : Int64

def timespecDiffNs (a b : Timespec) : Int64 :=
  (a.tvSec - b.tvSec) * 1000000000 + (a.tvNsec - b.tvNsec)

def isSpace (c : UInt8) : Bool := c = 0x20 || (0x09 ≤ c && c ≤ 0x0D)

def isDecimalDigit (c : UInt8) : Bool := 0x30 ≤ c && c ≤ 0x39

def strtollSign : List UInt8 → Bool × List UInt8
  | 0x2D :: str => (true, str)
  | 0x2B :: str => (false, str)
  | str => (false, str)

def strtoll (str : List UInt8) : Int64 × List UInt8 :=
  let (negative, number) := strtollSign (str.dropWhile isSpace)
  let digits := number.takeWhile isDecimalDigit
  if digits = [] then
    (0, str)
  else
    let val := digits.foldl (fun (val : Nat) c => val * 10 + (c.toNat - 0x30)) 0
    (.ofIntClamp (if negative then -val else val), number.drop digits.length)

/-- The value of the property is kept also when it is invalid. -/
def getPwRunTimeoutChecked (ddwafRunTimeout : Int64) (property : Option (List UInt16)) :
    Native Int64 :=
  match property with
  | none => .ok ddwafRunTimeout
  | some valJstr => do
    let valCstr ← javaUtf16ToUtf8Checked .total valJstr
    let (val, _) := strtoll (valCstr.takeWhile (· ≠ 0))
    return val

structure NativeLimits where
  maxDepth : Int32
  maxElements : Int32
  maxStringSize : Int32
  generalBudgetInUs : Int64
  runBudgetInUs : Int64

def fetchLimitsChecked (pwRunTimeout : Int64) (limits : Waf.Limits) : NativeLimits where
  maxDepth := limits.maxDepth
  maxElements := limits.maxElements
  maxStringSize := limits.maxStringSize
  generalBudgetInUs := limits.generalBudgetInUs
  runBudgetInUs := if limits.runBudgetInUs > 0 then limits.runBudgetInUs else pwRunTimeout

def getRemainingBudget (start fin : Timespec) (limits : NativeLimits) : Int64 :=
  let diffUs := timespecDiffNs fin start / 1000
  let remGenBudgetInUs := limits.generalBudgetInUs - diffUs
  if remGenBudgetInUs < 0 then 0 else remGenBudgetInUs

/-- Signed numbers are cast to `size_t`. -/
def getRunBudget (remGenBudgetInUs : Int64) (limits : NativeLimits) : UInt64 :=
  if remGenBudgetInUs > limits.runBudgetInUs then
    limits.runBudgetInUs.toUInt64
  else
    remGenBudgetInUs.toUInt64

inductive WafException where
  | timeout
  | ofErrorCode (code : DdwafRetCode)
  | unclassified (msg : String)
  deriving DecidableEq

/--
A run that returns no result ends with a checked exception or with another one, or as a native call
does.
-/
inductive RunStop where
  | waf (exc : WafException)
  | thrown (exc : Throwable)
  | crashed (stop : Stop)
  deriving DecidableEq

structure RunOutcome where
  runBudgets : List UInt64
  result : Except RunStop ResultWithData

def RunOutcome.stop (e : RunStop) : RunOutcome := ⟨[], .error e⟩

def RunStop.ofNative : Stop → RunStop
  | .thrown exc => .thrown exc
  | stop => .crashed stop

structure JByteBuffer where
  -- there is none for a buffer that is not direct
  directBufferAddress : Option Nat
  directBufferCapacity : Nat

def sizeofDdwafObject : Nat := 40

def convertBufferChecked (buffer : Option JByteBuffer) : Except Throwable (Option Nat) :=
  match buffer with
  | none => .ok none
  | some buffer =>
    match buffer.directBufferAddress with
    | none => .error ⟨.illegalArgumentException, "Not a DirectBuffer passed"⟩
    | some inputP =>
      if buffer.directBufferCapacity < sizeofDdwafObject then
        .error ⟨.illegalArgumentException, "Capacity of DirectBuffer is insufficient"⟩
      else
        .ok (some inputP)

/--
What a run finds, and what the calls out of this module return. `D` is the data of a run. The times
are those of `System.nanoTime` and of the monotonic clock, which can fail.
-/
structure RunEnv (D : Type) where
  ext : Externals
  wafHandle : String
  online : Bool
  initOk : Bool
  ptr : Nat
  pwRunTimeout : Int64
  before : Int64
  serialized : Int64
  start : Option Timespec
  convEnd : Option Timespec
  serializePersistent : D → Except Throwable JByteBuffer
  serializeEphemeral : D → Except Throwable JByteBuffer
  ddwafRun : Nat → Option Nat → Option Nat → UInt64 → DdwafRetCode × DdwafObject

section Run

variable {D : Type} (env : RunEnv D)

def rte (msg : String) : RunStop := .thrown ⟨.runtimeException, msg⟩

def wrapThrowable (msg : String) : Except Throwable α → Except RunStop α
  | .ok a => .ok a
  | .error _ => .error (rte msg)

structure RunInput where
  context : Nat
  persistentInputPtr : Option Nat
  ephemeralInputPtr : Option Nat

def runInput (persistentData ephemeralData : Option JByteBuffer) : Except RunStop RunInput :=
  match getWafContextContextChecked env.ptr with
  | .error exc => .error (.thrown exc)
  | .ok context => do
    let persistentInputPtr ← wrapThrowable
      "Exception converting 'persistent' ByteBuffer into ddwaf_object"
      (convertBufferChecked persistentData)
    let ephemeralInputPtr ← wrapThrowable
      "Exception converting 'ephemeral' ByteBuffer into ddwaf_object"
      (convertBufferChecked ephemeralData)
    if persistentInputPtr = none ∧ ephemeralInputPtr = none then
      .error (.waf (.ofErrorCode .errInvalidArgument))
    else
      .ok ⟨context, persistentInputPtr, ephemeralInputPtr⟩

def runResult (retCode : DdwafRetCode) (ddwafResult : DdwafObject) : Except RunStop ResultWithData :=
  let timeout := match env.ext.ddwafObjectFind ddwafResult (cstr "timeout") with
    | some (.bool boolean) => env.ext.ddwafObjectGetBool (.bool boolean)
    | _ => false
  if timeout then
    .error (.waf .timeout)
  else
    match retCode with
    | .ok | .match => (createResultChecked env.ext retCode ddwafResult).mapError .ofNative
    | retCode => .error (.waf (.ofErrorCode retCode))

def runWafContextCommon (persistentData ephemeralData : Option JByteBuffer) (limits : Waf.Limits) :
    RunOutcome :=
  match env.start with
  | none => .stop (rte "Error getting time")
  | some start =>
    match checkInit env.initOk with
    | .error exc => .stop (.thrown exc)
    | .ok _ =>
      let limits := fetchLimitsChecked env.pwRunTimeout limits
      match runInput env persistentData ephemeralData with
      | .error e => .stop e
      | .ok input =>
        match env.convEnd with
        | none => .stop (rte "Error getting time")
        | some convEnd =>
          let remGenBudgetInUs := getRemainingBudget start convEnd limits
          if remGenBudgetInUs = 0 then
            .stop (.waf .timeout)
          else
            let runBudget := getRunBudget remGenBudgetInUs limits
            let (retCode, ddwafResult) :=
              env.ddwafRun input.context input.persistentInputPtr input.ephemeralInputPtr runBudget
            ⟨[runBudget], runResult env retCode ddwafResult⟩

def serializeData (serialize : D → Except Throwable JByteBuffer) (data : Option D) :
    Except Throwable (Option JByteBuffer) :=
  match data with
  | none => .ok none
  | some data => (serialize data).map some

def encodeParameters (persistentData ephemeralData : Option D) :
    Except Throwable (Option JByteBuffer × Option JByteBuffer) := do
  let persistentBuffer ← serializeData env.serializePersistent persistentData
  let ephemeralBuffer ← serializeData env.serializeEphemeral ephemeralData
  return (persistentBuffer, ephemeralBuffer)

/-- An `OutOfMemoryError` is neither an `Exception` nor a `RuntimeException`. -/
def encodeException (exc : Throwable) : RunStop :=
  if exc.cls = .outOfMemoryError then
    .thrown exc
  else
    .waf (.unclassified "Exception encoding parameters")

def catchRuntimeException : Except RunStop ResultWithData → Except RunStop ResultWithData
  | .error (.thrown exc) =>
    if exc.cls = .outOfMemoryError then
      .error (.thrown exc)
    else
      .error (.waf (.unclassified
        ("Error running Waf's WafContext for handle " ++ env.wafHandle ++ ": " ++ exc.msg)))
  | result => result

namespace WafContext

def runOnline (persistentData ephemeralData : Option D) (limits : Waf.Limits) : RunOutcome :=
  if !env.online then
    .stop (.thrown ⟨.illegalStateException, "This WafContext is no longer online"⟩)
  else
    match encodeParameters env persistentData ephemeralData with
    | .error exc => .stop (encodeException exc)
    | .ok (persistentBuffer, ephemeralBuffer) =>
      let elapsedNs := env.serialized - env.before
      let newLimits := limits.reduceBudget (elapsedNs / 1000)
      if newLimits.generalBudgetInUs = 0 then
        .stop (.waf .timeout)
      else
        runWafContextCommon env persistentBuffer ephemeralBuffer newLimits

def run (persistentData ephemeralData : Option D) (limits : Option Waf.Limits) : RunOutcome :=
  match limits with
  | none => .stop (.thrown ⟨.illegalArgumentException, "limits must be provided"⟩)
  | some limits =>
    let outcome := runOnline env persistentData ephemeralData limits
    { outcome with result := catchRuntimeException env outcome.result }

end WafContext

end Run

end Ddwaf
