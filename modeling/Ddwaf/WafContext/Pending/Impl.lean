import Ddwaf.Native.Logging.Impl

/-!
This module contains a run of a `WafContext` where any call may fail: what is pending in between, and
the functions of `waf_jni.c`, `output.c` and `metrics.c` that handle it.
-/

namespace Ddwaf

inductive WafErrorCode where
  | invalidArgument
  | invalidObject
  | internalError
  | bindingError

def WafErrorCode.fromCode : Int → Option WafErrorCode
  | -1 => some .invalidArgument
  | -2 => some .invalidObject
  | -3 => some .internalError
  | -127 => some .bindingError
  | _ => none

def DdwafRetCode.toInt : DdwafRetCode → Int
  | .errInternal => -3
  | .errInvalidObject => -2
  | .errInvalidArgument => -1
  | .ok => 0
  | .match => 1
  | .unknown code => code

def createFromErrorCode (errorCode : DdwafRetCode) : Except Throwable WafException :=
  match WafErrorCode.fromCode errorCode.toInt with
  | none => .ok (.ofErrorCode errorCode)
  | some .invalidArgument => .ok (.ofErrorCode errorCode)
  | some .invalidObject => .ok (.ofErrorCode errorCode)
  | some .internalError => .ok (.ofErrorCode errorCode)
  | some .bindingError => .error ⟨.illegalStateException, "Unhandled WafErrorCode: BINDING_ERROR"⟩

/-- An object that is made of a `ddwaf_object`, with what it contains. The key of an entry is the string
that its name has been made into; NULL is a key, too. -/
inductive JValue where
  | null
  | long (value : Int)
  | double (value : UInt64)
  | boolean (value : Bool)
  | string (value : List UInt16)
  | list (elements : List JValue)
  | map (entries : List (Option (List UInt16) × JValue))

abbrev JEntries := List (Option (List UInt16) × JValue)

/-- The result of a run and what it is made of. -/
structure ResultRef where
  id : JRef
  result : Waf.Result
  data : Option (List UInt16)
  actions : JValue
  attributes : Option JValue
  keep : Bool
  duration : Int64
  events : Bool

namespace Jni

variable (jvm : Jvm)

section Convert

-- The methods that change a container give what it contains afterwards.

def arrayListInit : JMethod (List JValue) := .constructor fun _ => []

def arrayListAdd (ret : List JValue) (elem : Option JValue) : JMethod (List JValue) :=
  .nonVirtual fun _ => .ok (ret ++ [elem.getD .null])

def linkedHmInit : JMethod JEntries := .constructor fun _ => []

def mapPut (ret : JEntries) (key : Option (List UInt16)) (value : Option JValue) : JMethod JEntries :=
  .virtual fun _ => .ok (LinkedMap.put ret key (value.getD .null))

def longValueOf (value : Int64) : JMethod JValue := .static fun _ => .ok (.long value.toInt)

def doubleValueOf (value : UInt64) : JMethod JValue := .static fun _ => .ok (.double value)

def booleanValueOf (value : Bool) : JMethod JValue := .static fun _ => .ok (.boolean value)

def jstring (input : List UInt8) : Jni JValue := do
  return .string (← javaUtf8ToJstringChecked jvm input)

mutual

def convertDdwafObjectToJobject (obj : DdwafObject) : Jni JValue :=
  match obj with
  | .invalid => ofNative jvm (throwRte "Unsupported ddwaf object type")
  | .signed intValue => javaMethCall jvm (longValueOf intValue)
  | .unsigned uintValue => javaMethCall jvm (longValueOf uintValue.toInt64)
  | .float f64 => javaMethCall jvm (doubleValueOf f64)
  | .bool boolean => javaMethCall jvm (booleanValueOf boolean)
  | .string stringValue => jstring jvm stringValue
  | .array array =>
    if array.length > intMax then
      ofNative jvm (throwRte "Too many elements in ddwaf array")
    else do
      let ret ← javaMethCall jvm arrayListInit
      return .list (← convertElements array ret)
  | .map array => do
    let ret ← javaMethCall jvm linkedHmInit
    return .map (← convertEntries array ret)
  | .null => ofNative jvm (throwRte "Unknown ddwaf object type")

def convertElements (array : List DdwafObject) (ret : List JValue) : Jni (List JValue) :=
  match array with
  | [] => return ret
  | o :: rest => do
    let elem ← checked (convertDdwafObjectToJobject o)
    let added ← checked (javaMethCall jvm (arrayListAdd ret elem))
    convertElements rest (added.getD ret)

def convertEntries (array : List (List UInt8 × DdwafObject)) (ret : JEntries) : Jni JEntries :=
  match array with
  | [] => return ret
  | (parameterName, elem) :: rest => do
    let key ← checked (javaUtf8ToJstringChecked jvm parameterName)
    let value ← checked (convertDdwafObjectToJobject elem)
    let added ← checked (javaMethCall jvm (mapPut ret key value))
    convertEntries rest (added.getD ret)

end

variable (ext : Externals)

def outputConvertJson (obj : DdwafObject) : Jni (Option SegPtr × JsonHeap) := do
  let (n, _) ← answer jvm .malloc
  ofNative jvm (Ddwaf.outputConvertJson (jvm.alloc n) obj)

def encodeGzip (json : List JsonSegment) : Jni (Option (List UInt8)) := do
  match ← succeeds jvm .malloc with
  | true => return ext.encodeGzip json
  | false => return none

def encodeJsonGzipBase64Checked (obj : DdwafObject) : Jni JValue := do
  match ← outputConvertJson jvm obj with
  -- too deep (or OOM)
  | (none, _) => null
  | (some json, h) =>
    let segments := h.chainFrom json
    let _ ← ofNative jvm (jsonSegFree (some json) h)
    if jsonLength segments > maxSizeOfSchema then
      null
    else
      match ← encodeGzip jvm ext segments with
      | none =>
        javaLog jvm .debug "gzip encoding of derivative failed"
        null
      | some gzip =>
        require jvm .malloc
        jstring jvm (base64Encode gzip)

def attributeValue (parameterName : List UInt8) (entry : DdwafObject) : Jni JValue :=
  if isDerivative parameterName "_dd.appsec.s." then
    encodeJsonGzipBase64Checked jvm ext entry
  else if isDerivative parameterName "_dd.appsec.fp." then do
    let stringValue ← ofNative jvm (ext.stringValue entry)
    jstring jvm stringValue
  else
    match entry with
    | .string stringValue => jstring jvm stringValue
    | .signed intValue => javaMethCall jvm (longValueOf intValue)
    | .unsigned uintValue => javaMethCall jvm (longValueOf uintValue.toInt64)
    | .float f64 => javaMethCall jvm (doubleValueOf f64)
    | .bool boolean => javaMethCall jvm (booleanValueOf boolean)
    | .map array => convertDdwafObjectToJobject jvm (.map array)
    | .array _ | .invalid | .null => null

def isMapAttribute (parameterName : List UInt8) (entry : DdwafObject) : Bool :=
  match entry with
  | .map _ =>
    !isDerivative parameterName "_dd.appsec.s." && !isDerivative parameterName "_dd.appsec.fp."
  | _ => false

/-- A map is put also when there is none; any other value that is missing is left out. -/
def putAttribute (parameterName : List UInt8) (entry : DdwafObject) (ret : JEntries)
    (key : Option (List UInt16)) (value : Option JValue) : Jni JEntries := do
  if value.isNone && !isMapAttribute parameterName entry then
    javaLog jvm .debug "Failed serializing derivative entry"
    return ret
  else
    let added ← checked (javaMethCall jvm (mapPut ret key value))
    return added.getD ret

def convertAttributes (array : List (List UInt8 × DdwafObject)) (ret : JEntries) : Jni JEntries :=
  match array with
  | [] => return ret
  | (parameterName, entry) :: rest => do
    let key ← checked (javaUtf8ToJstringChecked jvm parameterName)
    let value ← checked (attributeValue jvm ext parameterName entry)
    let ret ← putAttribute jvm parameterName entry ret key value
    convertAttributes rest ret

def outputConvertAttributesChecked (array : List (List UInt8 × DdwafObject)) : Jni JValue := do
  match ← checked (javaMethCall jvm linkedHmInit) with
  | some ret => return .map (← convertAttributes jvm ext array ret)
  | none =>
    let _ ← convertAttributes jvm ext array []
    null

end Convert

/-- What a conversion returns; when it is NULL, the pending exception is wrapped. -/
def orWrap (msg : String) (x : Jni α) : Jni α := do
  match ← orNull x with
  | some a => return a
  | none =>
    javaWrapExc jvm msg
    null

section CreateResult

variable (ext : Externals)

def readJson (seg : List JsonSegment) : Jni Unit := do
  match ← succeeds jvm .malloc with
  | true =>
    let len := jsonLength seg
    let read ← ofNative jvm (jsonItRead ⟨seg, 0⟩ len)
    let _ ← ofNative jvm (store (len + 1) read.written [0])
    return ()
  | false => return ()

def consumeJsonAndFree (obj : Option DdwafObject) : Jni Unit := do
  match obj with
  | none => return ()
  | some obj =>
    match ← outputConvertJson jvm obj with
    | (none, _) => return ()
    | (some seg, h) =>
      readJson jvm (h.chainFrom seg)
      let _ ← ofNative jvm (jsonSegFree (some seg) h)
      return ()

namespace createResultChecked

def actions (actionsObj : Option DdwafObject) : Jni JValue :=
  match actionsObj with
  | some (.map array) =>
    if ext.ddwafObjectSize (.map array) = 0 then
      return .map []
    else
      orWrap jvm "Error creating actions map" (convertDdwafObjectToJobject jvm (.map array))
  | _ => return .map []

def data (eventsObj : Option DdwafObject) : Jni (Option (List UInt16)) :=
  match eventsObj with
  | some (.array array) =>
    if ext.ddwafObjectSize (.array array) > 0 then do
      match ← outputConvertJson jvm (.array array) with
      | (none, _) =>
        throwNew jvm ⟨.illegalArgumentException, "failed converting events array to json"⟩
        null
      | (some seg, h) =>
        let dataObj ← orNull (javaJsonToJstringChecked jvm (h.chainFrom seg))
        let _ ← ofNative jvm (jsonSegFree (some seg) h)
        if ← exceptionCheck then
          javaWrapExc jvm "Failed converting json to Java string"
          null
        else
          return dataObj
    else
      return none
  | _ => return none

def attributes (attributesObj : Option DdwafObject) : Jni (Option JValue) :=
  match attributesObj with
  | some (.map array) =>
    if ext.ddwafObjectSize (.map array) > 0 then do
      return some (← orWrap jvm "Failed encoding inferred attributes"
        (outputConvertAttributesChecked jvm ext array))
    else
      return none
  | _ => return none

end createResultChecked

def resultWithDataInit (object : JRef → ResultRef) : JMethod ResultRef := .constructor object

def createResultChecked (code : DdwafRetCode) (ddwafResult : DdwafObject) : Jni ResultRef := do
  let find := ext.ddwafObjectFind ddwafResult
  let actionsJmap ← createResultChecked.actions jvm ext (find (cstr "actions"))
  let dataObj ← createResultChecked.data jvm ext (find (cstr "events"))
  consumeJsonAndFree jvm (some ddwafResult)
  consumeJsonAndFree jvm (find (cstr "attributes"))
  let attributes ← createResultChecked.attributes jvm ext (find (cstr "attributes"))
  javaMethCall jvm <| resultWithDataInit fun id => {
    id
    result := if code = .ok then .ok else .match
    data := dataObj
    actions := actionsJmap
    attributes
    keep := Ddwaf.createResultChecked.keep ext (find (cstr "keep"))
    duration := Ddwaf.createResultChecked.duration ext (find (cstr "duration"))
    events := hasEvents ext ddwafResult
  }

end CreateResult

section Throw

def createException (retcode : DdwafRetCode) : JMethod JThrowable :=
  .static fun id => (createFromErrorCode retcode).map (.waf id)

def timeoutExceptionInit : JMethod JThrowable := .constructor fun id => .waf id .timeout

/--
Both `_throw_pwaf_exception` and `_throw_pwaf_timeout_exception` are this, but for what makes the
exception.
-/
def throwMade (make : JMethod JThrowable) : Jni Unit := do
  let exc ← orNull (javaMethCall jvm make)
  if ← exceptionCheck then return () else throwRef exc

def throwPwafException (retcode : DdwafRetCode) : Jni Unit := throwMade jvm (createException retcode)

def throwPwafTimeoutException : Jni Unit := throwMade jvm timeoutExceptionInit

end Throw

section Metrics

variable (ext : Externals)

def addAndGet (_delta : Int64) : Jni Unit := do
  let _ ← checked (call jvm .getField)
  let _ ← checked (call jvm .callMethod)
  return ()

def addTimes (runTimeNs ddwafRunTimeNs : Int64) : Jni Unit := do
  match ← succeeds jvm .monitorEnter with
  | false =>
    throwNew jvm ⟨.runtimeException, "Error entering monitor on the metrics object"⟩
    null
  | true =>
    if runTimeNs > 0 then
      addAndGet jvm runTimeNs
      addAndGet jvm ddwafRunTimeNs
    else
      addAndGet jvm ddwafRunTimeNs

def metricsUpdateChecked (runTimeNs ddwafRunTimeNs : Int64) : Jni Unit := do
  let _ ← orNull (addTimes jvm runTimeNs ddwafRunTimeNs)
  call jvm .monitorExit

def updateMetricsObj (metricsObj : Option JRef) (ddwafResult : DdwafObject) : Jni Unit :=
  match metricsObj with
  | none => return ()
  | some _ =>
    let durationObj := ext.ddwafObjectFind ddwafResult (cstr "duration")
    metricsUpdateChecked jvm 0 (Ddwaf.createResultChecked.duration ext durationObj)

def suppressSubsequent : Jni Unit := do
  match ← exceptionOccurred with
  | none => return ()
  | some _ =>
    javaLog jvm .error "Exception updating metrics will be suppressed due to earlier exception"
    exceptionClear

def updateMetrics (metricsObj : Option JRef) (ddwafResult : DdwafObject) : Jni Unit := do
  let earlierExc ← takePending
  updateMetricsObj jvm ext metricsObj ddwafResult
  match earlierExc with
  | none => return ()
  | some earlierExc =>
    suppressSubsequent jvm
    throwRef (some earlierExc)

end Metrics

section Run

variable {D : Type} (env : RunEnv D)

def getTimeChecked (time : Option Timespec) : Jni Timespec :=
  match time with
  | some time => return time
  | none => do
    throwNew jvm ⟨.runtimeException, "Error getting time"⟩
    null

def fetchLimitsChecked (limitsObj : Waf.Limits) : Jni NativeLimits := do
  match ← orNull fields with
  | some limits => return limits
  | none => return ⟨0, 0, 0, 0, 0⟩
where
  fields : Jni NativeLimits := do
    let _ ← checked (call jvm .getField)
    let _ ← checked (call jvm .getField)
    let _ ← checked (call jvm .getField)
    let _ ← checked (call jvm .getField)
    let _ ← checked (call jvm .getField)
    return Ddwaf.fetchLimitsChecked env.pwRunTimeout limitsObj

def getWafContextContextChecked : Jni Nat := do
  let _ ← checked (call jvm .getField)
  ofExcept jvm (Ddwaf.getWafContextContextChecked env.ptr)

def convertBufferChecked (buffer : Option JByteBuffer) : Jni (Option Nat) :=
  match Ddwaf.convertBufferChecked buffer with
  | .ok inputP => return inputP
  | .error exc => do
    throwNew jvm exc
    return none

def convertBuffer (msg : String) (buffer : Option JByteBuffer) : Jni (Option Nat) := do
  let inputPtr ← convertBufferChecked jvm buffer
  match ← exceptionOccurred with
  | some _ =>
    javaLog jvm .info msg
    javaWrapExc jvm msg
    null
  | none => return inputPtr

def getRemainingBudget (start fin : Timespec) (limits : NativeLimits) : Jni Int64 := do
  let remGenBudgetInUs := Ddwaf.getRemainingBudget start fin limits
  javaLog jvm .debug ("Conversion of WAF arguments took " ++
    toString (timespecDiffNs fin start / 1000) ++ " us; remaining general budget is " ++
    toString remGenBudgetInUs ++ " us")
  return remGenBudgetInUs

def getRunBudget (remGenBudgetInUs : Int64) (limits : NativeLimits) : Jni UInt64 := do
  if remGenBudgetInUs > limits.runBudgetInUs then
    javaLog jvm .debug ("Using run budget of " ++ toString limits.runBudgetInUs ++
      " us instead of remaining general budget of " ++ toString remGenBudgetInUs ++ " us")
    return Ddwaf.getRunBudget remGenBudgetInUs limits
  else
    return Ddwaf.getRunBudget remGenBudgetInUs limits

def logRun (messages : List (List UInt8)) : Jni Unit :=
  match messages with
  | [] => return ()
  | message :: rest => do
    onThread (wafLoggingC jvm message)
    logRun rest

def ddwafRun (context : Nat) (persistentInputPtr ephemeralInputPtr : Option Nat)
    (runBudget : UInt64) : Jni (DdwafRetCode × DdwafObject) := do
  let s ← get
  logRun jvm (jvm.ddwafRunLogs s.calls)
  return env.ddwafRun context persistentInputPtr ephemeralInputPtr runBudget

def runResult (retCode : DdwafRetCode) (ddwafResult : DdwafObject) : Jni ResultRef :=
  let timeout := match env.ext.ddwafObjectFind ddwafResult (cstr "timeout") with
    | some (.bool boolean) => env.ext.ddwafObjectGetBool (.bool boolean)
    | _ => false
  if timeout then do
    throwPwafTimeoutException jvm
    null
  else
    match retCode with
    | .ok | .match => createResultChecked jvm env.ext retCode ddwafResult
    | .errInternal => do
      javaLog jvm .error "libddwaf returned DDWAF_ERR_INTERNAL. Data may have leaked"
      throwPwafException jvm .errInternal
      null
    | retCode => do
      throwPwafException jvm retCode
      null

def runInputs (start : Timespec) (limits : NativeLimits) (input : RunInput)
    (metricsObj : Option JRef) : Jni ResultRef := do
  let convEnd ← getTimeChecked jvm env.convEnd
  let remGenBudgetInUs ← getRemainingBudget jvm start convEnd limits
  if remGenBudgetInUs = 0 then
    javaLog jvm .info ("General budget of " ++ toString limits.generalBudgetInUs ++
      " us exhausted after native conversion")
    throwPwafTimeoutException jvm
    null
  else
    let runBudget ← getRunBudget jvm remGenBudgetInUs limits
    let (retCode, ddwafResult) ←
      ddwafRun jvm env input.context input.persistentInputPtr input.ephemeralInputPtr runBudget
    let result ← orNull (runResult jvm env retCode ddwafResult)
    updateMetrics jvm env.ext metricsObj ddwafResult
    match result with
    | some result => return result
    | none => null

def runWafContextCommon (persistentData ephemeralData : Option JByteBuffer)
    (limitsObj : Option Waf.Limits) (metricsObj : Option JRef) : Jni ResultRef := do
  let start ← getTimeChecked jvm env.start
  ofExcept jvm (checkInit env.initOk)
  match limitsObj with
  | none =>
    throwNew jvm ⟨.illegalArgumentException, "limits should not be null"⟩
    null
  | some limitsObj =>
    let limits ← fetchLimitsChecked jvm env limitsObj
    nullIfPending
    let context ← getWafContextContextChecked jvm env
    let persistentInputPtr ← convertBuffer jvm
      "Exception converting 'persistent' ByteBuffer into ddwaf_object" persistentData
    let ephemeralInputPtr ← convertBuffer jvm
      "Exception converting 'ephemeral' ByteBuffer into ddwaf_object" ephemeralData
    if persistentInputPtr = none ∧ ephemeralInputPtr = none then
      javaLog jvm .warn "Both persistent and ephemeral data are null"
      throwPwafException jvm .errInvalidArgument
      null
    else
      runInputs jvm env start limits ⟨context, persistentInputPtr, ephemeralInputPtr⟩ metricsObj

/--
What a run throws: an exception of its own, or one of the native method. Any other end of the native
method is one of the process.
-/
inductive RunThrow where
  | java (exc : RunStop)
  | native (exc : JThrowable)
  | stopped (stop : Stop)

def returned (r : Except Exit α × JniState) : Except RunThrow (Option α) :=
  match r with
  | (.error (.stopped stop), _) => .error (.stopped stop)
  | (_, ⟨some exc, _⟩) => .error (.native exc)
  | (.ok a, ⟨none, _⟩) => .ok (some a)
  | (.error .null, ⟨none, _⟩) => .ok none

/-- That what is thrown is wrapped once more is left out. -/
def WafContext.run (persistentData ephemeralData : Option D) (limits : Option Waf.Limits)
    (metrics : Option JRef) (calls : Nat) : Except RunThrow (Option ResultRef) :=
  match limits with
  | none => .error (.java (.thrown ⟨.illegalArgumentException, "limits must be provided"⟩))
  | some limits =>
    if !env.online then
      .error (.java (.thrown ⟨.illegalStateException, "This WafContext is no longer online"⟩))
    else
      match encodeParameters env persistentData ephemeralData with
      | .error exc => .error (.java (encodeException exc))
      | .ok (persistentBuffer, ephemeralBuffer) =>
        let newLimits := limits.reduceBudget ((env.serialized - env.before) / 1000)
        if newLimits.generalBudgetInUs = 0 then
          .error (.java (.waf .timeout))
        else
          returned (Program.exec (runWafContextCommon jvm env persistentBuffer ephemeralBuffer
            (some newLimits) metrics) ⟨none, calls⟩)

end Run

end Jni

end Ddwaf
