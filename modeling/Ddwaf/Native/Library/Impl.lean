import Ddwaf.Native.JavaCall.Impl

/-!
This module contains how the native library is loaded and deinitialized: what `waf_jni.c`, `logging.c`,
`metrics.c`, `output.c` and `cs_wrapper.c` do with references then.
-/

namespace Ddwaf

namespace Library

structure MethodInit where
  jmeth : MethodVar
  className : String
  methodName : String
  sig : String
  type : JMethodType
  setsVirtual : Bool := false

section Load

variable (env : Env)

def store (v : RefVar) (r : Option GlobalRef) : Refs Unit := do
  setRef v r
  if r.isSome then return () else failed

def dispose (weak : Bool) (v : RefVar) : Refs Unit := do
  let s ← get
  match s.ref v with
  | none => return ()
  | some r => do
    deleteRef weak r
    setRef v none

def initMethod (init : MethodInit) : Refs Unit := do
  javaMethInitChecked env init.jmeth init.className init.methodName init.sig init.type
  if init.setsVirtual then
    let s ← get
    setMeth init.jmeth { s.meth init.jmeth with type := .virtual }
  else
    return ()

def cacheSingleClassWeak (className : String) (out : RefVar) : Refs Unit := do
  if ← call env (.findClass className) then
    store out (← newWeakGlobalRef env (some (.cls className)))
  else do
    javaWrapExc env ("Could not find class " ++ className)
    failed

def cachedClasses : List (String × RefVar) := [
  ("java/lang/RuntimeException", .jclsRte),
  ("java/lang/IllegalArgumentException", .jclsIae),
  ("java/lang/CharSequence", .charSequenceCls),
  ("java/nio/Buffer", .bufferCls),
  ("java/nio/CharBuffer", .charBufferCls),
  ("java/lang/String", .stringCls),
  ("java/lang/Double", .doubleCls),
  ("java/lang/Float", .floatCls),
  ("java/math/BigDecimal", .bigdecimalCls)
]

def cacheClasses : Refs Unit := cachedClasses.forM fun (className, out) =>
  cacheSingleClassWeak env className out

def disposeOfWeakClasses : Refs Unit := do
  dispose true .jclsIae
  dispose true .charSequenceCls
  dispose true .bufferCls
  dispose true .charBufferCls
  dispose true .stringCls
  dispose true .doubleCls
  dispose true .floatCls
  dispose true .bigdecimalCls

def disposeOfActionEnums : Refs Unit := do
  dispose true .actionOk
  dispose true .actionMatch

def disposeOfResultWithDataFields : Refs Unit := do
  dispose true .resultWithDataOkNull
  dispose true .resultWithDataEmptyMap

def disposeOfNativeOrderObj : Refs Unit := dispose true .nativeOrder

/-- Both `_fetch_action_enums` and `_fetch_result_with_data_fields` are this function. -/
def fetchStaticFields (className : String) (fields : List (RefVar × String × String))
    (disposeOf : Refs Unit) : Refs Unit := do
  let ret ← succeeds do
    require env (.findClass className)
    fields.forM fun (v, name, sig) => do
      store v (← javaStaticFieldChecked env className name sig)
  if ret then
    return ()
  else do
    disposeOf
    failed

def fetchActionEnums : Refs Unit :=
  fetchStaticFields env "com/datadog/ddwaf/Waf$Result" [
    (.actionOk, "OK", "Lcom/datadog/ddwaf/Waf$Result;"),
    (.actionMatch, "MATCH", "Lcom/datadog/ddwaf/Waf$Result;")
  ] disposeOfActionEnums

def fetchResultWithDataFields : Refs Unit :=
  fetchStaticFields env "com/datadog/ddwaf/Waf$ResultWithData" [
    (.resultWithDataOkNull, "OK_NULL", "Lcom/datadog/ddwaf/Waf$ResultWithData;"),
    (.resultWithDataEmptyMap, "EMPTY_ACTIONS", "Ljava/util/Map;")
  ] disposeOfResultWithDataFields

def fetchFields (className : String) (fields : List (String × String)) : Refs Unit := do
  require env (.findClass className)
  fields.forM fun (name, sig) => require env (.getFieldId className name sig)

def fetchWafContextFields : Refs Unit := fetchFields env "com/datadog/ddwaf/WafContext" [("ptr", "J")]

def fetchBuilderFields : Refs Unit := fetchFields env "com/datadog/ddwaf/WafBuilder" [("ptr", "J")]

def fetchLimitFields : Refs Unit :=
  fetchFields env "com/datadog/ddwaf/Waf$Limits" [
    ("maxDepth", "I"), ("maxElements", "I"), ("maxStringSize", "I"), ("generalBudgetInUs", "J"),
    ("runBudgetInUs", "J")
  ]

def fetchConfigFields : Refs Unit :=
  fetchFields env "com/datadog/ddwaf/WafConfig" [
    ("obfuscatorKeyRegex", "Ljava/lang/String;"), ("obfuscatorValueRegex", "Ljava/lang/String;")
  ]

def fetchNativeHandleField : Refs Unit := do
  if ← call env (.findClass "com/datadog/ddwaf/WafHandle") then
    require env (.getFieldId "com/datadog/ddwaf/WafHandle" "nativeHandle" "J")
  else do
    javaWrapExc env "Could not find class com.datadog.ddwaf.WafHandle"
    failed

def fetchNativeOrderObj : Refs Unit := do
  javaMethInitChecked env .nativeOrderMeth "java/nio/ByteOrder" "nativeOrder"
    "()Ljava/nio/ByteOrder;" .static
  let natOrdObj ← javaMethCall env .nativeOrderMeth
  javaMethDestroy .nativeOrderMeth
  if ← exceptionCheck then
    failed
  else
    setRef .nativeOrder (← newWeakGlobalRef env natOrdObj)

def cachedMethods : List MethodInit := [
  ⟨.createException, "com/datadog/ddwaf/Waf", "createException",
    "(I)Lcom/datadog/ddwaf/exception/AbstractWafException;", .static, false⟩,
  ⟨.timeoutExceptionInit, "com/datadog/ddwaf/exception/TimeoutWafException", "<init>", "()V",
    .constructor, false⟩,
  ⟨.toString, "java/lang/Object", "toString", "()Ljava/lang/String;", .virtual, false⟩,
  ⟨.charSequenceLength, "java/lang/CharSequence", "length", "()I", .virtual, false⟩,
  ⟨.charSequenceSubSequence, "java/lang/CharSequence", "subSequence",
    "(II)Ljava/lang/CharSequence;", .virtual, false⟩,
  ⟨.bufferPosition, "java/nio/Buffer", "position", "()I", .nonVirtual, false⟩,
  ⟨.bufferLimit, "java/nio/Buffer", "limit", "()I", .nonVirtual, false⟩,
  ⟨.charBufferHasArray, "java/nio/CharBuffer", "hasArray", "()Z", .nonVirtual, false⟩,
  ⟨.charBufferArray, "java/nio/CharBuffer", "array", "()[C", .nonVirtual, false⟩,
  ⟨.charBufferOrder, "java/nio/CharBuffer", "order", "()Ljava/nio/ByteOrder;", .virtual, false⟩,
  ⟨.numberLongValue, "java/lang/Number", "longValue", "()J", .virtualRetrieveClass, false⟩,
  ⟨.numberDoubleValue, "java/lang/Number", "doubleValue", "()D", .virtual, false⟩,
  ⟨.booleanBooleanValue, "java/lang/Boolean", "booleanValue", "()Z", .nonVirtual, false⟩,
  ⟨.resultWithDataInit, "com/datadog/ddwaf/Waf$ResultWithData", "<init>",
    "(Lcom/datadog/ddwaf/Waf$Result;Ljava/lang/String;Ljava/util/Map;Ljava/util/Map;ZJZ)V",
    .constructor, false⟩,
  ⟨.pwafHandleInit, "com/datadog/ddwaf/WafHandle", "<init>", "(J)V", .constructor, false⟩,
  ⟨.mapEntryset, "java/util/Map", "entrySet", "()Ljava/util/Set;", .nonVirtual, true⟩,
  ⟨.mapSize, "java/util/Map", "size", "()I", .virtual, false⟩,
  ⟨.entryKey, "java/util/Map$Entry", "getKey", "()Ljava/lang/Object;", .virtual, false⟩,
  ⟨.entryValue, "java/util/Map$Entry", "getValue", "()Ljava/lang/Object;", .virtual, false⟩,
  ⟨.iterableIterator, "java/lang/Iterable", "iterator", "()Ljava/util/Iterator;", .nonVirtual, true⟩,
  ⟨.iteratorNext, "java/util/Iterator", "next", "()Ljava/lang/Object;", .virtual, false⟩,
  ⟨.iteratorHasNext, "java/util/Iterator", "hasNext", "()Z", .virtual, false⟩,
  ⟨.classIsArray, "java/lang/Class", "isArray", "()Z", .nonVirtual, false⟩,
  ⟨.classGetName, "java/lang/Class", "getName", "()Ljava/lang/String;", .nonVirtual, false⟩
]

def cacheMethods : Refs Unit := cachedMethods.forM (initMethod env)

/-- The method `number_doubleValue` is not among them. -/
def destroyedMethods : List MethodVar := [
  .createException, .timeoutExceptionInit, .charSequenceLength, .charSequenceSubSequence,
  .charBufferHasArray, .charBufferArray, .charBufferOrder, .bufferPosition, .bufferLimit, .toString,
  .numberLongValue, .booleanBooleanValue, .resultWithDataInit, .pwafHandleInit, .mapEntryset, .mapSize,
  .entryKey, .entryValue, .iterableIterator, .iteratorNext, .iteratorHasNext, .classIsArray,
  .classGetName
]

def destroyMeth (m : MethodVar) : Refs Unit := do
  let s ← get
  if (s.meth m).type ≠ .uninitialized then javaMethDestroy m else return ()

def disposeOfCachedMethods : Refs Unit := destroyedMethods.forM destroyMeth

def disposeOfCacheReferences : Refs Unit := do
  disposeOfActionEnums
  disposeOfResultWithDataFields
  disposeOfWeakClasses
  disposeOfNativeOrderObj
  disposeOfCachedMethods

def fetchRteConstrCause : Refs Unit := do
  let s ← get
  use (s.ref .jclsRte)
  let found ← call env (.getMethodId ⟨"java/lang/RuntimeException", "<init>",
    "(Ljava/lang/String;Ljava/lang/Throwable;)V"⟩)
  modify fun s => { s with rteConstrCause := found }
  if found then return () else failed

def cacheReferences.cache : Refs Unit := do
  cacheClasses env
  fetchRteConstrCause env
  fetchActionEnums env
  fetchResultWithDataFields env
  fetchWafContextFields env
  fetchBuilderFields env
  fetchLimitFields env
  fetchConfigFields env
  fetchNativeHandleField env
  fetchNativeOrderObj env
  cacheMethods env

def cacheReferences : Refs Unit := do
  if ← succeeds (cacheReferences.cache env) then
    return ()
  else do
    disposeOfCacheReferences
    failed

def storeGlobalRef (v : RefVar) (obj : Option JObj) : Refs Unit := do
  store v (← newGlobalRef env obj)

def findSlf4j : Refs String := do
  if ← call env (.findClass "org/slf4j/event/Level") then
    return "org/"
  else do
    lift Jni.exceptionClear
    if ← call env (.findClass "datadog/slf4j/event/Level") then
      return "datadog/"
    else do
      javaWrapExc env ("Could find slf4j Level neither at org/slf4j/event/Level, nor at " ++
        "datadog/slf4j/event/Level")
      failed

def fetchField (slf4j : String) (v : RefVar) (name : String) : Refs Unit := do
  store v (← javaStaticFieldChecked env (slf4j ++ "slf4j/event/Level") name
    ("L" ++ slf4j ++ "slf4j/event/Level;"))

def testLevel (v : RefVar) (level : DdwafLogLevel) : Refs Bool := do
  let s ← get
  use (s.ref .logger)
  use (s.ref v)
  match (s.meth .isLoggable).methId with
  | none => misuse
  | some methId =>
    let returned ← call env (.callMethod methId)
    if returned && env.loggable level then
      modify fun s => { s with minLevel := level }
      return true
    else if ← exceptionCheck then
      failed
    else
      return false

def getMinLogLevel : Refs Unit := do
  if ← testLevel env .trace .trace then
    return ()
  else if ← testLevel env .debug .debug then
    return ()
  else if ← testLevel env .info .info then
    return ()
  else if ← testLevel env .warn .warn then
    return ()
  else
    modify fun s => { s with minLevel := .error }

def javaLogInit.fetch : Refs Unit := do
  let slf4j ← findSlf4j env
  require env (.findClass "java/lang/Object")
  storeGlobalRef env .objectJcls (some (.cls "java/lang/Object"))
  fetchField env slf4j .trace "TRACE"
  fetchField env slf4j .debug "DEBUG"
  fetchField env slf4j .info "INFO"
  fetchField env slf4j .warn "WARN"
  fetchField env slf4j .error "ERROR"
  javaMethInitChecked env .factGet (slf4j ++ "slf4j/LoggerFactory") "getLogger"
    ("(Ljava/lang/String;)L" ++ slf4j ++ "slf4j/Logger;") .static
  javaMethInitChecked env .wrapperLogInit "com/datadog/ddwaf/logging/InfoToDebugLogger" "<init>"
    ("(L" ++ slf4j ++ "slf4j/Logger;)V") .constructor
  require env (.newStringUtf "ddwaf_native")
  let _loggerLocal ← javaMethCall env .factGet
  failIfPending
  let wrapperLocal ← javaMethCall env .wrapperLogInit
  failIfPending
  storeGlobalRef env .logger wrapperLocal
  require env (.newStringUtf "%s (%s on %s:%s)")
  storeGlobalRef env .logPattern (some (.string "%s (%s on %s:%s)"))
  javaMethInitChecked env .logMeth "com/datadog/ddwaf/logging/InfoToDebugLogger" "log"
    ("(L" ++ slf4j ++ "slf4j/event/Level;Ljava/lang/Throwable;Ljava/lang/String;" ++
      "[Ljava/lang/Object;)V") .nonVirtual
  javaMethInitChecked env .isLoggable "com/datadog/ddwaf/logging/InfoToDebugLogger" "isLoggable"
    ("(L" ++ slf4j ++ "slf4j/event/Level;)Z") .nonVirtual
  if ← succeeds (getMinLogLevel env) then
    modify fun s => { s with logCb := true }
  else do
    javaWrapExc env "Could not determine minimum log level"
    failed

def javaLogShutdown.release (weak : Bool) (v : RefVar) : Refs Unit := do
  let s ← get
  match s.ref v with
  | none => return ()
  | some r => deleteRef weak r

def javaLogShutdown.refs : List (Bool × RefVar) := [
  (false, .objectJcls), (true, .trace), (true, .debug), (true, .info), (true, .warn), (true, .error),
  (false, .logger), (false, .logPattern)
]

def javaLogShutdown : Refs Unit := do
  javaLogShutdown.refs.forM fun (weak, v) => javaLogShutdown.release weak v
  javaMethDestroy .logMeth
  javaMethDestroy .isLoggable

def javaLogInit : Refs Unit := do
  let retval ← succeeds (javaLogInit.fetch env)
  javaMethDestroy .factGet
  javaMethDestroy .wrapperLogInit
  if retval then
    return ()
  else do
    javaLogShutdown
    failed

def metricsInit : Refs Unit := do
  require env (.findClass "com/datadog/ddwaf/WafMetrics")
  require env (.getFieldId "com/datadog/ddwaf/WafMetrics" "totalDdwafRunTimeNs"
    "Ljava/util/concurrent/atomic/AtomicLong;")
  require env (.getFieldId "com/datadog/ddwaf/WafMetrics" "totalRunTimeNs"
    "Ljava/util/concurrent/atomic/AtomicLong;")
  require env (.findClass "java/util/concurrent/atomic/AtomicLong")
  require env (.getMethodId ⟨"java/util/concurrent/atomic/AtomicLong", "addAndGet", "(J)J"⟩)

def cacheSingleClassStrong (className : String) (out : RefVar) : Refs Unit := do
  let _ ← call env (.findClass className)
  failIfPending
  setRef out (← newGlobalRef env (some (.cls className)))
  failIfPending

def sectionInfo : String := "Lcom/datadog/ddwaf/WafDiagnostics$SectionInfo;"

def outputMethods : List MethodInit := [
  ⟨.rsiInit, "com/datadog/ddwaf/WafDiagnostics", "<init>",
    "(Ljava/lang/String;Ljava/lang/String;" ++ String.join (List.replicate 9 sectionInfo) ++ ")V",
    .constructor, false⟩,
  ⟨.sectInfoErrInit, "com/datadog/ddwaf/WafDiagnostics$SectionInfo", "<init>",
    "(Ljava/lang/String;)V", .constructor, false⟩,
  ⟨.sectInfoNormalInit, "com/datadog/ddwaf/WafDiagnostics$SectionInfo", "<init>",
    "(Ljava/util/List;Ljava/util/List;Ljava/util/List;Ljava/util/Map;Ljava/util/Map;)V",
    .constructor, false⟩,
  ⟨.arrayListInit, "java/util/ArrayList", "<init>", "(I)V", .constructor, false⟩,
  ⟨.arrayListAdd, "java/util/ArrayList", "add", "(Ljava/lang/Object;)Z", .nonVirtual, false⟩,
  ⟨.linkedHmInit, "java/util/LinkedHashMap", "<init>", "()V", .constructor, false⟩,
  ⟨.mapPut, "java/util/Map", "put", "(Ljava/lang/Object;Ljava/lang/Object;)Ljava/lang/Object;",
    .virtual, false⟩
]

def valueOfMethods : List MethodInit := [
  ⟨.longValueOf, "java/lang/Long", "valueOf", "(J)Ljava/lang/Long;", .static, false⟩,
  ⟨.doubleValueOf, "java/lang/Double", "valueOf", "(D)Ljava/lang/Double;", .static, false⟩,
  ⟨.booleanValueOf, "java/lang/Boolean", "valueOf", "(Z)Ljava/lang/Boolean;", .static, false⟩
]

def outputShutdown : Refs Unit := do
  javaMethDestroy .rsiInit
  javaMethDestroy .sectInfoErrInit
  javaMethDestroy .sectInfoNormalInit
  javaMethDestroy .arrayListInit
  javaMethDestroy .arrayListAdd
  javaMethDestroy .linkedHmInit
  javaMethDestroy .mapPut
  javaMethDestroy .longValueOf
  javaMethDestroy .doubleValueOf
  javaMethDestroy .booleanValueOf
  dispose false .longCls
  dispose false .outputDoubleCls
  dispose false .booleanCls

def outputInitChecked.cache : Refs Unit := do
  outputMethods.forM (initMethod env)
  cacheSingleClassStrong env "java/lang/Long" .longCls
  cacheSingleClassStrong env "java/lang/Double" .outputDoubleCls
  cacheSingleClassStrong env "java/lang/Boolean" .booleanCls
  valueOfMethods.forM (initMethod env)

def outputInitChecked : Refs Unit := do
  if ← succeeds (outputInitChecked.cache env) then return () else outputShutdown

def csWrapperInit.lookUp : Refs Unit := do
  require env (.findClass "java/nio/StringCharBuffer")
  require env (.findClass "java/nio/CharBuffer")
  require env (.findClass "java/nio/Buffer")
  require env (.findClass "java/lang/CharSequence")
  require env (.getFieldId "java/nio/StringCharBuffer" "str" "Ljava/lang/CharSequence;")
  require env (.getFieldId "java/nio/StringCharBuffer" "offset" "I")
  require env (.getFieldId "java/nio/StringCharBuffer" "mark" "I")
  require env (.getFieldId "java/nio/StringCharBuffer" "position" "I")
  require env (.getFieldId "java/nio/StringCharBuffer" "limit" "I")
  require env (.getFieldId "java/nio/StringCharBuffer" "capacity" "I")
  require env (.getMethodId ⟨"java/lang/CharSequence", "length", "()I"⟩)

def csWrapperInit : Refs Unit := do
  if ← succeeds (csWrapperInit.lookUp env) then
    modify fun s => { s with csWrapperActive := true }
  else do
    javaLog env .warn "Error initializing CharSequenceWrapper native method"
    lift Jni.exceptionClear

def getPwRunTimeoutChecked.readVal : Refs Unit := do
  if env.timeoutIsSet then do
    require env .javaToUtf8
    if env.timeoutIsNumber then
      javaLog env .info "Using value %lld us for DD_APPSEC_WAF_TIMEOUT"
    else
      javaLog env .warn "Invalid value of system property DD_APPSEC_WAF_TIMEOUT: '%s'"
  else
    javaLog env .debug "No property DD_APPSEC_WAF_TIMEOUT; using default %lld"

def javaUtf8ToJstringChecked (input : List UInt8) : Refs Unit := do
  let s ← get
  use (s.ref .jclsRte)
  let _ ← lift (Jni.javaUtf8ToJstringChecked env.jvm input)

def getPwRunTimeoutChecked.read : Refs Unit := do
  javaMethInitChecked env .getProp "java/lang/System" "getProperty"
    "(Ljava/lang/String;)Ljava/lang/String;" .static
  javaUtf8ToJstringChecked env (cstr "DD_APPSEC_WAF_TIMEOUT")
  let _valJstr ← javaMethCall env .getProp
  failIfPending
  getPwRunTimeoutChecked.readVal env

/-- Without the value that is returned, which is that of `PropertyCalls.getPwRunTimeoutChecked`. -/
def getPwRunTimeoutChecked : Refs Unit := do
  let _ ← succeeds (getPwRunTimeoutChecked.read env)
  javaMethDestroy .getProp

def orThrow (x : Refs Unit) (msg : String) : Refs Unit := do
  if ← succeeds x then
    return ()
  else do
    throwNewUnlessPending env msg
    failed

def checkGlibc : Refs Unit := do
  if env.forGlibc && !env.glibcVersionFound then do
    throwNew env ("JNI library was compiled against glibc, but at runtime the function " ++
      "gnu_get_libc_version was not found. Not a glibc process?")
    failed
  else
    return ()

def initOutput : Refs Unit := do
  outputInitChecked env
  if ← exceptionCheck then do
    javaWrapExc env "Failed initializing references for diagnostics.c"
    failed
  else
    return ()

def jniOnLoad.load : Refs Unit := do
  orThrow env (cacheReferences env) "Library initialization failed (_cache_references)"
  checkGlibc env
  orThrow env (javaLogInit env) "Library initialization failed(java_log_init)"
  orThrow env (metricsInit env) "Library initialization failed(metrics_init)"
  initOutput env
  csWrapperInit env
  getPwRunTimeoutChecked env
  failIfPending
  modify fun s => { s with initOk := true }

def jniOnLoad : Refs Unit := do
  let _ ← succeeds (jniOnLoad.load env)
  return ()

def checkInit : Refs Bool := do
  let s ← get
  if s.initOk then
    return true
  else do
    throwNew env "Library has not been properly initialized"
    return false

def compareAndSwap : Refs Bool := do
  let s ← get
  modify fun s => { s with initOk := false }
  return s.initOk

/-- What `_deinitialize` does behind that, one call after the other. -/
def deinitializeJni.calls : List (Refs Unit) := [
  javaLog env .debug "Deinitializing JNI library",
  disposeOfCacheReferences,
  outputShutdown,
  -- `ddwaf_set_log_cb`
  modify fun s => { s with logCb := false },
  javaLogShutdown
]

end Load

end Library

end Ddwaf
