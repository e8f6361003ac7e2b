import Ddwaf.Native.CreateResult.Faithful
import Ddwaf.Native.Logging.Pending
import Ddwaf.WafContext.Pending.Impl

open Program

namespace Ddwaf

namespace Jni

variable {α : Type} (jvm : Jvm)

section Convert

variable {jvm}

theorem javaLog_stopsWith {E : Exit → JniState → Prop} (level : DdwafLogLevel) (message : String) :
    StopsWith E (javaLog jvm level message) :=
  Never.stopsWith fun s => javaLog_ensures jvm level message s

theorem answer_stopsWith {E : Exit → JniState → Prop} (function : Function) :
    StopsWith E (answer jvm function) :=
  fun s => Ensures.of_ok (exec_answer jvm function s) trivial

theorem succeeds_stopsWith {E : Exit → JniState → Prop} (function : Function) :
    StopsWith E (succeeds jvm function) :=
  Ensures.stopsWith (succeeds_ensures jvm function) fun _ _ hE => hE

theorem convertEntries_checked (array : List (List UInt8 × DdwafObject)) (ret : JEntries) :
    Checked (convertEntries jvm array ret) := by
  induction array generalizing ret with
  | nil =>
    rw [convertEntries]
    exact StopsWith.pure ret
  | cons entry rest ih =>
    have ⟨parameterName, elem⟩ := entry
    rw [convertEntries]
    apply StopsWith.bind (checked_checked _)
    intro _
    apply StopsWith.bind (checked_checked _)
    intro _
    apply StopsWith.bind (checked_checked _)
    intro _
    exact ih _

variable (hjvm : jvm.NewObjectThrows)
include hjvm

theorem convertMap_checked (array : List (List UInt8 × DdwafObject)) :
    Checked (convertDdwafObjectToJobject jvm (.map array)) := by
  rw [convertDdwafObjectToJobject]
  apply StopsWith.bind (javaMethCall_checked jvm hjvm linkedHmInit)
  intro ret
  apply StopsWith.bind (convertEntries_checked array ret)
  intro entries
  exact StopsWith.pure (JValue.map entries)

omit hjvm in
theorem putAttribute_checked (parameterName : List UInt8) (entry : DdwafObject) (ret : JEntries)
    (key : Option (List UInt16)) (value : Option JValue) :
    Checked (putAttribute jvm parameterName entry ret key value) := by
  unfold putAttribute
  split
  . apply StopsWith.bind (javaLog_stopsWith _ _)
    intro _
    exact StopsWith.pure ret
  . apply StopsWith.bind (checked_checked _)
    intro added
    exact StopsWith.pure (added.getD ret)

omit hjvm in
theorem convertAttributes_checked (ext : Externals) (array : List (List UInt8 × DdwafObject))
    (ret : JEntries) : Checked (convertAttributes jvm ext array ret) := by
  induction array generalizing ret with
  | nil => exact StopsWith.pure ret
  | cons entry rest ih =>
    apply StopsWith.bind (checked_checked _)
    intro key
    apply StopsWith.bind (checked_checked _)
    intro value
    apply StopsWith.bind (putAttribute_checked _ _ ret key value)
    intro ret'
    exact ih ret'

theorem outputConvertAttributesChecked_checked (ext : Externals)
    (array : List (List UInt8 × DdwafObject)) :
    Checked (outputConvertAttributesChecked jvm ext array) := by
  intro s
  apply Ensures.bind (checked_ensures (javaMethCall_checked jvm hjvm linkedHmInit) s)
  intro ret s' hret
  cases ret with
  | none => contradiction
  | some ret =>
    apply StopsWith.bind (convertAttributes_checked ext array ret)
    intro entries
    exact StopsWith.pure (JValue.map entries)

theorem orWrap_checked {x : Jni α} (hx : Checked x) (msg : String) : Checked (orWrap jvm msg x) := by
  intro s
  apply Ensures.bind ((orNull_ensures (hx s)).mono_error fun _ _ hE => hE.1)
  intro a s' ha
  cases a with
  | some a => exact Ensures.pure trivial
  | none => exact javaWrapExc_null hjvm msg ha

end Convert

section CreateResult

variable {jvm} (ext : Externals)

theorem outputConvertJson_checked (obj : DdwafObject) : Checked (outputConvertJson jvm obj) := by
  apply StopsWith.bind (answer_stopsWith .malloc)
  rintro ⟨n, _⟩
  exact ofNative_checked jvm _

theorem readJson_checked (seg : List JsonSegment) : Checked (readJson jvm seg) := by
  apply StopsWith.bind (succeeds_stopsWith .malloc)
  intro enough
  cases enough with
  | false => exact StopsWith.pure ()
  | true =>
    apply StopsWith.bind (ofNative_checked jvm _)
    intro read
    apply StopsWith.bind (ofNative_checked jvm _)
    intro _
    exact StopsWith.pure ()

theorem consumeJsonAndFree_checked (obj : Option DdwafObject) :
    Checked (consumeJsonAndFree jvm obj) := by
  cases obj with
  | none => exact StopsWith.pure ()
  | some obj =>
    apply StopsWith.bind (outputConvertJson_checked obj)
    rintro ⟨seg, h⟩
    cases seg with
    | none => exact StopsWith.pure ()
    | some seg =>
      apply StopsWith.bind (readJson_checked _)
      intro _
      apply StopsWith.bind (ofNative_checked jvm _)
      intro _
      exact StopsWith.pure ()

variable (hjvm : jvm.NewObjectThrows)
include hjvm

theorem actions_checked (actionsObj : Option DdwafObject) :
    Checked (createResultChecked.actions jvm ext actionsObj) := by
  unfold createResultChecked.actions
  split
  . next array =>
    split
    . exact StopsWith.pure (JValue.map [])
    . exact orWrap_checked hjvm (convertMap_checked hjvm array) _
  . exact StopsWith.pure (JValue.map [])

theorem data_checked (eventsObj : Option DdwafObject) :
    Checked (createResultChecked.data jvm ext eventsObj) := by
  unfold createResultChecked.data
  split
  . split
    . apply StopsWith.bind (outputConvertJson_checked _)
      rintro ⟨seg, h⟩
      cases seg with
      | none => exact throwNew_null jvm (fun _ hs => hs) _
      | some seg =>
        apply StopsWith.bind (orNull_checked _)
        intro dataObj
        apply StopsWith.bind (ofNative_checked jvm _)
        intro _ s
        apply exceptionCheck_bind
        . exact javaWrapExc_null hjvm _
        . intro _
          exact Ensures.pure trivial
    . exact StopsWith.pure none
  . exact StopsWith.pure none

theorem attributes_checked (attributesObj : Option DdwafObject) :
    Checked (createResultChecked.attributes jvm ext attributesObj) := by
  unfold createResultChecked.attributes
  split
  . next array =>
    split
    . apply StopsWith.bind
        (orWrap_checked hjvm (outputConvertAttributesChecked_checked hjvm ext array) _)
      intro attributes
      exact StopsWith.pure (some attributes)
    . exact StopsWith.pure none
  . exact StopsWith.pure none

theorem createResultChecked_checked (code : DdwafRetCode) (ddwafResult : DdwafObject) :
    Checked (createResultChecked jvm ext code ddwafResult) := by
  apply StopsWith.bind (actions_checked ext hjvm _)
  intro actionsJmap
  apply StopsWith.bind (data_checked ext hjvm _)
  intro dataObj
  apply StopsWith.bind (consumeJsonAndFree_checked _)
  intro _
  apply StopsWith.bind (consumeJsonAndFree_checked _)
  intro _
  apply StopsWith.bind (attributes_checked ext hjvm _)
  intro attributes
  exact javaMethCall_checked jvm hjvm _

end CreateResult

section Throw

variable {jvm} (hjvm : jvm.NewObjectThrows)
include hjvm

theorem throwMade_ensures (make : JMethod JThrowable) (s : JniState) :
    Ensures (throwMade jvm make) s (fun _ s' => s'.pending ≠ none) Never := by
  have hmake : Ensures (javaMethCall jvm make) s (fun _ _ => True)
      (fun e s' => e = .null ∧ s'.pending ≠ none) :=
    javaMethCall_stopsWith jvm (fun _ hs => ⟨rfl, hs⟩) (fun n hn => absurd hn (hjvm n)) make s
  apply Ensures.bind ((orNull_ensures hmake).mono_error fun _ _ hE => hE.2 hE.1.1)
  intro exc s' hexc
  apply exceptionCheck_bind
  . intro hs'
    exact Ensures.pure hs'
  . intro hs'
    cases exc with
    | none => exact absurd hs' hexc.2
    | some exc =>
      apply (throwRef_some_ensures exc s').mono _ fun _ _ hE => hE
      intro _ _ hs
      rw [hs]
      simp

theorem throwMade_null (make : JMethod JThrowable) :
    Checked (do throwMade jvm make; null : Jni α) := by
  intro s
  apply Ensures.bind ((throwMade_ensures hjvm make s).mono_error fun _ _ hE => hE.elim)
  intro _ s' hs'
  exact Ensures.throw hs'

end Throw

section Metrics

theorem addAndGet_onlyNull (delta : Int64) : StopsWith OnlyNull (addAndGet jvm delta) := by
  apply StopsWith.bind (checked_onlyNull (call_ensures jvm .getField))
  intro _
  apply StopsWith.bind (checked_onlyNull (call_ensures jvm .callMethod))
  intro _
  exact StopsWith.pure ()

theorem addTimes_onlyNull (runTimeNs ddwafRunTimeNs : Int64) :
    StopsWith OnlyNull (addTimes jvm runTimeNs ddwafRunTimeNs) := by
  apply StopsWith.bind (succeeds_stopsWith .monitorEnter)
  intro entered
  cases entered with
  | false => exact throwNew_null jvm (fun _ _ => rfl) _
  | true =>
    dsimp only
    split
    . apply StopsWith.bind (addAndGet_onlyNull jvm runTimeNs)
      intro _
      exact addAndGet_onlyNull jvm ddwafRunTimeNs
    . exact addAndGet_onlyNull jvm ddwafRunTimeNs

theorem updateMetricsObj_never (ext : Externals) (metricsObj : Option JRef)
    (ddwafResult : DdwafObject) : StopsWith Never (updateMetricsObj jvm ext metricsObj ddwafResult) := by
  cases metricsObj with
  | none => exact StopsWith.pure ()
  | some metricsObj =>
    intro s
    apply Ensures.bind (orNull_ensures_never (addTimes_onlyNull jvm _ _ s))
    intro _ s' _
    exact call_ensures jvm .monitorExit s'

theorem suppressSubsequent_never : StopsWith Never (suppressSubsequent jvm) := by
  intro s
  apply Ensures.bind (Ensures.of_ok (exec_exceptionOccurred s) (Q := fun _ _ => True) trivial)
  intro exc s₁ _
  cases exc with
  | none => exact Ensures.pure trivial
  | some exc =>
    apply Ensures.bind (javaLog_ensures jvm _ _ s₁)
    intro _ s₂ _
    exact Ensures.of_ok (exec_setPending none s₂) trivial

theorem updateMetrics_ensures (ext : Externals) (metricsObj : Option JRef) (ddwafResult : DdwafObject)
    (s : JniState) :
    Ensures (updateMetrics jvm ext metricsObj ddwafResult) s
      (fun _ s' => ∀ e, s.pending = some e → s'.pending = some e) Never := by
  apply Ensures.bind (Ensures.of_ok (exec_takePending s) (Q := fun exc _ => exc = s.pending) rfl)
  intro earlierExc s₁ hearlier
  apply Ensures.bind (updateMetricsObj_never jvm ext metricsObj ddwafResult s₁)
  intro _ s₂ _
  cases earlierExc with
  | none =>
    apply Ensures.pure
    intro e he
    rw [he] at hearlier
    contradiction
  | some earlierExc =>
    apply Ensures.bind (suppressSubsequent_never jvm s₂)
    intro _ s₃ _
    apply (throwRef_some_ensures earlierExc s₃).mono _ fun _ _ hE => hE
    intro _ s₄ hs₄ e he
    rw [hs₄, hearlier, he]

end Metrics

section Run

variable {D : Type} (env : RunEnv D)

theorem getTimeChecked_checked (time : Option Timespec) : Checked (getTimeChecked jvm time) := by
  cases time with
  | some time => exact StopsWith.pure time
  | none => exact throwNew_null jvm (fun _ hs => hs) _

theorem fetchLimitsChecked_checked (limitsObj : Waf.Limits) :
    Checked (fetchLimitsChecked jvm env limitsObj) := by
  apply StopsWith.bind (orNull_checked _)
  intro limits
  cases limits with
  | some limits => exact StopsWith.pure limits
  | none => exact StopsWith.pure _

theorem getWafContextContextChecked_checked : Checked (getWafContextContextChecked jvm env) := by
  apply StopsWith.bind (checked_checked _)
  intro _
  exact ofExcept_checked jvm _

theorem convertBufferChecked_checked (buffer : Option JByteBuffer) :
    Checked (convertBufferChecked jvm buffer) := by
  unfold convertBufferChecked
  split
  . exact StopsWith.pure _
  . next exc _ =>
    intro s
    apply Ensures.bind (throwNew_ensures jvm exc s)
    intro _ s' _
    exact Ensures.pure trivial

theorem getRemainingBudget_checked (start fin : Timespec) (limits : NativeLimits) :
    Checked (getRemainingBudget jvm start fin limits) := by
  apply StopsWith.bind (javaLog_stopsWith _ _)
  intro _
  exact StopsWith.pure _

theorem getRunBudget_checked (remGenBudgetInUs : Int64) (limits : NativeLimits) :
    Checked (getRunBudget jvm remGenBudgetInUs limits) := by
  unfold getRunBudget
  split
  . apply StopsWith.bind (javaLog_stopsWith _ _)
    intro _
    exact StopsWith.pure _
  . exact StopsWith.pure _

theorem logRun_checked (messages : List (List UInt8)) : Checked (logRun jvm messages) := by
  induction messages with
  | nil => exact StopsWith.pure ()
  | cons message rest ih =>
    apply StopsWith.bind (Never.stopsWith (onThread_ensures jvm message))
    intro _
    exact ih

theorem ddwafRun_checked (context : Nat) (persistentInputPtr ephemeralInputPtr : Option Nat)
    (runBudget : UInt64) :
    Checked (ddwafRun jvm env context persistentInputPtr ephemeralInputPtr runBudget) := by
  intro s
  apply Ensures.bind (Ensures.get (Q := fun _ _ => True) trivial)
  intro s₁ s₂ _
  apply StopsWith.bind (logRun_checked jvm _)
  intro _
  exact StopsWith.pure _

variable {jvm} (hjvm : jvm.NewObjectThrows)
include hjvm

theorem convertBuffer_checked (msg : String) (buffer : Option JByteBuffer) :
    Checked (convertBuffer jvm msg buffer) := by
  apply StopsWith.bind (convertBufferChecked_checked jvm buffer)
  intro inputPtr s
  apply Ensures.bind (Ensures.of_ok (exec_exceptionOccurred s)
    (Q := fun exc s' => s'.pending = exc) rfl)
  intro exc s₁ hs₁
  cases exc with
  | none => exact Ensures.pure trivial
  | some exc =>
    -- logging keeps what is pending, which is then wrapped
    apply Ensures.bind ((javaLog_ensures jvm _ _ s₁).mono_error fun _ _ hE => hE.elim)
    intro _ s₂ hs₂
    apply javaWrapExc_null hjvm
    rw [hs₂, hs₁]
    simp

theorem runResult_checked (retCode : DdwafRetCode) (ddwafResult : DdwafObject) :
    Checked (runResult jvm env retCode ddwafResult) := by
  unfold runResult
  extract_lets timeout
  split
  . exact throwMade_null hjvm timeoutExceptionInit
  . cases retCode with
    | ok => exact createResultChecked_checked env.ext hjvm .ok ddwafResult
    | «match» => exact createResultChecked_checked env.ext hjvm .match ddwafResult
    | errInternal =>
      apply StopsWith.bind (javaLog_stopsWith _ _)
      intro _
      exact throwMade_null hjvm _
    | errInvalidObject => exact throwMade_null hjvm _
    | errInvalidArgument => exact throwMade_null hjvm _
    | unknown code => exact throwMade_null hjvm _

theorem runInputs_checked (start : Timespec) (limits : NativeLimits) (input : RunInput)
    (metricsObj : Option JRef) : Checked (runInputs jvm env start limits input metricsObj) := by
  apply StopsWith.bind (getTimeChecked_checked jvm env.convEnd)
  intro convEnd
  apply StopsWith.bind (getRemainingBudget_checked jvm start convEnd limits)
  intro remGenBudgetInUs
  split
  . apply StopsWith.bind (javaLog_stopsWith _ _)
    intro _
    exact throwMade_null hjvm timeoutExceptionInit
  . apply StopsWith.bind (getRunBudget_checked jvm remGenBudgetInUs limits)
    intro runBudget
    apply StopsWith.bind (ddwafRun_checked jvm env _ _ _ runBudget)
    rintro ⟨retCode, ddwafResult⟩ s
    have hresult := orNull_ensures (runResult_checked env hjvm retCode ddwafResult s)
    apply Ensures.bind (hresult.mono_error fun _ _ hE => hE.1)
    intro result s₁ hs₁
    have hmetrics := updateMetrics_ensures jvm env.ext metricsObj ddwafResult s₁
    apply Ensures.bind (hmetrics.mono_error fun _ _ hE => hE.elim)
    intro _ s₂ hs₂
    cases result with
    | some result => exact Ensures.pure trivial
    | none =>
      have ⟨e, he⟩ := Option.ne_none_iff_exists'.mp hs₁
      apply Ensures.throw
      show s₂.pending ≠ none
      rw [hs₂ e he]
      simp

theorem runWafContextCommon_checked (persistentData ephemeralData : Option JByteBuffer)
    (limitsObj : Option Waf.Limits) (metricsObj : Option JRef) :
    Checked (runWafContextCommon jvm env persistentData ephemeralData limitsObj metricsObj) := by
  apply StopsWith.bind (getTimeChecked_checked jvm env.start)
  intro start
  apply StopsWith.bind (ofExcept_checked jvm _)
  intro _
  cases limitsObj with
  | none => exact throwNew_null jvm (fun _ hs => hs) _
  | some limitsObj =>
    apply StopsWith.bind (fetchLimitsChecked_checked jvm env limitsObj)
    intro limits
    apply StopsWith.bind nullIfPending_checked
    intro _
    apply StopsWith.bind (getWafContextContextChecked_checked jvm env)
    intro context
    apply StopsWith.bind (convertBuffer_checked hjvm _ persistentData)
    intro persistentInputPtr
    apply StopsWith.bind (convertBuffer_checked hjvm _ ephemeralData)
    intro ephemeralInputPtr
    split
    . apply StopsWith.bind (javaLog_stopsWith _ _)
      intro _
      exact throwMade_null hjvm _
    . exact runInputs_checked env hjvm start limits _ metricsObj

omit hjvm in
theorem returned_ne_null {x : Jni α} (hx : Checked x) (s : JniState) :
    returned (exec x s) ≠ .ok none := by
  intro h
  cases hexec : exec x s with
  | mk r s' =>
    have ⟨pending, calls⟩ := s'
    rw [hexec] at h
    cases r with
    | ok a => cases pending <;> simp [returned] at h
    | error e =>
      cases e with
      | stopped stop => simp [returned] at h
      | null =>
        cases pending with
        | some exc => simp [returned] at h
        | none => exact (hx s).error _ _ hexec rfl

theorem WafContext.run_ne_null (persistentData ephemeralData : Option D)
    (limits : Option Waf.Limits) (metrics : Option JRef) (calls : Nat) :
    WafContext.run jvm env persistentData ephemeralData limits metrics calls ≠ .ok none := by
  unfold WafContext.run
  split
  . simp
  . next limits =>
    split
    . simp
    . split
      . simp
      . next persistentBuffer ephemeralBuffer _ =>
        dsimp only
        split
        . simp
        . exact returned_ne_null
            (runWafContextCommon_checked env hjvm persistentBuffer ephemeralBuffer _ metrics) _

end Run

/--
Logging and the update of the metrics leave what is pending, and wrapping leaves it or has it as the
cause. Each exit of a run that returns NULL is behind one of the checks for an exception.
-/
theorem runWafContextCommon_null_pending {D : Type} (env : RunEnv D) {jvm : Jvm}
    (hjvm : jvm.NewObjectThrows) :
    (∀ persistentData ephemeralData limitsObj metricsObj s s',
      exec (runWafContextCommon jvm env persistentData ephemeralData limitsObj metricsObj) s =
        (.error .null, s') → s'.pending ≠ none) ∧
    (∀ persistentData ephemeralData limits metrics calls,
      WafContext.run jvm env persistentData ephemeralData limits metrics calls ≠ .ok none) ∧
    (∀ message thread, ∃ thread',
      wafLoggingCThrowable jvm message thread = (.ok (), thread') ∧
        thread'.pending = thread.pending) ∧
    (∀ place userMsg s e, s.pending = some e → ∃ s',
      exec (javaWrapExcRelay jvm place userMsg) s = (.ok (), s') ∧
        ∃ e', s'.pending = some e' ∧ (e' = e ∨ e'.cause = some e)) ∧
    (∀ ext metricsObj ddwafResult s e, s.pending = some e → ∃ s',
      exec (updateMetrics jvm ext metricsObj ddwafResult) s = (.ok (), s') ∧
        s'.pending = some e) := by
  refine ⟨?_, ?_, ?_, ?_, ?_⟩
  . intro persistentData ephemeralData limitsObj metricsObj s s' h
    have hrun := runWafContextCommon_checked env hjvm persistentData ephemeralData limitsObj metricsObj
    exact (hrun s).error _ _ h
  . exact WafContext.run_ne_null env hjvm
  . intro message thread
    have ⟨thread', hlog, hpending, _⟩ := wafLoggingCThrowable_spec jvm message thread
    exact ⟨thread', hlog, hpending⟩
  . intro place userMsg s e hs
    have ⟨_, s', hexec, hwraps⟩ :=
      returns_of_never (javaWrapExcRelay_ensures hjvm place userMsg hs)
    exact ⟨s', hexec, hwraps⟩
  . intro ext metricsObj ddwafResult s e hs
    have ⟨_, s', hexec, hkept⟩ :=
      returns_of_never (updateMetrics_ensures jvm ext metricsObj ddwafResult s)
    exact ⟨s', hexec, hkept e hs⟩

def failingJvm : Jvm where
  outcome
    | .newLocalRef, _ => .success
    | .newObject, _ => .success
    | .getField, _ => .success
    | .callMethod, _ => .throws (.other 0 ⟨.outOfMemoryError, "Java heap space"⟩)
    | _, _ => .null
  alloc _ := .total
  rteConstrCause := true
  jclsRte := true
  minLevel := .info
  place _ := ⟨[], [], 0⟩
  ddwafRunLogs _ := []

def failingEnv : RunEnv Unit where
  ext := .firstEntry
  wafHandle := "WafHandle"
  online := true
  initOk := true
  ptr := 1
  pwRunTimeout := 500
  before := 0
  serialized := 2500
  start := some ⟨10, 0⟩
  convEnd := some ⟨10, 2500⟩
  serializePersistent _ := .ok ⟨some 64, 4096⟩
  serializeEphemeral _ := .ok ⟨some 8256, 4096⟩
  ddwafRun _ _ _ _ := (.errInternal, .map [])

theorem runWafContextCommon_null_pending_buffer :
    ∃ s', exec (runWafContextCommon failingJvm failingEnv (some ⟨none, 0⟩) none
        (some ⟨20, 256, 4096, 1000, 0⟩) (some 7)) ⟨none, 0⟩ = (.error .null, s') ∧
      s'.pending ≠ none := by
  have hjvm : failingJvm.NewObjectThrows := by
    intro n
    simp [failingJvm]
  have hrun : exec (runWafContextCommon failingJvm failingEnv (some ⟨none, 0⟩) none
      (some ⟨20, 256, 4096, 1000, 0⟩) (some 7)) ⟨none, 0⟩ =
      (.error .null, ⟨some (.other 6 ⟨.illegalArgumentException, "Not a DirectBuffer passed"⟩), 9⟩) := by
    rfl
  exact ⟨_, hrun, (runWafContextCommon_null_pending failingEnv hjvm).1 _ _ _ _ _ _ hrun⟩

end Jni

end Ddwaf
