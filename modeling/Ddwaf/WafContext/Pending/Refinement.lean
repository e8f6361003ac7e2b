import Ddwaf.Native.Output.EncodeGzip.RoundTrip
import Ddwaf.WafContext.Pending.Succeeds
import Ddwaf.WafContext.Pending.Thrown

open Program

namespace Ddwaf

mutual

def JObject.toJValue : JObject → JValue
  | .null => .null
  | .long value => .long value
  | .double value => .double value
  | .boolean value => .boolean value
  | .string value => .string value
  | .list elements => .list (JObject.toElements elements)
  | .map entries => .map (JObject.toEntries entries)

def JObject.toElements : List JObject → List JValue
  | [] => []
  | element :: rest => element.toJValue :: JObject.toElements rest

def JObject.toEntries : List (List UInt16 × JObject) → JEntries
  | [] => []
  | (key, value) :: rest => (some key, value.toJValue) :: JObject.toEntries rest

end

theorem JObject.toElements_concat (elements : List JObject) (element : JObject) :
    toElements (elements ++ [element]) = toElements elements ++ [element.toJValue] := by
  induction elements with
  | nil => rfl
  | cons e rest ih => rw [List.cons_append, toElements, ih, toElements, List.cons_append]

theorem JObject.toEntries_put (entries : List (List UInt16 × JObject)) (key : List UInt16)
    (value : JObject) :
    toEntries (LinkedMap.put entries key value) =
      LinkedMap.put (toEntries entries) (some key) value.toJValue := by
  induction entries with
  | nil => rfl
  | cons e rest ih =>
    obtain ⟨key', value'⟩ := e
    rw [LinkedMap.put, toEntries, LinkedMap.put]
    by_cases hkey : key' = key
    . rw [if_pos hkey, if_pos (congrArg some hkey), toEntries]
    . rw [if_neg hkey, if_neg (fun h => hkey (Option.some.inj h)), toEntries, ih]

namespace Jni

section Like

variable {α β γ δ : Type} {jvm : Jvm} (hjvm : jvm.Succeeds) {f : δ → RunStop} {b : β}
include hjvm

section Convert

def IsRef (a : JValue) (b : JObject) : Prop := a = b.toJValue

theorem checked_javaMethCall_like {m : JMethod α} {a : α} (h : m.Makes (· = a)) :
    Like jvm f (fun a' (_ : β) => a' = some a) (checked (javaMethCall jvm m)) (.ok b) := by
  apply (checked_like (javaMethCall_like hjvm h)).mono
  intro a' _ ⟨a'', ha', ha''⟩
  rw [ha', ha'']

theorem jstring_like (input : List UInt8) :
    Like jvm RunStop.ofNative (fun a b => a = .string b) (jstring jvm input)
      (Ddwaf.javaUtf8ToJstringChecked .total input) := by
  apply Simulates.more (javaUtf8ToJstringChecked_like hjvm input)
  intro a b hab
  exact Simulates.pure (congrArg JValue.string hab)

theorem value_like {jmeth : JMethod JValue} {value : JObject} (h : jmeth.Makes fun a => IsRef a value) :
    Like jvm f IsRef (javaMethCall jvm jmeth) (.ok value) := by
  apply Simulates.value (javaMethCall_like hjvm h (b := ()))
  intro a ha
  exact ha

theorem convertElements_like {array : List DdwafObject} (ret : List JObject)
    (ih : ∀ o ∈ array, Like jvm RunStop.ofNative IsRef
      (convertDdwafObjectToJobject jvm o) (Ddwaf.convertDdwafObjectToJobject o)) :
    Like jvm RunStop.ofNative (fun a b => a = JObject.toElements b)
      (convertElements jvm array (JObject.toElements ret)) (Ddwaf.convertElements array ret) := by
  induction array generalizing ret with
  | nil =>
    rw [convertElements, Ddwaf.convertElements]
    exact Simulates.pure rfl
  | cons o rest ihrest =>
    obtain ⟨ho, hrest⟩ := List.forall_mem_cons.mp ih
    rw [convertElements, Ddwaf.convertElements]
    apply Simulates.bind (checked_like ho)
    rintro elem elem' ⟨a, helem, ha⟩
    apply Simulates.step (checked_javaMethCall_like hjvm (m := arrayListAdd _ elem)
      (fun _ => ⟨_, rfl, rfl⟩) (b := ()))
    intro added hadded
    rw [hadded, Option.getD_some, helem, Option.getD_some, show a = elem'.toJValue from ha,
      ← JObject.toElements_concat]
    exact ihrest _ hrest

theorem convertEntries_like {array : List (List UInt8 × DdwafObject)}
    (ret : List (List UInt16 × JObject))
    (ih : ∀ e ∈ array, Like jvm RunStop.ofNative IsRef
      (convertDdwafObjectToJobject jvm e.2) (Ddwaf.convertDdwafObjectToJobject e.2)) :
    Like jvm RunStop.ofNative (fun a b => a = JObject.toEntries b)
      (convertEntries jvm array (JObject.toEntries ret)) (Ddwaf.convertEntries array ret) := by
  induction array generalizing ret with
  | nil =>
    rw [convertEntries, Ddwaf.convertEntries]
    exact Simulates.pure rfl
  | cons e rest ihrest =>
    obtain ⟨parameterName, elem⟩ := e
    obtain ⟨ho, hrest⟩ := List.forall_mem_cons.mp ih
    rw [convertEntries, Ddwaf.convertEntries]
    apply Simulates.bind (checked_like (javaUtf8ToJstringChecked_like hjvm parameterName))
    rintro key key' ⟨k, hkey, hk⟩
    apply Simulates.bind (checked_like ho)
    rintro value value' ⟨a, hvalue, ha⟩
    apply Simulates.step (checked_javaMethCall_like hjvm (m := mapPut _ key value)
      (fun _ => ⟨_, rfl, rfl⟩) (b := ()))
    intro added hadded
    rw [hadded, Option.getD_some, hkey, hk, hvalue, Option.getD_some,
      show a = value'.toJValue from ha, ← JObject.toEntries_put]
    exact ihrest _ hrest

theorem throwRte_like {R : α → β → Prop} (msg : String) :
    Like jvm RunStop.ofNative R (ofNative jvm (throwRte msg)) (throwRte msg) :=
  throwNew_null_like hjvm _ rfl

theorem convertDdwafObjectToJobject_like (obj : DdwafObject) :
    Like jvm RunStop.ofNative IsRef (convertDdwafObjectToJobject jvm obj)
      (Ddwaf.convertDdwafObjectToJobject obj) := by
  induction obj using DdwafObject.ind with
  | invalid =>
    rw [convertDdwafObjectToJobject, Ddwaf.convertDdwafObjectToJobject]
    exact throwRte_like hjvm _
  | null =>
    rw [convertDdwafObjectToJobject, Ddwaf.convertDdwafObjectToJobject]
    exact throwRte_like hjvm _
  | signed intValue =>
    rw [convertDdwafObjectToJobject, Ddwaf.convertDdwafObjectToJobject]
    exact value_like hjvm fun _ => ⟨_, rfl, rfl⟩
  | unsigned uintValue =>
    rw [convertDdwafObjectToJobject, Ddwaf.convertDdwafObjectToJobject]
    exact value_like hjvm fun _ => ⟨_, rfl, rfl⟩
  | float f64 =>
    rw [convertDdwafObjectToJobject, Ddwaf.convertDdwafObjectToJobject]
    exact value_like hjvm fun _ => ⟨_, rfl, rfl⟩
  | bool boolean =>
    rw [convertDdwafObjectToJobject, Ddwaf.convertDdwafObjectToJobject]
    exact value_like hjvm fun _ => ⟨_, rfl, rfl⟩
  | string stringValue =>
    rw [convertDdwafObjectToJobject, Ddwaf.convertDdwafObjectToJobject]
    exact Simulates.map_right (jstring_like hjvm stringValue) fun _ _ hab => hab
  | array array ih =>
    rw [convertDdwafObjectToJobject, Ddwaf.convertDdwafObjectToJobject]
    split
    . exact throwRte_like hjvm _
    . apply Simulates.step (javaMethCall_like hjvm (m := arrayListInit) (Q := (· = [])) (fun _ => rfl)
        (b := ()))
      intro ret hret
      rw [hret]
      apply Simulates.bind (convertElements_like hjvm [] ih)
      intro elements elements' helements
      exact Simulates.pure (congrArg JValue.list helements)
  | map array ih =>
    rw [convertDdwafObjectToJobject, Ddwaf.convertDdwafObjectToJobject]
    apply Simulates.step (javaMethCall_like hjvm (m := linkedHmInit) (Q := (· = []))
      (fun _ => rfl) (b := ()))
    intro ret hret
    rw [hret]
    apply Simulates.bind (convertEntries_like hjvm [] ih)
    intro entries entries' hentries
    exact Simulates.pure (congrArg JValue.map hentries)

theorem outputConvertJson_like (obj : DdwafObject) :
    Like jvm RunStop.ofNative (· = ·) (outputConvertJson jvm obj)
      (Ddwaf.outputConvertJson .total obj) := by
  apply Simulates.step (answer_like hjvm .malloc (b := ()))
  intro ⟨n, _⟩ _
  dsimp only
  rw [hjvm.alloc n]
  exact ofNative_like hjvm _

variable (ext : Externals)

theorem encodeGzip_like (json : List JsonSegment) :
    Like jvm f (fun gzip (_ : β) => gzip = ext.encodeGzip json) (encodeGzip jvm ext json) (.ok b) := by
  apply Simulates.step (succeeds_like hjvm .malloc (b := ()))
  intro enough henough
  rw [henough]
  exact Simulates.pure rfl

/-- There is a reference where there is a value, and it is to that. -/
def Both (a : Option JValue) (b : Option JObject) : Prop := a = b.map JObject.toJValue

omit hjvm in
theorem some_like {R : JValue → γ → Prop} {x : Jni JValue} {y : Except δ γ} (hx : Like jvm f R x y)
    {g : γ → JObject} (hg : ∀ a c, R a c → IsRef a (g c)) :
    Like jvm f Both (checked x) (y >>= fun c => .ok (some (g c))) := by
  apply Simulates.map_right (checked_like hx)
  intro a c ⟨a', ha, hc⟩
  rw [ha, hg a' c hc]
  rfl

theorem some_value_like {jmeth : JMethod JValue} {value : JObject}
    (h : jmeth.Makes fun a => IsRef a value) :
    Like jvm f Both (checked (javaMethCall jvm jmeth)) (.ok (some value)) := by
  apply Simulates.value (checked_javaMethCall_like hjvm h (b := ()))
  intro a ha
  exact ha

theorem encodeJsonGzipBase64Checked_like (obj : DdwafObject) :
    Like jvm RunStop.ofNative (fun a b => Both a (b.map .string))
      (checked (encodeJsonGzipBase64Checked jvm ext obj))
      (Ddwaf.encodeJsonGzipBase64Checked ext obj) := by
  apply checked_bind_like (outputConvertJson_like hjvm obj)
  intro a b hab
  cases hab
  have ⟨seg, h⟩ := a
  cases seg with
  | none => exact checked_null_like rfl
  | some json =>
    apply checked_bind_like (ofNative_like hjvm _)
    intro _ _ _
    split
    . exact checked_null_like rfl
    . apply checked_step_like (encodeGzip_like hjvm ext _)
      intro gzip hgzip
      rw [hgzip]
      cases ext.encodeGzip (h.chainFrom json) with
      | none =>
        apply checked_step_like (javaLog_like .debug _ (b := ()))
        intro _ _
        exact checked_null_like rfl
      | some gzip =>
        apply checked_step_like (require_like hjvm .malloc)
        intro _ _
        exact Simulates.map_right (checked_like (jstring_like hjvm (base64Encode gzip)))
          fun a c ⟨a', ha, hc⟩ => by rw [ha, hc]; rfl

theorem attributeValue_like (parameterName : List UInt8) (entry : DdwafObject) :
    Like jvm RunStop.ofNative Both (checked (attributeValue jvm ext parameterName entry))
      (convertAttribute ext parameterName entry) := by
  unfold attributeValue convertAttribute
  split
  . apply Simulates.map_right (encodeJsonGzipBase64Checked_like hjvm ext entry)
    intro a b hab
    exact hab
  . split
    . apply checked_bind_like (ofNative_like hjvm _)
      intro stringValue _ hstring
      cases hstring
      exact some_like (jstring_like hjvm stringValue) fun _ _ hab => hab
    . cases entry with
      | string stringValue => exact some_like (jstring_like hjvm stringValue) fun _ _ hab => hab
      | signed intValue => exact some_value_like hjvm fun _ => ⟨_, rfl, rfl⟩
      | unsigned uintValue => exact some_value_like hjvm fun _ => ⟨_, rfl, rfl⟩
      | float f64 => exact some_value_like hjvm fun _ => ⟨_, rfl, rfl⟩
      | bool boolean => exact some_value_like hjvm fun _ => ⟨_, rfl, rfl⟩
      | map array =>
        exact some_like (convertDdwafObjectToJobject_like hjvm (.map array)) fun _ _ hab => hab
      | array array => exact checked_null_like rfl
      | invalid => exact checked_null_like rfl
      | null => exact checked_null_like rfl

omit hjvm in
theorem putAttribute_none_like {parameterName : List UInt8} {entry : DdwafObject}
    (h : isMapAttribute parameterName entry = false) (ret : JEntries) (key : Option (List UInt16)) :
    Like jvm f (fun a (_ : β) => a = ret) (putAttribute jvm parameterName entry ret key none)
      (.ok b) := by
  unfold putAttribute
  rw [h]
  apply Simulates.step (javaLog_like .debug _ (b := ()))
  intro _ _
  exact Simulates.pure rfl

theorem putAttribute_some_like (parameterName : List UInt8) (entry : DdwafObject) (ret : JEntries)
    (key : Option (List UInt16)) (value : JValue) :
    Like jvm f (fun a (_ : β) => a = LinkedMap.put ret key value)
      (putAttribute jvm parameterName entry ret key (some value)) (.ok b) := by
  apply Simulates.step (checked_javaMethCall_like hjvm (m := mapPut ret key (some value))
    (fun _ => ⟨_, rfl, rfl⟩) (b := ()))
  intro added hadded
  rw [hadded]
  exact Simulates.pure rfl

omit hjvm in
theorem isMapAttribute_of_none {parameterName : List UInt8} {entry : DdwafObject}
    (h : convertAttribute ext parameterName entry = .ok none) :
    isMapAttribute parameterName entry = false := by
  unfold isMapAttribute
  split
  . next array =>
    cases hschema : isDerivative parameterName "_dd.appsec.s." with
    | true => rfl
    | false =>
      cases hfingerprint : isDerivative parameterName "_dd.appsec.fp." with
      | true => rfl
      | false =>
        simp only [convertAttribute, hschema, hfingerprint, Bool.false_eq_true, if_false] at h
        cases hmap : Ddwaf.convertDdwafObjectToJobject (.map array) with
        | error stop =>
          rw [hmap] at h
          contradiction
        | ok value =>
          rw [hmap] at h
          cases h
  . rfl

theorem convertAttributes_like (array : List (List UInt8 × DdwafObject))
    (ret : List (List UInt16 × JObject)) :
    Like jvm RunStop.ofNative (fun a b => a = JObject.toEntries b)
      (convertAttributes jvm ext array (JObject.toEntries ret))
      (Ddwaf.convertAttributes ext array ret) := by
  induction array generalizing ret with
  | nil => exact Simulates.pure rfl
  | cons e rest ih =>
    have ⟨parameterName, entry⟩ := e
    rw [convertAttributes, Ddwaf.convertAttributes]
    apply Simulates.bind (checked_like (javaUtf8ToJstringChecked_like hjvm parameterName))
    intro key key' ⟨k, hkey, hk⟩
    rw [hkey, hk]
    apply Simulates.bind (attributeValue_like hjvm ext parameterName entry).result
    intro value value' ⟨hvalue, hconvert⟩
    cases value' with
    | none =>
      rw [show value = none from hvalue]
      apply Simulates.step (putAttribute_none_like (isMapAttribute_of_none ext hconvert) _ _ (b := ()))
      intro ret' hret'
      rw [hret']
      exact ih ret
    | some value' =>
      rw [show value = some value'.toJValue from hvalue]
      apply Simulates.step (putAttribute_some_like hjvm parameterName entry _ _ _ (b := ()))
      intro ret' hret'
      rw [hret', ← JObject.toEntries_put]
      exact ih _

theorem outputConvertAttributesChecked_like (array : List (List UInt8 × DdwafObject)) :
    Like jvm RunStop.ofNative IsRef (outputConvertAttributesChecked jvm ext array)
      (Ddwaf.outputConvertAttributesChecked ext array) := by
  apply Simulates.step (checked_javaMethCall_like hjvm (m := linkedHmInit) (a := [])
    (fun _ => rfl) (b := ()))
  intro ret hret
  rw [hret]
  apply Simulates.bind (convertAttributes_like hjvm ext array [])
  intro entries entries' hentries
  exact Simulates.pure (congrArg JValue.map hentries)

end Convert

section CreateResult

theorem readJson_like (seg : List JsonSegment) :
    Like jvm RunStop.ofNative (fun _ _ => True) (readJson jvm seg) (do
      let len := jsonLength seg
      let read ← jsonItRead ⟨seg, 0⟩ len
      let _ ← store (len + 1) read.written [0]
      return ()) := by
  apply Simulates.step (succeeds_like hjvm .malloc (b := ()))
  intro enough henough
  rw [henough]
  apply Simulates.bind (ofNative_like hjvm _)
  intro read _ hread
  rw [hread]
  apply Simulates.bind (ofNative_like hjvm _)
  intro _ _ _
  exact Simulates.pure trivial

theorem consumeJsonAndFree_like (obj : Option DdwafObject) :
    Like jvm RunStop.ofNative (fun _ _ => True) (consumeJsonAndFree jvm obj)
      (Ddwaf.consumeJsonAndFree obj) := by
  cases obj with
  | none => exact Simulates.pure trivial
  | some obj =>
    apply Simulates.bind (outputConvertJson_like hjvm obj)
    intro a b hab
    cases hab
    have ⟨seg, h⟩ := a
    cases seg with
    | none => exact Simulates.pure trivial
    | some seg =>
      have hfree : Like jvm RunStop.ofNative (fun _ _ => True)
          (do
            let _ ← ofNative jvm (jsonSegFree (some seg) h)
            return ())
          (do
            let _ ← jsonSegFree (some seg) h
            return ()) :=
        Simulates.bind (ofNative_like hjvm _) fun _ _ _ => Simulates.pure trivial
      have hread := Simulates.bind (readJson_like hjvm (h.chainFrom seg)) fun _ _ _ => hfree
      simp only [bind_assoc, pure_bind] at hread
      exact hread

variable (ext : Externals)

theorem actions_like (actionsObj : Option DdwafObject) :
    Like jvm RunStop.ofNative IsRef
      (createResultChecked.actions jvm ext actionsObj)
      (Ddwaf.createResultChecked.actions ext actionsObj) := by
  have hempty : Like jvm RunStop.ofNative IsRef (pure (.map []) : Jni JValue) (.ok (.map [])) :=
    Simulates.pure rfl
  cases actionsObj with
  | none => exact hempty
  | some obj =>
    cases obj with
    | map array =>
      unfold createResultChecked.actions Ddwaf.createResultChecked.actions
      dsimp only
      split
      . exact hempty
      . exact orWrap_like hjvm (by decide) (convertDdwafObjectToJobject_like hjvm _)
    | _ => exact hempty

theorem attributes_like (attributesObj : Option DdwafObject) :
    Like jvm RunStop.ofNative Both (createResultChecked.attributes jvm ext attributesObj)
      (Ddwaf.createResultChecked.attributes ext attributesObj) := by
  have hnone : Like jvm RunStop.ofNative Both (pure none : Jni (Option JValue))
      (.ok (none : Option JObject)) :=
    Simulates.pure rfl
  cases attributesObj with
  | none => exact hnone
  | some obj =>
    cases obj with
    | map array =>
      unfold createResultChecked.attributes Ddwaf.createResultChecked.attributes
      dsimp only
      split
      . apply Simulates.bind (orWrap_like hjvm (by decide) (outputConvertAttributesChecked_like hjvm ext _))
        intro a b hab
        exact Simulates.pure (congrArg some hab)
      . exact hnone
    | _ => exact hnone

theorem data_like (eventsObj : Option DdwafObject) :
    Like jvm RunStop.ofNative (· = ·) (createResultChecked.data jvm ext eventsObj)
      (Ddwaf.createResultChecked.data ext eventsObj) := by
  have hnone : Like jvm RunStop.ofNative (· = ·) (pure none : Jni (Option (List UInt16))) (.ok none) :=
    Simulates.pure rfl
  cases eventsObj with
  | none => exact hnone
  | some obj =>
    cases obj with
    | array array =>
      unfold createResultChecked.data Ddwaf.createResultChecked.data
      dsimp only
      split
      . apply Simulates.bind (outputConvertJson_like hjvm _).result
        intro a b ⟨hab, hjson⟩
        cases hab
        have ⟨seg, h⟩ := a
        cases seg with
        | none => exact throwNew_null_like hjvm _ rfl
        | some seg =>
          have ⟨hseg, hlinked⟩ := outputConvertJson_linked hjson
          simp only [hseg, jsonSegFree.linked_eq hlinked]
          apply Simulates.map_right (wrapIfPending_like hjvm (by decide) (javaJsonToJstringChecked_like hjvm _))
          intro _ _ ⟨_, ha, hb⟩
          rw [ha, hb]
      . exact hnone
    | _ => exact hnone

/-- The object is made of the fields of the result, with references to maps that contain the same. -/
structure SameResult (a : ResultRef) (b : ResultWithData) : Prop where
  result : a.result = b.result
  data : a.data = b.data
  actions : IsRef a.actions b.actions
  attributes : Both a.attributes b.attributes
  keep : a.keep = b.keep
  duration : a.duration = b.duration
  events : a.events = b.events

theorem createResultChecked_like (code : DdwafRetCode) (ddwafResult : DdwafObject) :
    Like jvm RunStop.ofNative SameResult (createResultChecked jvm ext code ddwafResult)
      (Ddwaf.createResultChecked ext code ddwafResult) := by
  apply Simulates.bind (actions_like hjvm ext _)
  intro actionsJmap actions' hactions
  apply Simulates.bind (data_like hjvm ext _)
  intro dataObj data' hdata
  apply Simulates.bind (consumeJsonAndFree_like hjvm _)
  intro _ _ _
  apply Simulates.bind (consumeJsonAndFree_like hjvm _)
  intro _ _ _
  apply Simulates.bind (attributes_like hjvm ext _)
  intro attributes attributes' hattributes
  apply Simulates.value (javaMethCall_like hjvm (Q := fun r => SameResult r _) _ (b := ()))
  . intro r hr
    exact hr
  . intro id
    exact ⟨rfl, hdata, hactions, hattributes, rfl, rfl, rfl⟩

end CreateResult

section Throw

variable {stop : RunStop}

omit hjvm in
theorem throwMade_null_like {R : α → β → Prop} {make : JMethod JThrowable}
    (hmake : ∀ s, Ready s → Ensures (javaMethCall jvm make) s
      (fun exc s' => Ready s' ∧ Thrown jvm exc stop)
      (fun e s' => e = .null ∧ Stopped jvm .null s' stop)) :
    Like jvm id R (do throwMade jvm make; null) (.error stop) := by
  intro s hs
  apply EndsLike.of_ensures
  apply Ensures.bind (Q := fun _ s' => Stopped jvm .null s' stop)
  . apply Ensures.bind ((orNull_ensures (hmake s hs)).mono_error fun _ _ hE => (hE.2 hE.1.1).elim)
    intro exc s₁ hexc
    apply exceptionCheck_bind
    . intro hs₁
      cases exc with
      | none => exact Ensures.pure hexc.2
      | some exc => exact absurd hexc.1 hs₁
    . intro hs₁
      cases exc with
      | none =>
        have ⟨exc, hpending, _⟩ := hexc.2
        rw [hs₁] at hpending
        contradiction
      | some exc =>
        apply (throwRef_some_ensures exc s₁).mono _ fun _ _ hE => hE
        intro _ s₂ hs₂
        exact ⟨exc, hs₂, hexc.2⟩
  . intro _ s' hs'
    exact Ensures.throw hs'

theorem throwPwafTimeoutException_like {R : α → β → Prop} :
    Like jvm id R (do throwPwafTimeoutException jvm; null) (.error (.waf .timeout)) := by
  apply throwMade_null_like
  intro s hs
  have hmakes : timeoutExceptionInit.Makes fun exc => Thrown jvm exc (.waf .timeout) :=
    fun n => .timeout n
  exact (javaMethCall_like hjvm hmakes (f := id) (b := ())).ensures hs

theorem throwPwafException_like {R : α → β → Prop} (retcode : DdwafRetCode) :
    Like jvm id R (do throwPwafException jvm retcode; null)
      (.error (.waf (.ofErrorCode retcode))) := by
  apply throwMade_null_like
  intro s hs
  cases h : createFromErrorCode retcode with
  | ok exc =>
    have hmakes : (createException retcode).Makes
        fun exc => Thrown jvm exc (.waf (.ofErrorCode retcode)) := by
      intro n
      exact ⟨.waf n exc, by rw [h]; rfl, .made n h⟩
    exact (javaMethCall_like hjvm hmakes (f := id) (b := ())).ensures hs
  | error exc =>
    apply Ensures.bind ((classStrongref_like hjvm (f := id) (b := ())).ensures hs)
    intro _ s' _
    apply Ensures.of_error
    . rw [callMethod, exec_bind, exec_answer, hjvm.outcome]
      simp only [h]
      rfl
    . exact ⟨rfl, _, rfl, .unmade _ h⟩

end Throw

section Metrics

variable (ext : Externals)

theorem checked_call_like (function : Function) :
    Like jvm f (fun _ (_ : β) => True) (checked (call jvm function)) (.ok b) :=
  (checked_like (call_like hjvm function)).mono fun _ _ _ => trivial

theorem addAndGet_like (delta : Int64) :
    Like jvm f (fun _ (_ : β) => True) (addAndGet jvm delta) (.ok b) := by
  apply Simulates.step (checked_call_like hjvm .getField (b := ()))
  intro _ _
  apply Simulates.step (checked_call_like hjvm .callMethod (b := ()))
  intro _ _
  exact Simulates.pure trivial

theorem addTimes_like (runTimeNs ddwafRunTimeNs : Int64) :
    Like jvm f (fun _ (_ : β) => True) (addTimes jvm runTimeNs ddwafRunTimeNs) (.ok b) := by
  apply Simulates.step (succeeds_like hjvm .monitorEnter (b := ()))
  intro entered hentered
  rw [hentered]
  dsimp only
  split
  . apply Simulates.step (addAndGet_like hjvm runTimeNs (b := ()))
    intro _ _
    exact addAndGet_like hjvm ddwafRunTimeNs
  . exact addAndGet_like hjvm ddwafRunTimeNs

theorem updateMetricsObj_like (metricsObj : Option JRef) (ddwafResult : DdwafObject) :
    Like jvm f (fun _ (_ : β) => True) (updateMetricsObj jvm ext metricsObj ddwafResult) (.ok b) := by
  cases metricsObj with
  | none => exact Simulates.pure trivial
  | some metricsObj =>
    apply Simulates.step (orNull_like (addTimes_like hjvm _ _ (b := ())))
    intro _ _
    exact call_like hjvm .monitorExit

theorem updateMetrics_like (metricsObj : Option JRef) (ddwafResult : DdwafObject) :
    Like jvm f (fun _ (_ : β) => True) (updateMetrics jvm ext metricsObj ddwafResult) (.ok b) := by
  have htake : Like jvm f (fun exc (_ : Unit) => exc = none) takePending (.ok ()) :=
    Simulates.of_ok fun s hs => ⟨_, _, exec_takePending s, rfl, hs⟩
  apply Simulates.step htake
  intro earlierExc hearlier
  rw [hearlier]
  apply Simulates.step (updateMetricsObj_like hjvm ext metricsObj ddwafResult (b := ()))
  intro _ _
  exact Simulates.pure trivial

end Metrics

section Run

variable {D : Type} (env : RunEnv D)

omit hjvm in
theorem nullIfPending_like : Like jvm f (fun _ (_ : β) => True) nullIfPending (.ok b) := by
  apply Simulates.of_ok
  intro s hs
  refine ⟨(), s, ?_, hs, trivial⟩
  rw [exec_nullIfPending, hs.isSome]
  rfl

def getTime (time : Option Timespec) : Except RunStop Timespec :=
  match time with
  | some time => .ok time
  | none => .error (rte "Error getting time")

omit hjvm in
theorem getTime_some (time : Timespec) (g : Timespec → Except RunStop α) :
    (getTime (some time) >>= g) = g time := by
  rfl

theorem getTimeChecked_like (time : Option Timespec) :
    Like jvm id (· = ·) (getTimeChecked jvm time) (getTime time) := by
  cases time with
  | some time => exact Simulates.pure rfl
  | none => exact throwNew_null_like hjvm _ rfl

theorem fetchLimitsChecked_like (limitsObj : Waf.Limits) :
    Like jvm f (fun limits (_ : β) => limits = Ddwaf.fetchLimitsChecked env.pwRunTimeout limitsObj)
      (fetchLimitsChecked jvm env limitsObj) (.ok b) := by
  have hfields : Like jvm f
      (fun limits (_ : Unit) => limits = Ddwaf.fetchLimitsChecked env.pwRunTimeout limitsObj)
      (fetchLimitsChecked.fields jvm env limitsObj) (.ok ()) := by
    apply Simulates.step (checked_call_like hjvm .getField (b := ()))
    intro _ _
    apply Simulates.step (checked_call_like hjvm .getField (b := ()))
    intro _ _
    apply Simulates.step (checked_call_like hjvm .getField (b := ()))
    intro _ _
    apply Simulates.step (checked_call_like hjvm .getField (b := ()))
    intro _ _
    apply Simulates.step (checked_call_like hjvm .getField (b := ()))
    intro _ _
    exact Simulates.pure rfl
  apply Simulates.step (orNull_like hfields)
  intro limits ⟨limits', hsome, hlimits⟩
  rw [hsome]
  exact Simulates.pure hlimits

theorem getWafContextContextChecked_like :
    Like jvm id (· = ·) (getWafContextContextChecked jvm env)
      ((Ddwaf.getWafContextContextChecked env.ptr).mapError .thrown) := by
  apply Simulates.step (checked_call_like hjvm .getField (b := ()))
  intro _ _
  exact Simulates.mapError (ofExcept_like hjvm _)

theorem convertBuffer_like {msg : String} (hmsg : IsShort msg) (buffer : Option JByteBuffer) :
    Like jvm id (· = ·) (convertBuffer jvm msg buffer)
      (wrapThrowable msg (Ddwaf.convertBufferChecked buffer)) := by
  intro s hs
  unfold convertBuffer convertBufferChecked
  cases Ddwaf.convertBufferChecked buffer with
  | ok inputP =>
    simp only [exec_bind, exec_pure, exec_exceptionOccurred, show s.pending = none from hs]
    exact .ok hs rfl
  | error exc =>
    have hthrow := exec_throwNew hjvm exc s
    apply EndsLike.of_ensures
    apply Ensures.bind (Q := fun _ s₁ => s₁.pending = some (.other s.calls exc))
    . have hnone : exec (do throwNew jvm exc; return none : Jni (Option Nat)) s =
          (.ok none, ⟨some (.other s.calls exc), s.calls + 1⟩) := by
        rw [exec_bind, hthrow]
        rfl
      exact Ensures.of_ok hnone rfl
    . intro inputPtr s₁ hs₁
      apply Ensures.bind (Ensures.of_ok (exec_exceptionOccurred s₁)
        (Q := fun exc' s₂ => exc' = s₁.pending ∧ s₂ = s₁) ⟨rfl, rfl⟩)
      intro exc' s₂ ⟨hexc, hs₂⟩
      rw [hexc, hs₁, hs₂]
      apply Ensures.bind ((javaLog_ensures jvm _ _ s₁).mono_error fun _ _ hE => hE.elim)
      intro _ s₃ hs₃
      exact javaWrapExc_null_stopped hjvm hmsg (hs₃.trans hs₁)

omit hjvm in
theorem getRemainingBudget_like (start fin : Timespec) (limits : NativeLimits) :
    Like jvm f (fun budget (_ : β) => budget = Ddwaf.getRemainingBudget start fin limits)
      (getRemainingBudget jvm start fin limits) (.ok b) := by
  apply Simulates.step (javaLog_like _ _ (b := ()))
  intro _ _
  exact Simulates.pure rfl

omit hjvm in
theorem getRunBudget_like (remGenBudgetInUs : Int64) (limits : NativeLimits) :
    Like jvm f (fun budget (_ : β) => budget = Ddwaf.getRunBudget remGenBudgetInUs limits)
      (getRunBudget jvm remGenBudgetInUs limits) (.ok b) := by
  unfold getRunBudget
  split
  . apply Simulates.step (javaLog_like _ _ (b := ()))
    intro _ _
    exact Simulates.pure rfl
  . exact Simulates.pure rfl

omit hjvm in
theorem logRun_like (messages : List (List UInt8)) :
    Like jvm f (fun _ (_ : β) => True) (logRun jvm messages) (.ok b) := by
  induction messages with
  | nil => exact Simulates.pure trivial
  | cons message rest ih =>
    apply Simulates.step (b := ()) (Q := fun _ => True)
    . apply Simulates.of_ensures
      intro s hs
      apply (onThread_ensures jvm message s).mono _ fun _ _ hE => hE
      intro _ s' hs'
      exact ⟨hs'.trans hs, trivial⟩
    . intro _ _
      exact ih

omit hjvm in
theorem ddwafRun_like (context : Nat) (persistentInputPtr ephemeralInputPtr : Option Nat)
    (runBudget : UInt64) :
    Like jvm f
      (fun r (_ : β) => r = env.ddwafRun context persistentInputPtr ephemeralInputPtr runBudget)
      (ddwafRun jvm env context persistentInputPtr ephemeralInputPtr runBudget) (.ok b) := by
  apply Simulates.step (Simulates.of_ok fun s hs => ⟨s, s, exec_get s, hs, trivial⟩)
    (b := ()) (Q := fun _ => True)
  intro s _
  apply Simulates.step (logRun_like _ (b := ()))
  intro _ _
  exact Simulates.pure rfl

theorem runResult_like (retCode : DdwafRetCode) (ddwafResult : DdwafObject) :
    Like jvm id SameResult (runResult jvm env retCode ddwafResult)
      (Ddwaf.runResult env retCode ddwafResult) := by
  unfold runResult Ddwaf.runResult
  extract_lets timeout timeout'
  rw [show timeout' = timeout from rfl]
  by_cases htimeout : timeout = true
  . rw [if_pos htimeout, if_pos htimeout]
    exact throwPwafTimeoutException_like hjvm
  . rw [if_neg htimeout, if_neg htimeout]
    cases retCode with
    | ok => exact Simulates.mapError (createResultChecked_like hjvm env.ext .ok ddwafResult)
    | «match» => exact Simulates.mapError (createResultChecked_like hjvm env.ext .match ddwafResult)
    | errInternal =>
      apply Simulates.step (javaLog_like _ _ (b := ()))
      intro _ _
      exact throwPwafException_like hjvm .errInternal
    | errInvalidObject => exact throwPwafException_like hjvm .errInvalidObject
    | errInvalidArgument => exact throwPwafException_like hjvm .errInvalidArgument
    | unknown code => exact throwPwafException_like hjvm (.unknown code)

theorem updateMetrics_after_like {R : α → β → Prop} {x : Jni α} {y : Except RunStop β}
    (metricsObj : Option JRef) (ddwafResult : DdwafObject) (hx : Like jvm id R x y)
    {k : Option α → Jni α} (hsome : ∀ a, k (some a) = pure a) (hnone : k none = null) :
    Like jvm id R
      (do
        let result ← orNull x
        updateMetrics jvm env.ext metricsObj ddwafResult
        k result) y := by
  intro s hs
  have h := hx s hs
  rw [exec_bind, exec_orNull]
  generalize exec x s = r at h ⊢
  cases h with
  | @ok s' a b hI hR =>
    have hupdate := updateMetrics_like hjvm env.ext metricsObj ddwafResult (f := id) (b := ())
    have hrest : Like jvm id R (do
        updateMetrics jvm env.ext metricsObj ddwafResult
        k (some a)) (.ok b) := by
      rw [hsome]
      exact Simulates.step hupdate fun _ _ => Simulates.pure hR
    exact hrest s' hI
  | @error e s' stop hE =>
    cases e with
    | stopped stop' => exact .error hE
    | null =>
      have ⟨exc, hexc, hthrown⟩ := hE
      apply EndsLike.of_ensures
      have hupdate := updateMetrics_ensures jvm env.ext metricsObj ddwafResult s'
      apply Ensures.bind (hupdate.mono_error fun _ _ hE => hE.elim)
      intro _ s'' hs''
      rw [hnone]
      exact Ensures.throw ⟨exc, hs'' exc hexc, hthrown⟩

def inputsResult (env : RunEnv D) (start : Timespec) (limits : NativeLimits) (input : RunInput) :
    Except RunStop ResultWithData := do
  let convEnd ← getTime env.convEnd
  let remGenBudgetInUs := Ddwaf.getRemainingBudget start convEnd limits
  if remGenBudgetInUs = 0 then
    .error (.waf .timeout)
  else
    let runBudget := Ddwaf.getRunBudget remGenBudgetInUs limits
    let r := env.ddwafRun input.context input.persistentInputPtr input.ephemeralInputPtr runBudget
    Ddwaf.runResult env r.1 r.2

theorem runInputs_like (start : Timespec) (limits : NativeLimits) (input : RunInput)
    (metricsObj : Option JRef) :
    Like jvm id SameResult (runInputs jvm env start limits input metricsObj)
      (inputsResult env start limits input) := by
  apply Simulates.bind (getTimeChecked_like hjvm env.convEnd)
  intro convEnd _ hconvEnd
  rw [← hconvEnd]
  apply Simulates.step (getRemainingBudget_like start convEnd limits (b := ()))
  intro remGenBudgetInUs hbudget
  rw [← hbudget]
  dsimp only
  split
  . apply Simulates.step (javaLog_like _ _ (b := ()))
    intro _ _
    exact throwPwafTimeoutException_like hjvm
  . apply Simulates.step (getRunBudget_like remGenBudgetInUs limits (b := ()))
    intro runBudget hrun
    rw [← hrun]
    apply Simulates.step (ddwafRun_like env _ _ _ runBudget (b := ()))
    intro r hr
    rw [hr]
    exact updateMetrics_after_like hjvm env metricsObj _ (runResult_like hjvm env _ _)
      (fun _ => rfl) rfl

omit hjvm in
theorem runInput_eq (persistentData ephemeralData : Option JByteBuffer) :
    runInput env persistentData ephemeralData = (do
      let context ← (Ddwaf.getWafContextContextChecked env.ptr).mapError .thrown
      let persistentInputPtr ← wrapThrowable
        "Exception converting 'persistent' ByteBuffer into ddwaf_object"
        (Ddwaf.convertBufferChecked persistentData)
      let ephemeralInputPtr ← wrapThrowable
        "Exception converting 'ephemeral' ByteBuffer into ddwaf_object"
        (Ddwaf.convertBufferChecked ephemeralData)
      if persistentInputPtr = none ∧ ephemeralInputPtr = none then
        .error (.waf (.ofErrorCode .errInvalidArgument))
      else
        .ok ⟨context, persistentInputPtr, ephemeralInputPtr⟩) := by
  unfold runInput
  cases Ddwaf.getWafContextContextChecked env.ptr with
  | error exc => rfl
  | ok context => rfl

omit hjvm in
theorem runWafContextCommon_result (persistentData ephemeralData : Option JByteBuffer)
    (limits : Waf.Limits) :
    (Ddwaf.runWafContextCommon env persistentData ephemeralData limits).result = (do
      let start ← getTime env.start
      let _ ← (checkInit env.initOk).mapError RunStop.thrown
      let input ← runInput env persistentData ephemeralData
      inputsResult env start (Ddwaf.fetchLimitsChecked env.pwRunTimeout limits) input) := by
  unfold Ddwaf.runWafContextCommon
  cases env.start with
  | none => rfl
  | some start =>
    rw [getTime_some]
    cases checkInit env.initOk with
    | error exc => rfl
    | ok _ =>
      cases runInput env persistentData ephemeralData with
      | error stop => rfl
      | ok input =>
        show _ = inputsResult env start _ input
        unfold inputsResult
        cases env.convEnd with
        | none => rfl
        | some convEnd =>
          rw [getTime_some]
          dsimp only
          split
          . rfl
          . rfl

theorem runWafContextCommon_like (persistentData ephemeralData : Option JByteBuffer)
    (limitsObj : Waf.Limits) (metricsObj : Option JRef) :
    Like jvm id SameResult
      (runWafContextCommon jvm env persistentData ephemeralData (some limitsObj) metricsObj)
      (Ddwaf.runWafContextCommon env persistentData ephemeralData limitsObj).result := by
  rw [runWafContextCommon_result]
  apply Simulates.bind (getTimeChecked_like hjvm env.start)
  intro start _ hstart
  rw [← hstart]
  apply Simulates.bind (Simulates.mapError (ofExcept_like hjvm _))
  intro _ _ _
  apply Simulates.step (fetchLimitsChecked_like hjvm env limitsObj (b := ()))
  intro limits hlimits
  rw [← hlimits]
  apply Simulates.step (nullIfPending_like (b := ()))
  intro _ _
  rw [runInput_eq]
  simp only [bind_assoc]
  apply Simulates.bind (getWafContextContextChecked_like hjvm env)
  intro context _ hcontext
  rw [← hcontext]
  apply Simulates.bind (convertBuffer_like hjvm (by decide) persistentData)
  intro persistentInputPtr _ hpersistent
  rw [← hpersistent]
  apply Simulates.bind (convertBuffer_like hjvm (by decide) ephemeralData)
  intro ephemeralInputPtr _ hephemeral
  rw [← hephemeral]
  split
  . apply Simulates.step (javaLog_like _ _ (b := ()))
    intro _ _
    exact throwPwafException_like hjvm .errInvalidArgument
  . exact runInputs_like hjvm env start limits _ metricsObj

inductive RunsLike (jvm : Jvm) :
    Except RunThrow (Option ResultRef) → Except RunStop ResultWithData → Prop where
  | returned (h : SameResult result value) : RunsLike jvm (.ok (some result)) (.ok value)
  | java (stop : RunStop) : RunsLike jvm (.error (.java stop)) (.error stop)
  | native (h : Thrown jvm exc stop) : RunsLike jvm (.error (.native exc)) (.error stop)
  | crashed (stop : Stop) : RunsLike jvm (.error (.stopped stop)) (.error (.crashed stop))

omit hjvm in
theorem returned_like {x : Jni ResultRef} {y : Except RunStop ResultWithData}
    (hx : Like jvm id SameResult x y) (calls : Nat) :
    RunsLike jvm (returned (exec x ⟨none, calls⟩)) y := by
  have h := hx ⟨none, calls⟩ rfl
  generalize exec x ⟨none, calls⟩ = r at h ⊢
  cases h with
  | @ok s a b hI hR =>
    have ⟨pending, calls⟩ := s
    cases show pending = none from hI
    exact .returned hR
  | @error e s stop hE =>
    have ⟨pending, calls⟩ := s
    cases e with
    | null =>
      have ⟨exc, hexc, hthrown⟩ := hE
      cases show pending = some exc from hexc
      exact .native hthrown
    | stopped stop' =>
      cases show stop = .crashed stop' from hE
      exact .crashed stop'

end Run

end Like

/--
Each call of a run without failures does what the values say, and an exception that is pending in
between is the one that ends the run.
-/
theorem wafContextRun_refines {D : Type} (env : RunEnv D) {jvm : Jvm} (hjvm : jvm.Succeeds)
    (persistentData ephemeralData : Option D) (limits : Waf.Limits) (metrics : Option JRef)
    (calls : Nat) :
    RunsLike jvm (WafContext.run jvm env persistentData ephemeralData (some limits) metrics calls)
      (Ddwaf.WafContext.runOnline env persistentData ephemeralData limits).result := by
  unfold WafContext.run Ddwaf.WafContext.runOnline
  dsimp only
  split
  . exact .java _
  . cases encodeParameters env persistentData ephemeralData with
    | error exc => exact .java _
    | ok buffers =>
      have ⟨persistentBuffer, ephemeralBuffer⟩ := buffers
      dsimp only
      split
      . exact .java _
      . exact returned_like (runWafContextCommon_like hjvm env _ _ _ metrics) calls

theorem RunsLike.of_ok {jvm : Jvm} {r : Except RunThrow (Option ResultRef)}
    {y : Except RunStop ResultWithData} (h : RunsLike jvm r y) (hy : y.isOk = true) :
    ∃ result value, r = .ok (some result) ∧ y = .ok value ∧ SameResult result value := by
  cases h with
  | returned h => exact ⟨_, _, rfl, rfl, h⟩
  | java stop => contradiction
  | native h => contradiction
  | crashed stop => contradiction

def wrapPlace : Place := ⟨cstr "src/main/c/waf_jni.c", cstr "_create_result_checked", 2200⟩

def workingJvm : Jvm where
  outcome _ _ := .success
  alloc _ := .total
  rteConstrCause := true
  jclsRte := true
  minLevel := .info
  place _ := wrapPlace
  ddwafRunLogs _ := []

def sampleLimits : Waf.Limits := ⟨20, 256, 4096, 1000, 0⟩

def blockResult : DdwafObject :=
  .map [(cstr "actions",
      .map [(cstr "block_request", .map [(cstr "ips", .array [.unsigned 7, .bool true])])]),
    (cstr "attributes", .map [(cstr "tag", .signed (-1)), (cstr "tag", .map [(cstr "a", .float 0)])]),
    (cstr "keep", .bool true)]

def blockingEnv : RunEnv Unit := { failingEnv with ddwafRun := fun _ _ _ _ => (.match, blockResult) }

theorem workingJvm_succeeds : workingJvm.Succeeds := by
  constructor
  . exact fun _ _ => rfl
  . exact fun _ => rfl
  . rfl
  . rfl
  . intro _
    show (epilog wrapPlace).length < 2 ^ 30
    decide

/-- One run ends with an exception that is made of the error code, the other one with maps of actions and
of attributes. -/
theorem wafContextRun_refines_blocking :
    RunsLike workingJvm
      (WafContext.run workingJvm failingEnv (some ()) none (some sampleLimits) (some 7) 0)
      (Ddwaf.WafContext.runOnline failingEnv (some ()) none sampleLimits).result ∧
    ∃ result value,
      WafContext.run workingJvm blockingEnv (some ()) none (some sampleLimits) (some 7) 0 =
        .ok (some result) ∧
      (Ddwaf.WafContext.runOnline blockingEnv (some ()) none sampleLimits).result = .ok value ∧
      SameResult result value := by
  have hfailing := wafContextRun_refines failingEnv workingJvm_succeeds (some ()) none sampleLimits
    (some 7) 0
  have hblocking := wafContextRun_refines blockingEnv workingJvm_succeeds (some ()) none sampleLimits
    (some 7) 0
  exact ⟨hfailing, hblocking.of_ok (by decide +kernel)⟩

end Jni

end Ddwaf
