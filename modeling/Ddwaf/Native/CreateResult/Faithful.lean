import Ddwaf.Native.CreateResult.Impl

/-!
This module contains what a `ResultWithData` says about the map that it is made of.
-/

namespace Ddwaf

def Missing (entries : List (List UInt8 × DdwafObject)) (key : List UInt8) : Prop :=
  ∀ o, (key, o) ∉ entries

structure Externals.Lawful (ext : Externals) : Prop where
  find_mem : ∀ {entries key o}, ext.ddwafObjectFind (.map entries) key = some o → (key, o) ∈ entries
  find_none : ∀ {entries key}, ext.ddwafObjectFind (.map entries) key = none → Missing entries key
  size_array : ∀ array, ext.ddwafObjectSize (.array array) = array.length
  size_map : ∀ entries, ext.ddwafObjectSize (.map entries) = entries.length
  getBool : ∀ boolean, ext.ddwafObjectGetBool (.bool boolean) = boolean
  getUnsigned : ∀ uintValue, ext.ddwafObjectGetUnsigned (.unsigned uintValue) = uintValue

/-- The entries that the native library fills a result with have these types, if they are there. -/
structure IsResultMap (entries : List (List UInt8 × DdwafObject)) : Prop where
  events : ∀ o, (cstr "events", o) ∈ entries → ∃ array, o = .array array
  actions : ∀ o, (cstr "actions", o) ∈ entries → ∃ array, o = .map array
  attributes : ∀ o, (cstr "attributes", o) ∈ entries → ∃ array, o = .map array
  keep : ∀ o, (cstr "keep", o) ∈ entries → ∃ boolean, o = .bool boolean
  duration : ∀ o, (cstr "duration", o) ∈ entries → ∃ uintValue, o = .unsigned uintValue

theorem javaWrapExc_eq_ok {msg : String} {x : Native α} {a : α} (h : javaWrapExc msg x = .ok a) :
    x = .ok a := by
  cases x with
  | ok b => exact h
  | error e =>
    cases e with
    | thrown exc => cases h
    | outOfBounds => exact h
    | useAfterFree => exact h
    | overlap => exact h
    | diverges => exact h

theorem convertEntries_ne_nil {array : List (List UInt8 × DdwafObject)}
    {ret ret' : List (List UInt16 × JObject)} (h : convertEntries array ret = .ok ret')
    (hne : ret ≠ [] ∨ array ≠ []) : ret' ≠ [] := by
  induction array generalizing ret with
  | nil =>
    rw [convertEntries] at h
    cases h
    simpa using hne
  | cons e rest ih =>
    rw [convertEntries] at h
    obtain ⟨key, -, h⟩ := bind_eq_ok h
    obtain ⟨value, -, h⟩ := bind_eq_ok h
    apply ih h
    left
    apply LinkedMap.put_ne_nil

variable {ext : Externals} {entries : List (List UInt8 × DdwafObject)}

theorem Externals.Lawful.find_eq_none_iff (hext : ext.Lawful) {key : List UInt8} :
    ext.ddwafObjectFind (.map entries) key = none ↔ Missing entries key := by
  constructor
  . exact hext.find_none
  . intro hmissing
    rw [Option.eq_none_iff_forall_ne_some]
    intro o ho
    exact hmissing o (hext.find_mem ho)

namespace createResultChecked

def NonemptyArray (o : Option DdwafObject) : Prop := ∃ array, o = some (.array array) ∧ array ≠ []

def NonemptyMap (o : Option DdwafObject) : Prop := ∃ array, o = some (.map array) ∧ array ≠ []

theorem nonemptyArray_iff {array : List DdwafObject} :
    NonemptyArray (some (.array array)) ↔ array ≠ [] := by
  simp [NonemptyArray]

theorem nonemptyMap_iff {array : List (List UInt8 × DdwafObject)} :
    NonemptyMap (some (.map array)) ↔ array ≠ [] := by
  simp [NonemptyMap]

theorem actions_iff (hext : ext.Lawful) {o : Option DdwafObject} {j : JObject}
    (h : actions ext o = .ok j) : j = .map [] ↔ ¬ NonemptyMap o := by
  unfold actions at h
  split at h
  . next array =>
    simp only [hext.size_map, List.length_eq_zero_iff] at h
    rw [nonemptyMap_iff, not_not]
    split at h
    . next hempty =>
      cases h
      exact iff_of_true rfl hempty
    . next hempty =>
      have hconv := javaWrapExc_eq_ok h
      rw [convertDdwafObjectToJobject] at hconv
      obtain ⟨ret, hret, hj⟩ := bind_eq_ok hconv
      cases hj
      have hne := convertEntries_ne_nil hret (.inr hempty)
      simpa [hempty] using hne
  . next hmap =>
    cases h
    apply iff_of_true rfl
    rintro ⟨array, ho, -⟩
    exact hmap array ho

theorem data_iff (hext : ext.Lawful) {o : Option DdwafObject} {text : Option (List UInt16)}
    (h : data ext o = .ok text) : text.isSome ↔ NonemptyArray o := by
  unfold data at h
  split at h
  . next array =>
    simp only [hext.size_array, gt_iff_lt, List.length_pos_iff] at h
    rw [nonemptyArray_iff]
    split at h
    . next hne =>
      obtain ⟨⟨seg, heap⟩, -, h⟩ := bind_eq_ok h
      cases seg with
      | none => cases h
      | some seg =>
        obtain ⟨dataObj, -, h⟩ := bind_eq_ok h
        obtain ⟨heap', -, h⟩ := bind_eq_ok h
        cases h
        exact iff_of_true rfl hne
    . next hempty =>
      cases h
      simpa using hempty
  . next harray =>
    cases h
    apply iff_of_false Bool.false_ne_true
    rintro ⟨array, ho, -⟩
    exact harray array ho

theorem attributes_iff (hext : ext.Lawful) {o : Option DdwafObject} {j : Option JObject}
    (h : attributes ext o = .ok j) : j = none ↔ ¬ NonemptyMap o := by
  unfold attributes at h
  split at h
  . next array =>
    simp only [hext.size_map, gt_iff_lt, List.length_pos_iff] at h
    rw [nonemptyMap_iff, not_not]
    split at h
    . next hne =>
      obtain ⟨map, -, h⟩ := bind_eq_ok h
      cases h
      simpa using hne
    . next hempty =>
      cases h
      simpa using hempty
  . next hmap =>
    cases h
    apply iff_of_true rfl
    rintro ⟨array, ho, -⟩
    exact hmap array ho

end createResultChecked

open createResultChecked

structure Fields (ext : Externals) (code : DdwafRetCode) (res : DdwafObject) (r : ResultWithData) :
    Prop where
  actions : actions ext (ext.ddwafObjectFind res (cstr "actions")) = .ok r.actions
  data : data ext (ext.ddwafObjectFind res (cstr "events")) = .ok r.data
  attributes : attributes ext (ext.ddwafObjectFind res (cstr "attributes")) = .ok r.attributes
  keep : keep ext (ext.ddwafObjectFind res (cstr "keep")) = r.keep
  duration : duration ext (ext.ddwafObjectFind res (cstr "duration")) = r.duration
  events : hasEvents ext res = r.events
  result : (if code = .ok then .ok else .match) = r.result

theorem createResultChecked_fields {code : DdwafRetCode} {res : DdwafObject} {r : ResultWithData}
    (h : createResultChecked ext code res = .ok r) : Fields ext code res r := by
  obtain ⟨actionsJmap, hactions, h⟩ := bind_eq_ok h
  obtain ⟨dataObj, hdata, h⟩ := bind_eq_ok h
  obtain ⟨-, -, h⟩ := bind_eq_ok h
  obtain ⟨-, -, h⟩ := bind_eq_ok h
  obtain ⟨attributes, hattributes, h⟩ := bind_eq_ok h
  cases h
  exact ⟨hactions, hdata, hattributes, rfl, rfl, rfl, rfl⟩

structure Faithful (ext : Externals) (entries : List (List UInt8 × DdwafObject))
    (code : DdwafRetCode) (r : ResultWithData) : Prop where
  data : r.data.isSome ↔ NonemptyArray (ext.ddwafObjectFind (.map entries) (cstr "events"))
  events : r.events ↔ r.data.isSome
  actions : r.actions = .map [] ↔
    ¬ NonemptyMap (ext.ddwafObjectFind (.map entries) (cstr "actions"))
  attributes : r.attributes = none ↔
    ¬ NonemptyMap (ext.ddwafObjectFind (.map entries) (cstr "attributes"))
  keep : (Missing entries (cstr "keep") ∧ r.keep = true) ∨
    ext.ddwafObjectFind (.map entries) (cstr "keep") = some (.bool r.keep)
  duration : (Missing entries (cstr "duration") ∧ r.duration = 0) ∨
    ∃ uintValue, ext.ddwafObjectFind (.map entries) (cstr "duration") = some (.unsigned uintValue) ∧
      r.duration = uintValue.toInt64
  result : r.result = .ok ↔ code = .ok

def EventMissingOrTrue (ext : Externals) (entries : List (List UInt8 × DdwafObject)) : Prop :=
  Missing entries (cstr "event") ∨
    ext.ddwafObjectFind (.map entries) (cstr "event") = some (.bool true)

theorem hasEvents_iff (hext : ext.Lawful) :
    hasEvents ext (.map entries) ↔ EventMissingOrTrue ext entries := by
  unfold hasEvents EventMissingOrTrue
  rw [← hext.find_eq_none_iff]
  split
  . next h => simp [h]
  . next boolean h => simp [h, hext.getBool]
  . next o hbool h =>
    simp only [h, Bool.false_eq_true, reduceCtorEq, Option.some.injEq, false_or, false_iff]
    exact hbool true

theorem keep_spec (hext : ext.Lawful) (hentries : IsResultMap entries) {find : Option DdwafObject}
    (hfind : ext.ddwafObjectFind (.map entries) (cstr "keep") = find) :
    (Missing entries (cstr "keep") ∧ keep ext find = true) ∨ find = some (.bool (keep ext find)) := by
  cases find with
  | none =>
    left
    exact ⟨hext.find_none hfind, rfl⟩
  | some o =>
    right
    obtain ⟨boolean, rfl⟩ := hentries.keep o (hext.find_mem hfind)
    rw [keep, hext.getBool]

theorem duration_spec (hext : ext.Lawful) (hentries : IsResultMap entries)
    {find : Option DdwafObject}
    (hfind : ext.ddwafObjectFind (.map entries) (cstr "duration") = find) :
    (Missing entries (cstr "duration") ∧ duration ext find = 0) ∨
      ∃ uintValue, find = some (.unsigned uintValue) ∧
        duration ext find = uintValue.toInt64 := by
  cases find with
  | none =>
    left
    exact ⟨hext.find_none hfind, rfl⟩
  | some o =>
    right
    obtain ⟨uintValue, rfl⟩ := hentries.duration o (hext.find_mem hfind)
    rw [duration, hext.getUnsigned]
    exact ⟨uintValue, rfl, rfl⟩

/--
All of the other fields are right. What decides is the key of the events flag, which is "event".
-/
theorem createResultChecked_faithful_iff (hext : ext.Lawful) (hentries : IsResultMap entries)
    {code : DdwafRetCode} {r : ResultWithData}
    (h : createResultChecked ext code (.map entries) = .ok r) :
    Faithful ext entries code r ↔
      (EventMissingOrTrue ext entries ↔
        NonemptyArray (ext.ddwafObjectFind (.map entries) (cstr "events"))) := by
  have hr := createResultChecked_fields h
  have hevents : r.events ↔ EventMissingOrTrue ext entries := by
    rw [← hr.events]
    exact hasEvents_iff hext
  have hdata := data_iff hext hr.data
  constructor
  . intro hfaithful
    rw [← hevents, ← hdata]
    exact hfaithful.events
  . intro hflag
    constructor
    . exact hdata
    . rw [hevents, hflag, hdata]
    . exact actions_iff hext hr.actions
    . exact attributes_iff hext hr.attributes
    . rw [← hr.keep]
      exact keep_spec hext hentries rfl
    . rw [← hr.duration]
      exact duration_spec hext hentries rfl
    . rw [← hr.result]
      by_cases hcode : code = .ok
      . simp [hcode]
      . simp [hcode]

def Externals.firstEntry : Externals where
  ddwafObjectFind
    | .map entries, key => entries.lookup key
    | _, _ => none
  ddwafObjectSize
    | .array array => array.length
    | .map array => array.length
    | _ => 0
  ddwafObjectGetBool
    | .bool boolean => boolean
    | _ => false
  ddwafObjectGetUnsigned
    | .unsigned uintValue => uintValue
    | _ => 0
  encodeGzip _ := none
  noStringValue _ := .error .outOfBounds

theorem Externals.firstEntry_lawful : Externals.firstEntry.Lawful where
  find_mem h := by
    obtain ⟨l₁, l₂, rfl, -⟩ := List.lookup_eq_some_iff.mp h
    simp
  find_none h o ho := by
    have := List.lookup_eq_none_iff.mp h _ ho
    simp at this
  size_array _ := rfl
  size_map _ := rfl
  getBool _ := rfl
  getUnsigned _ := rfl

def sampleResult : List (List UInt8 × DdwafObject) :=
  [(cstr "keep", .bool false),
   (cstr "events", .array [.map [(cstr "rule", .string (cstr "ua0-600-12x"))]]),
   (cstr "duration", .unsigned 662607015),
   (cstr "attributes", .map [(cstr "_dd.appsec.trace.agent", .string (cstr "v1"))]),
   (cstr "actions", .map [])]

theorem sampleResult_isResultMap : IsResultMap sampleResult := by
  constructor
  . intro o ho
    simp +decide [sampleResult] at ho
    exact ⟨_, ho⟩
  . intro o ho
    simp +decide [sampleResult] at ho
    exact ⟨_, ho⟩
  . intro o ho
    simp +decide [sampleResult] at ho
    exact ⟨_, ho⟩
  . intro o ho
    simp +decide [sampleResult] at ho
    exact ⟨_, ho⟩
  . intro o ho
    simp +decide [sampleResult] at ho
    exact ⟨_, ho⟩

theorem createResultChecked_faithful_sample :
    ∃ r, createResultChecked .firstEntry .match (.map sampleResult) = .ok r ∧
      Faithful .firstEntry sampleResult .match r := by
  obtain ⟨r, hr⟩ : ∃ r, createResultChecked .firstEntry .match (.map sampleResult) = .ok r :=
    exists_ok_of_isOk (by decide +kernel)
  refine ⟨r, hr, (createResultChecked_faithful_iff Externals.firstEntry_lawful
    sampleResult_isResultMap hr).mpr ?_⟩
  apply iff_of_true
  . left
    intro o ho
    simp +decide [sampleResult] at ho
  . refine ⟨_, rfl, ?_⟩
    exact List.cons_ne_nil _ _

def noEvents : List (List UInt8 × DdwafObject) :=
  [(cstr "events", .array []), (cstr "actions", .map []), (cstr "duration", .unsigned 12000),
   (cstr "timeout", .bool false), (cstr "attributes", .map []), (cstr "keep", .bool false)]

theorem createResultChecked_no_events :
    IsResultMap noEvents ∧ ∃ r, createResultChecked .firstEntry .ok (.map noEvents) = .ok r ∧
      r.data = none ∧ r.events = true ∧ ¬ Faithful .firstEntry noEvents .ok r := by
  constructor
  . constructor
    . intro o ho
      simp +decide [noEvents] at ho
      exact ⟨_, ho⟩
    . intro o ho
      simp +decide [noEvents] at ho
      exact ⟨_, ho⟩
    . intro o ho
      simp +decide [noEvents] at ho
      exact ⟨_, ho⟩
    . intro o ho
      simp +decide [noEvents] at ho
      exact ⟨_, ho⟩
    . intro o ho
      simp +decide [noEvents] at ho
      exact ⟨_, ho⟩
  . obtain ⟨r, hr⟩ : ∃ r, createResultChecked .firstEntry .ok (.map noEvents) = .ok r :=
      exists_ok_of_isOk (by decide +kernel)
    have hfields := createResultChecked_fields hr
    have hdata : r.data = none := (Except.ok.inj hfields.data).symm
    have hevents : r.events = true := hfields.events.symm
    refine ⟨r, hr, hdata, hevents, ?_⟩
    intro h
    have hsome := h.events.mp hevents
    rw [hdata] at hsome
    cases hsome

end Ddwaf
