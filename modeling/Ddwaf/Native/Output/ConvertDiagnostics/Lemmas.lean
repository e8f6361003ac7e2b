import Ddwaf.Native.Output.ConvertDiagnostics.Impl
import Ddwaf.Native.Output.ConvertObject.Lemmas

namespace Ddwaf

def entry (array : List (List UInt8 × DdwafObject)) (name : String) : Option DdwafObject :=
  (array.find? fun o => o.1 = cstr name).map Prod.snd

def stringArray (l : List (List UInt8)) : DdwafObject := .array (l.map .string)

abbrev Errors := List (List UInt8 × List (List UInt8))

def errorMap (es : Errors) : DdwafObject := .map (es.map fun e => (e.1, stringArray e.2))

def fitsStrings (l : List (List UInt8)) : Prop :=
  l.length ≤ intMax ∧ ∀ s ∈ l, fitsJstring s = true

def fitsErrors (es : Errors) : Prop := ∀ e ∈ es, fitsJstring e.1 = true ∧ fitsStrings e.2

def stringListOf (l : List (List UInt8)) : Option StringList :=
  if l = [] then none else some (l.map jstringOf)

def errorMapOf (es : Errors) : Option ErrorMap :=
  if es = [] then none
  else some (LinkedMap.ofEntries (es.map fun e => (jstringOf e.1, stringListOf e.2)))

def Has (array : List (List UInt8 × DdwafObject)) (name : String) (o : DdwafObject) (isEmpty : Prop) :
    Prop :=
  entry array name = some o ∨ entry array name = none ∧ isEmpty

inductive SectionName where
  | rules
  | customRules
  | rulesData
  | rulesOverride
  | exclusions
  | exclusionData
  | actions
  | processors
  | scanners

namespace SectionName

def all : List SectionName :=
  [rules, customRules, rulesData, rulesOverride, exclusions, exclusionData, actions, processors,
    scanners]

def key : SectionName → String
  | rules => "rules"
  | customRules => "custom_rules"
  | rulesData => "rules_data"
  | rulesOverride => "rules_override"
  | exclusions => "exclusions"
  | exclusionData => "exclusion_data"
  | actions => "actions"
  | processors => "processors"
  | scanners => "scanners"

end SectionName

structure SectionDiagnostics where
  error : Option (List UInt8)
  loaded : List (List UInt8)
  skipped : List (List UInt8)
  failed : List (List UInt8)
  warnings : Errors
  errors : Errors

structure Diagnostics where
  rulesetVersion : Option (List UInt8)
  error : Option (List UInt8)
  sections : SectionName → Option SectionDiagnostics

structure HasSection (array : List (List UInt8 × DdwafObject)) (s : SectionDiagnostics) : Prop where
  error : entry array "error" = s.error.map .string
  loaded : Has array "loaded" (stringArray s.loaded) (s.loaded = [])
  skipped : Has array "skipped" (stringArray s.skipped) (s.skipped = [])
  failed : Has array "failed" (stringArray s.failed) (s.failed = [])
  warnings : Has array "warnings" (errorMap s.warnings) (s.warnings = [])
  errors : Has array "errors" (errorMap s.errors) (s.errors = [])
  -- either an error or lists
  lists_of_error : s.error ≠ none → ∀ l ∈ ["loaded", "skipped", "failed", "warnings", "errors"],
    entry array l = none

inductive IsSection : DdwafObject → SectionDiagnostics → Prop where
  | map {array : List (List UInt8 × DdwafObject)} {s : SectionDiagnostics} (h : HasSection array s) :
    IsSection (.map array) s

structure IsDiagnostics (array : List (List UInt8 × DdwafObject)) (d : Diagnostics) : Prop where
  rulesetVersion : entry array "ruleset_version" = d.rulesetVersion.map .string
  error : entry array "error" = d.error.map .string
  sections : ∀ n, Option.Rel IsSection (entry array n.key) (d.sections n)

def sectionInfoOf (s : SectionDiagnostics) : SectionInfo :=
  {
    error := s.error.map jstringOf
    loaded := stringListOf s.loaded
    failed := stringListOf s.failed
    skipped := stringListOf s.skipped
    errors := errorMapOf s.errors
    warnings := errorMapOf s.warnings
  }

structure FitsSection (s : SectionDiagnostics) : Prop where
  error : ∀ m ∈ s.error, fitsJstring m = true
  loaded : fitsStrings s.loaded
  skipped : fitsStrings s.skipped
  failed : fitsStrings s.failed
  warnings : fitsErrors s.warnings
  errors : fitsErrors s.errors

structure Fits (d : Diagnostics) : Prop where
  rulesetVersion : ∀ s ∈ d.rulesetVersion, fitsJstring s = true
  error : ∀ s ∈ d.error, fitsJstring s = true
  sections : ∀ n, ∀ s ∈ d.sections n, FitsSection s

def wafDiagnosticsOf (d : Diagnostics) : WafDiagnostics :=
  let sections := fun n => (d.sections n).map sectionInfoOf
  {
    error := d.error.map jstringOf
    rulesetVersion := d.rulesetVersion.map jstringOf
    rules := sections .rules
    customRules := sections .customRules
    rulesData := sections .rulesData
    rulesOverride := sections .rulesOverride
    exclusions := sections .exclusions
    exclusionData := sections .exclusionData
    actions := sections .actions
    processors := sections .processors
    scanners := sections .scanners
  }

theorem mapGetObjectChecked_map (array : List (List UInt8 × DdwafObject)) (name : String) :
    mapGetObjectChecked (.map array) name = .ok (entry array name) := by
  rfl

variable {getString : DdwafObject → Option (List UInt8)}
variable (hget : ∀ s, getString (.string s) = some s)
variable {array : List (List UInt8 × DdwafObject)} {name : String}

theorem empty_of_absent {name : String} {o : DdwafObject} {isEmpty : Prop}
    (h : Has array name o isEmpty) (hnone : entry array name = none) : isEmpty := by
  cases h with
  | inl h =>
    rw [hnone] at h
    contradiction
  | inr h => exact h.2

theorem HasSection.empty {s : SectionDiagnostics} (h : HasSection array s) (herror : s.error ≠ none) :
    s.loaded = [] ∧ s.skipped = [] ∧ s.failed = [] ∧ s.warnings = [] ∧ s.errors = [] := by
  have habsent := h.lists_of_error herror
  refine ⟨?_, ?_, ?_, ?_, ?_⟩
  . exact empty_of_absent h.loaded (habsent "loaded" (by simp))
  . exact empty_of_absent h.skipped (habsent "skipped" (by simp))
  . exact empty_of_absent h.failed (habsent "failed" (by simp))
  . exact empty_of_absent h.warnings (habsent "warnings" (by simp))
  . exact empty_of_absent h.errors (habsent "errors" (by simp))

theorem HasSection.fits_iff {s : SectionDiagnostics} {message : List UInt8} (h : HasSection array s)
    (hs : s.error = some message) : FitsSection s ↔ fitsJstring message = true := by
  have ⟨hloaded, hskipped, hfailed, hwarnings, herrors⟩ := h.empty (by simp [hs])
  constructor
  . intro hfits
    exact hfits.error message hs
  . intro hfits
    constructor
    . intro m hm
      rw [hs] at hm
      cases hm
      exact hfits
    . simp [hloaded, fitsStrings]
    . simp [hskipped, fitsStrings]
    . simp [hfailed, fitsStrings]
    . simp [hwarnings, fitsErrors]
    . simp [herrors, fitsErrors]

theorem HasSection.sectionInfoOf_eq {s : SectionDiagnostics} {message : List UInt8}
    (h : HasSection array s) (hs : s.error = some message) :
    sectionInfoOf s = .ofError (jstringOf message) := by
  have ⟨hloaded, hskipped, hfailed, hwarnings, herrors⟩ := h.empty (by simp [hs])
  rw [sectionInfoOf, hs, hloaded, hskipped, hfailed, hwarnings, herrors]
  rfl

include hget

theorem mapGetStringChecked_iff {s : Option (List UInt8)} {r : Option (List UInt16)}
    (h : entry array name = s.map .string) :
    mapGetStringChecked getString (.map array) name = .ok r
      ↔
    (∀ m ∈ s, fitsJstring m = true) ∧ r = s.map jstringOf := by
  rw [mapGetStringChecked, mapGetObjectChecked_map, h]
  cases s with
  | none =>
    simp [eq_comm (a := r)]
  | some s =>
    simp only [Option.map_some, ok_bind, hget, bind_eq_ok_iff, javaUtf8ToJstringChecked_eq_ok_iff,
      Option.mem_def, Option.some.injEq, forall_eq']
    constructor
    . intro ⟨u, ⟨hfits, hu⟩, hr⟩
      cases hr
      rw [hu]
      exact ⟨hfits, rfl⟩
    . intro ⟨hfits, hr⟩
      exact ⟨jstringOf s, ⟨hfits, rfl⟩, by rw [hr]; rfl⟩

theorem convertStrings_iff {l : List (List UInt8)} {ret js : StringList} :
    convertStrings getString (l.map .string) ret = .ok js
      ↔
    (∀ s ∈ l, fitsJstring s = true) ∧ js = ret ++ l.map jstringOf := by
  induction l generalizing ret with
  | nil => simp [convertStrings, eq_comm (a := js)]
  | cons s l ih =>
    rw [List.map_cons, convertStrings, hget]
    simp only [bind_eq_ok_iff, javaUtf8ToJstringChecked_eq_ok_iff, ih, List.forall_mem_cons,
      List.map_cons]
    constructor
    . intro ⟨u, ⟨hfits, hu⟩, hall, hjs⟩
      refine ⟨⟨hfits, hall⟩, ?_⟩
      rw [hjs, hu, List.append_assoc, List.singleton_append]
    . intro ⟨⟨hfits, hall⟩, hjs⟩
      refine ⟨jstringOf s, ⟨hfits, rfl⟩, hall, ?_⟩
      rw [hjs, List.append_assoc, List.singleton_append]

theorem convertStrarrChecked_iff {l : List (List UInt8)} {r : Option StringList} :
    convertStrarrChecked getString (stringArray l) = .ok r
      ↔
    fitsStrings l ∧ r = stringListOf l := by
  rw [stringArray, convertStrarrChecked, List.length_map, fitsStrings, stringListOf]
  by_cases hnil : l = []
  . simp [hnil, eq_comm (a := r)]
  . have hlength : l.length ≠ 0 := by
      intro h
      exact hnil (List.eq_nil_of_length_eq_zero h)
    rw [if_neg hlength, if_neg hnil]
    split
    . next hlt =>
      constructor
      . intro h
        contradiction
      . intro h
        omega
    . next hle =>
      simp only [bind_eq_ok_iff, convertStrings_iff hget, List.nil_append]
      constructor
      . intro ⟨js, ⟨hall, hjs⟩, hr⟩
        cases hr
        rw [hjs]
        exact ⟨⟨by omega, hall⟩, rfl⟩
      . intro ⟨⟨_, hall⟩, hr⟩
        exact ⟨l.map jstringOf, ⟨hall, rfl⟩, by rw [hr]; rfl⟩

theorem mapGetObjectStrarrChecked_iff {l : List (List UInt8)} {r : Option StringList}
    (h : Has array name (stringArray l) (l = [])) :
    mapGetObjectStrarrChecked getString (.map array) name = .ok r
      ↔
    fitsStrings l ∧ r = stringListOf l := by
  rw [mapGetObjectStrarrChecked, mapGetObjectChecked_map, ok_bind]
  cases h with
  | inl h =>
    rw [h]
    exact convertStrarrChecked_iff hget
  | inr h =>
    rw [h.1, h.2]
    simp [fitsStrings, stringListOf, eq_comm (a := r)]

theorem convertErrors_iff {es : Errors} {ret m : ErrorMap} :
    convertErrors getString (es.map fun e => (e.1, stringArray e.2)) ret = .ok m
      ↔
    fitsErrors es ∧ m = (es.map fun e => (jstringOf e.1, stringListOf e.2)).foldl
      (fun m e => LinkedMap.put m e.1 e.2) ret := by
  induction es generalizing ret with
  | nil => simp [convertErrors, fitsErrors, eq_comm (a := m)]
  | cons e es ih =>
    have hstrarr := fun r => convertStrarrChecked_iff hget (l := e.2) (r := r)
    rw [stringArray] at hstrarr
    unfold fitsErrors at ih ⊢
    rw [List.map_cons, stringArray, convertErrors]
    simp only [bind_eq_ok_iff, javaUtf8ToJstringChecked_eq_ok_iff, hstrarr, ih, List.forall_mem_cons,
      List.map_cons, List.foldl_cons]
    constructor
    . intro ⟨key, ⟨hname, hkey⟩, list, ⟨hlist, hlistOf⟩, hall, hm⟩
      refine ⟨⟨⟨hname, hlist⟩, hall⟩, ?_⟩
      rw [hm, hkey, hlistOf]
    . intro ⟨⟨⟨hname, hlist⟩, hall⟩, hm⟩
      exact ⟨jstringOf e.1, ⟨hname, rfl⟩, stringListOf e.2, ⟨hlist, rfl⟩, hall, hm⟩

theorem mapGetObjectErrmapChecked_iff {es : Errors} {r : Option ErrorMap}
    (h : Has array name (errorMap es) (es = [])) :
    mapGetObjectErrmapChecked getString (.map array) name = .ok r
      ↔
    fitsErrors es ∧ r = errorMapOf es := by
  rw [mapGetObjectErrmapChecked, mapGetObjectChecked_map, ok_bind]
  cases h with
  | inl h =>
    rw [h, errorMap, errorMapOf]
    by_cases hnil : es = []
    . simp [hnil, fitsErrors, eq_comm (a := r)]
    . have hlength : (es.map fun e => (e.1, stringArray e.2)).length ≠ 0 := by
        intro h
        rw [List.length_map] at h
        exact hnil (List.eq_nil_of_length_eq_zero h)
      simp only [if_neg hlength, if_neg hnil, bind_eq_ok_iff, convertErrors_iff hget]
      constructor
      . intro ⟨m, ⟨hall, hm⟩, hr⟩
        cases hr
        rw [hm]
        exact ⟨hall, rfl⟩
      . intro ⟨hall, hr⟩
        exact ⟨_, ⟨hall, rfl⟩, by rw [hr]; rfl⟩
  | inr h =>
    rw [h.1, h.2]
    simp [fitsErrors, errorMapOf, eq_comm (a := r)]

theorem convertSectionChecked_error_iff {root : List (List UInt8 × DdwafObject)} {name : String}
    {s : SectionDiagnostics} {message : List UInt8} {r : Option SectionInfo}
    (hentry : entry root name = some (.map array)) (h : HasSection array s)
    (hs : s.error = some message) :
    convertSectionChecked getString (.map root) name = .ok r
      ↔
    FitsSection s ∧ r = some (sectionInfoOf s) := by
  have herror := fun r => mapGetStringChecked_iff hget (r := r) h.error
  simp only [hs, Option.mem_def, Option.some.injEq, forall_eq', Option.map_some] at herror
  rw [convertSectionChecked, mapGetObjectChecked_map, hentry, ok_bind, bind_eq_ok_iff_of herror,
    h.fits_iff hs, h.sectionInfoOf_eq hs]
  constructor
  . intro ⟨hfits, hr⟩
    exact ⟨hfits, (Except.ok.inj hr).symm⟩
  . intro ⟨hfits, hr⟩
    rw [hr]
    exact ⟨hfits, rfl⟩

theorem convertSectionChecked_lists_iff {root : List (List UInt8 × DdwafObject)} {name : String}
    {s : SectionDiagnostics} {r : Option SectionInfo}
    (hentry : entry root name = some (.map array)) (h : HasSection array s) (hs : s.error = none) :
    convertSectionChecked getString (.map root) name = .ok r
      ↔
    FitsSection s ∧ r = some (sectionInfoOf s) := by
  have herror : mapGetStringChecked getString (.map array) "error" = .ok none := by
    rw [mapGetStringChecked_iff hget h.error, hs]
    simp
  have hstrarr := fun name l (h : Has array name (stringArray l) (l = [])) r =>
    mapGetObjectStrarrChecked_iff hget (r := r) h
  have herrmap := fun name es (h : Has array name (errorMap es) (es = [])) r =>
    mapGetObjectErrmapChecked_iff hget (r := r) h
  rw [convertSectionChecked, mapGetObjectChecked_map, hentry, ok_bind]
  simp only [herror, ok_bind]
  rw [bind_eq_ok_iff_of (hstrarr _ _ h.loaded), bind_eq_ok_iff_of (hstrarr _ _ h.skipped),
    bind_eq_ok_iff_of (hstrarr _ _ h.failed), bind_eq_ok_iff_of (herrmap _ _ h.warnings),
    bind_eq_ok_iff_of (herrmap _ _ h.errors), sectionInfoOf, hs]
  constructor
  . intro ⟨hloaded, hskipped, hfailed, hwarnings, herrors, hr⟩
    exact ⟨⟨by simp [hs], hloaded, hskipped, hfailed, hwarnings, herrors⟩, (Except.ok.inj hr).symm⟩
  . intro ⟨hfits, hr⟩
    refine ⟨hfits.loaded, hfits.skipped, hfits.failed, hfits.warnings, hfits.errors, ?_⟩
    rw [hr]
    rfl

theorem convertSectionChecked_iff {root : List (List UInt8 × DdwafObject)} {name : String}
    {d : Option SectionDiagnostics} {r : Option SectionInfo}
    (h : Option.Rel IsSection (entry root name) d) :
    convertSectionChecked getString (.map root) name = .ok r
      ↔
    (∀ s ∈ d, FitsSection s) ∧ r = d.map sectionInfoOf := by
  generalize hentry : entry root name = o at h
  cases h with
  | none =>
    rw [convertSectionChecked, mapGetObjectChecked_map, hentry]
    simp [eq_comm (a := r)]
  | some hsection =>
    next o s =>
    cases hsection with
    | map hsection =>
      simp only [Option.mem_def, Option.some.injEq, forall_eq', Option.map_some]
      cases hs : s.error with
      | none => exact convertSectionChecked_lists_iff hget hentry hsection hs
      | some message => exact convertSectionChecked_error_iff hget hentry hsection hs

/--
The conversion throws nothing unless a string or a list is too long for Java.
-/
theorem outputConvertDiagnosticsChecked_iff {d : Diagnostics} {w : WafDiagnostics}
    (h : IsDiagnostics array d) :
    outputConvertDiagnosticsChecked getString (.map array) = .ok w
      ↔
    Fits d ∧ w = wafDiagnosticsOf d := by
  have hrulesetVersion := fun r => mapGetStringChecked_iff hget (r := r) h.rulesetVersion
  have herror := fun r => mapGetStringChecked_iff hget (r := r) h.error
  have hsection (n : SectionName) (name : String) (hname : n.key = name) (r : Option SectionInfo) :
      convertSectionChecked getString (.map array) name = .ok r ↔
        (∀ s ∈ d.sections n, FitsSection s) ∧ r = (d.sections n).map sectionInfoOf := by
    rw [← hname]
    exact convertSectionChecked_iff hget (h.sections n)
  rw [outputConvertDiagnosticsChecked, bind_eq_ok_iff_of hrulesetVersion, bind_eq_ok_iff_of herror,
    bind_eq_ok_iff_of (hsection .rules "rules" rfl),
    bind_eq_ok_iff_of (hsection .customRules "custom_rules" rfl),
    bind_eq_ok_iff_of (hsection .rulesData "rules_data" rfl),
    bind_eq_ok_iff_of (hsection .rulesOverride "rules_override" rfl),
    bind_eq_ok_iff_of (hsection .exclusions "exclusions" rfl),
    bind_eq_ok_iff_of (hsection .exclusionData "exclusion_data" rfl),
    bind_eq_ok_iff_of (hsection .actions "actions" rfl),
    bind_eq_ok_iff_of (hsection .processors "processors" rfl),
    bind_eq_ok_iff_of (hsection .scanners "scanners" rfl)]
  constructor
  . intro ⟨hrulesetVersion, herror, hrules, hcustomRules, hrulesData, hrulesOverride, hexclusions,
      hexclusionData, hactions, hprocessors, hscanners, hw⟩
    refine ⟨⟨hrulesetVersion, herror, ?_⟩, (Except.ok.inj hw).symm⟩
    intro n
    cases n with
    | rules => exact hrules
    | customRules => exact hcustomRules
    | rulesData => exact hrulesData
    | rulesOverride => exact hrulesOverride
    | exclusions => exact hexclusions
    | exclusionData => exact hexclusionData
    | actions => exact hactions
    | processors => exact hprocessors
    | scanners => exact hscanners
  . intro ⟨hfits, hw⟩
    have hsections := hfits.sections
    refine ⟨hfits.rulesetVersion, hfits.error, hsections .rules, hsections .customRules,
      hsections .rulesData, hsections .rulesOverride, hsections .exclusions, hsections .exclusionData,
      hsections .actions, hsections .processors, hsections .scanners, ?_⟩
    rw [hw]
    rfl

end Ddwaf
