import Mathlib.Algebra.GroupWithZero.Nat
import Ddwaf.Native.Output.ConvertDiagnostics.Lemmas
import Ddwaf.Native.Output.ConvertObject.Representation

/-!
This module contains the proof of when the diagnostics that Java sees are the ones of the native
library.
-/

namespace Ddwaf

def javaText (s : List UInt8) : List UInt16 := Utf16.encode (Utf8.decode s)

/-- What a map of messages says: of a message that comes up again it has the last list. -/
def javaErrors (es : Errors) : List (List UInt16 × StringList) :=
  LinkedMap.ofEntries (es.map fun e => (javaText e.1, e.2.map javaText))

namespace WafDiagnostics

def sectionNamed (w : WafDiagnostics) : SectionName → Option SectionInfo
  | .rules => w.rules
  | .customRules => w.customRules
  | .rulesData => w.rulesData
  | .rulesOverride => w.rulesOverride
  | .exclusions => w.exclusions
  | .exclusionData => w.exclusionData
  | .actions => w.actions
  | .processors => w.processors
  | .scanners => w.scanners

end WafDiagnostics

namespace Diagnostics

def numLoaded (d : Diagnostics) : Nat :=
  (SectionName.all.map fun n => ((d.sections n).map fun s => s.loaded.length).getD 0).sum

def listsOf (d : Diagnostics) (message : List UInt16) : List StringList :=
  (SectionName.all.filterMap d.sections).flatMap fun s =>
    (LinkedMap.get (javaErrors s.errors) message).toList

def allErrors (d : Diagnostics) (message : List UInt16) : Option StringList :=
  if d.listsOf message = [] then none else some (d.listsOf message).flatten

end Diagnostics

/--
The lists of the section are the ones of the diagnostics, through the accessors where there is one. Of
the fields that are not read, null says the same as an empty list.
-/
structure SectionInfo.Reproduces (info : SectionInfo) (s : SectionDiagnostics) : Prop where
  error : info.getError = s.error.map javaText
  loaded : info.getLoaded = s.loaded.map javaText
  failed : info.getFailed = s.failed.map javaText
  errors : info.getErrors = LinkedMap.mapValues some (javaErrors s.errors)
  skipped : info.skipped.getD [] = s.skipped.map javaText
  warnings : LinkedMap.mapValues (fun l => l.getD []) (info.warnings.getD []) = javaErrors s.warnings

structure WafDiagnostics.Reproduces (w : WafDiagnostics) (d : Diagnostics) : Prop where
  rulesetVersion : w.rulesetVersion = d.rulesetVersion.map javaText
  error : w.error = d.error.map javaText
  sections : ∀ n, Option.Rel SectionInfo.Reproduces (w.sectionNamed n) (d.sections n)
  numConfigOK : w.getNumConfigOK = d.numLoaded
  allErrors : ∃ m, w.getAllErrors = .ok m ∧ ∀ message, LinkedMap.get m message = d.allErrors message

section Exact

def errorKey (e : List UInt8 × List (List UInt8)) : List UInt16 := javaText e.1

def belowPlane2Errors (es : Errors) : Prop :=
  (∀ e ∈ es, belowPlane2 e.1 = true) ∧
    ∀ e, LinkedMap.IsLast errorKey es e → ∀ s ∈ e.2, belowPlane2 s = true

def noEmptyList (es : Errors) : Prop := ∀ e, LinkedMap.IsLast errorKey es e → e.2 ≠ []

structure IsExactSection (s : SectionDiagnostics) : Prop where
  error : ∀ m ∈ s.error, belowPlane2 m = true
  loaded : ∀ m ∈ s.loaded, belowPlane2 m = true
  skipped : ∀ m ∈ s.skipped, belowPlane2 m = true
  failed : ∀ m ∈ s.failed, belowPlane2 m = true
  warnings : belowPlane2Errors s.warnings
  errors : belowPlane2Errors s.errors ∧ noEmptyList s.errors

theorem option_map_jstringOf_eq_iff (s : Option (List UInt8)) :
    s.map jstringOf = s.map javaText ↔ ∀ m ∈ s, belowPlane2 m = true := by
  cases s with
  | none => simp
  | some m => simp [belowPlane2_iff, javaText]

theorem map_jstringOf_eq_iff (l : List (List UInt8)) :
    l.map jstringOf = l.map javaText ↔ ∀ s ∈ l, belowPlane2 s = true := by
  rw [List.map_inj_left]
  simp [belowPlane2_iff, javaText]

theorem getD_stringListOf (l : List (List UInt8)) : (stringListOf l).getD [] = l.map jstringOf := by
  unfold stringListOf
  split
  . next h =>
    rw [h]
    rfl
  . rfl

theorem stringListOf_eq_some_iff (l : List (List UInt8)) :
    stringListOf l = some (l.map javaText) ↔ l ≠ [] ∧ ∀ s ∈ l, belowPlane2 s = true := by
  unfold stringListOf
  split
  . next h => simp [h]
  . next h => rw [Option.some.injEq, map_jstringOf_eq_iff, and_iff_right h]

theorem getD_errorMapOf (es : Errors) :
    (errorMapOf es).getD [] =
      LinkedMap.ofEntries (es.map fun e => (jstringOf e.1, stringListOf e.2)) := by
  unfold errorMapOf
  split
  . next h =>
    rw [h]
    rfl
  . rfl

theorem errors_eq_iff (es : Errors) :
    (errorMapOf es).getD [] = LinkedMap.mapValues some (javaErrors es) ↔
      belowPlane2Errors es ∧ noEmptyList es := by
  rw [getD_errorMapOf, javaErrors, LinkedMap.mapValues_ofEntries]
  apply (ofEntries_jstringOf_eq_iff es).trans
  simp only [stringListOf_eq_some_iff]
  constructor
  . intro ⟨hnames, hlast⟩
    exact ⟨⟨hnames, fun e he => (hlast e he).2⟩, fun e he => (hlast e he).1⟩
  . intro ⟨⟨hnames, hbelow⟩, hnonempty⟩
    exact ⟨hnames, fun e he => ⟨hnonempty e he, hbelow e he⟩⟩

theorem warnings_eq_iff (es : Errors) :
    LinkedMap.mapValues (fun l => l.getD []) ((errorMapOf es).getD []) = javaErrors es ↔
      belowPlane2Errors es := by
  rw [getD_errorMapOf, javaErrors, LinkedMap.mapValues_ofEntries]
  apply (ofEntries_jstringOf_eq_iff es).trans
  simp only [getD_stringListOf, map_jstringOf_eq_iff]
  rfl

theorem sectionInfoOf_reproduces_iff (s : SectionDiagnostics) :
    (sectionInfoOf s).Reproduces s ↔ IsExactSection s := by
  constructor
  . intro h
    constructor
    . exact (option_map_jstringOf_eq_iff s.error).mp h.error
    . rw [← map_jstringOf_eq_iff, ← getD_stringListOf]
      exact h.loaded
    . rw [← map_jstringOf_eq_iff, ← getD_stringListOf]
      exact h.skipped
    . rw [← map_jstringOf_eq_iff, ← getD_stringListOf]
      exact h.failed
    . exact (warnings_eq_iff s.warnings).mp h.warnings
    . exact (errors_eq_iff s.errors).mp h.errors
  . intro h
    constructor
    . exact (option_map_jstringOf_eq_iff s.error).mpr h.error
    . exact (getD_stringListOf s.loaded).trans ((map_jstringOf_eq_iff s.loaded).mpr h.loaded)
    . exact (getD_stringListOf s.failed).trans ((map_jstringOf_eq_iff s.failed).mpr h.failed)
    . exact (errors_eq_iff s.errors).mpr h.errors
    . exact (getD_stringListOf s.skipped).trans ((map_jstringOf_eq_iff s.skipped).mpr h.skipped)
    . exact (warnings_eq_iff s.warnings).mpr h.warnings

theorem sections_reproduces_iff (s : Option SectionDiagnostics) :
    Option.Rel SectionInfo.Reproduces (s.map sectionInfoOf) s ↔ ∀ x ∈ s, IsExactSection x := by
  cases s with
  | none => simp
  | some s => simp [sectionInfoOf_reproduces_iff]

end Exact

section Accessors

theorem toInt32_toInt32_add (a b : Int) : toInt32 (toInt32 a + b) = toInt32 (a + b) :=
  Int.bmod_add_bmod

theorem toInt32_natCast_eq_iff (n : Nat) : toInt32 n = n ↔ n ≤ intMax := by
  unfold toInt32 intMax
  rw [Int.bmod_def]
  split <;> omega

theorem sectionNamed_wafDiagnosticsOf (d : Diagnostics) (n : SectionName) :
    (wafDiagnosticsOf d).sectionNamed n = (d.sections n).map sectionInfoOf := by
  cases n <;> rfl

theorem countLoadedForSection_eq (s : Option SectionDiagnostics) :
    countLoadedForSection (s.map sectionInfoOf) =
      (((s.map fun s => s.loaded.length).getD 0 : Nat) : Int) := by
  cases s with
  | none => rfl
  | some s =>
    rw [Option.map_some, Option.map_some, countLoadedForSection, Option.getD_some,
      SectionInfo.getLoaded, sectionInfoOf, getD_stringListOf, List.length_map]

theorem getNumConfigOK_wafDiagnosticsOf (d : Diagnostics) :
    (wafDiagnosticsOf d).getNumConfigOK = toInt32 d.numLoaded := by
  simp only [WafDiagnostics.getNumConfigOK, wafDiagnosticsOf, countLoadedForSection_eq,
    toInt32_toInt32_add, Diagnostics.numLoaded, SectionName.all, List.map_cons, List.map_nil,
    List.sum_cons, List.sum_nil]
  congr 1
  omega

theorem foldlM_mergeEntry (es : List (List UInt16 × StringList))
    (m : List (List UInt16 × StringList)) :
    (LinkedMap.mapValues some es).foldlM WafDiagnostics.mergeEntry m =
      .ok (es.foldl (fun m e => LinkedMap.merge (fun l1 l2 => l1 ++ l2) m e.1 e.2) m) := by
  induction es generalizing m with
  | nil => rfl
  | cons e es ih =>
    unfold LinkedMap.mapValues at ih ⊢
    rw [List.map_cons, List.foldlM_cons, WafDiagnostics.mergeEntry, ok_bind, ih, List.foldl_cons]

theorem getErrors_sections {w : WafDiagnostics} {d : Diagnostics}
    (h : ∀ n, Option.Rel SectionInfo.Reproduces (w.sectionNamed n) (d.sections n))
    (ns : List SectionName) :
    ((ns.map w.sectionNamed).filterMap id).flatMap SectionInfo.getErrors =
      LinkedMap.mapValues some
        ((ns.filterMap d.sections).flatMap fun s => javaErrors s.errors) := by
  induction ns with
  | nil => rfl
  | cons n ns ih =>
    have hn := h n
    rw [List.map_cons, List.filterMap_cons, List.filterMap_cons]
    generalize w.sectionNamed n = info at hn
    generalize d.sections n = s at hn
    cases hn with
    | none => exact ih
    | some hn =>
      rw [LinkedMap.mapValues] at ih
      dsimp only [id_eq]
      rw [List.flatMap_cons, List.flatMap_cons, hn.errors, ih, LinkedMap.mapValues,
        LinkedMap.mapValues, List.map_append]

theorem getAllErrors_of_reproduces {w : WafDiagnostics} {d : Diagnostics}
    (h : ∀ n, Option.Rel SectionInfo.Reproduces (w.sectionNamed n) (d.sections n)) :
    ∃ m, w.getAllErrors = .ok m ∧ ∀ message, LinkedMap.get m message = d.allErrors message := by
  have hsections : w.sections = SectionName.all.map w.sectionNamed := by rfl
  rw [WafDiagnostics.getAllErrors, hsections, getErrors_sections h, foldlM_mergeEntry]
  refine ⟨_, rfl, ?_⟩
  intro message
  have hlists : LinkedMap.valuesOf
      ((SectionName.all.filterMap d.sections).flatMap fun s => javaErrors s.errors) message =
        d.listsOf message := by
    rw [LinkedMap.valuesOf_flatMap, Diagnostics.listsOf]
    congr 1
    funext s
    exact LinkedMap.valuesOf_of_nodup (LinkedMap.nodup_ofEntries _) message
  rw [LinkedMap.get_foldl_merge_append, hlists]
  rfl

end Accessors

/--
The strings and lists have a length that Java allows and no character of plane 2 or above, the ids that
are loaded can be counted with an int, and no message of the errors has an empty list.
-/
structure Diagnostics.IsReproducible (d : Diagnostics) : Prop where
  fits : Fits d
  rulesetVersion : ∀ s ∈ d.rulesetVersion, belowPlane2 s = true
  error : ∀ s ∈ d.error, belowPlane2 s = true
  sections : ∀ n, ∀ s ∈ d.sections n, IsExactSection s
  numLoaded : d.numLoaded ≤ intMax

theorem wafDiagnosticsOf_reproduces_iff {d : Diagnostics} :
    (wafDiagnosticsOf d).Reproduces d
      ↔
    (∀ s ∈ d.rulesetVersion, belowPlane2 s = true) ∧ (∀ s ∈ d.error, belowPlane2 s = true) ∧
      (∀ n, ∀ s ∈ d.sections n, IsExactSection s) ∧ d.numLoaded ≤ intMax := by
  have hsections : ∀ n, Option.Rel SectionInfo.Reproduces ((wafDiagnosticsOf d).sectionNamed n)
      (d.sections n) ↔ ∀ s ∈ d.sections n, IsExactSection s := by
    intro n
    rw [sectionNamed_wafDiagnosticsOf]
    exact sections_reproduces_iff (d.sections n)
  rw [← option_map_jstringOf_eq_iff, ← option_map_jstringOf_eq_iff]
  constructor
  . intro h
    refine ⟨h.rulesetVersion, h.error, fun n => (hsections n).mp (h.sections n), ?_⟩
    rw [← toInt32_natCast_eq_iff, ← getNumConfigOK_wafDiagnosticsOf]
    exact h.numConfigOK
  . intro ⟨hrulesetVersion, herror, hexact, hnumLoaded⟩
    have hreproduces := fun n => (hsections n).mpr (hexact n)
    refine ⟨hrulesetVersion, herror, hreproduces, ?_, getAllErrors_of_reproduces hreproduces⟩
    rw [getNumConfigOK_wafDiagnosticsOf]
    exact (toInt32_natCast_eq_iff d.numLoaded).mpr hnumLoaded

/--
A message of the errors with an empty list is not reproduced: its list is null.
-/
theorem outputConvertDiagnosticsChecked_reproduces_iff
    {getString : DdwafObject → Option (List UInt8)}
    (hget : ∀ s, getString (.string s) = some s) {array : List (List UInt8 × DdwafObject)}
    {d : Diagnostics} (h : IsDiagnostics array d) :
    (∃ w, outputConvertDiagnosticsChecked getString (.map array) = .ok w ∧ w.Reproduces d)
      ↔
    d.IsReproducible := by
  simp only [outputConvertDiagnosticsChecked_iff hget h]
  constructor
  . intro ⟨w, ⟨hfits, hw⟩, hreproduces⟩
    rw [hw, wafDiagnosticsOf_reproduces_iff] at hreproduces
    have ⟨hrulesetVersion, herror, hsections, hnumLoaded⟩ := hreproduces
    exact ⟨hfits, hrulesetVersion, herror, hsections, hnumLoaded⟩
  . intro h
    refine ⟨_, ⟨h.fits, rfl⟩, ?_⟩
    rw [wafDiagnosticsOf_reproduces_iff]
    exact ⟨h.rulesetVersion, h.error, h.sections, h.numLoaded⟩

def stringOf : DdwafObject → Option (List UInt8)
  | .string stringValue => some stringValue
  | _ => none

def errorsDiagnostics (es : Errors) : Diagnostics :=
  {
    rulesetVersion := none
    error := none
    sections := fun n =>
      match n with
      | .rules => some ⟨none, [], [], [], [], es⟩
      | _ => none
  }

def errorsArray (es : Errors) : List (List UInt8 × DdwafObject) :=
  [(cstr "rules", .map [(cstr "errors", errorMap es)])]

theorem isDiagnostics_errorsArray (es : Errors) :
    IsDiagnostics (errorsArray es) (errorsDiagnostics es) := by
  refine ⟨rfl, rfl, ?_⟩
  intro n
  cases n with
  | rules =>
    apply Option.Rel.some
    constructor
    exact ⟨rfl, .inr ⟨rfl, rfl⟩, .inr ⟨rfl, rfl⟩, .inr ⟨rfl, rfl⟩, .inr ⟨rfl, rfl⟩, .inl rfl,
      fun h => absurd rfl h⟩
  | customRules | rulesData | rulesOverride | exclusions | exclusionData | actions | processors
  | scanners => exact Option.Rel.none

theorem outputConvertDiagnosticsChecked_reproduces_errors :
    (∃ w, outputConvertDiagnosticsChecked stringOf
        (.map (errorsArray [(cstr "missing key", [cstr "r1", cstr "r2"])])) = .ok w ∧
          w.Reproduces (errorsDiagnostics [(cstr "missing key", [cstr "r1", cstr "r2"])]))
      ↔
    (errorsDiagnostics [(cstr "missing key", [cstr "r1", cstr "r2"])]).IsReproducible :=
  outputConvertDiagnosticsChecked_reproduces_iff (fun _ => rfl) (isDiagnostics_errorsArray _)

theorem outputConvertDiagnosticsChecked_emptyList :
    IsDiagnostics (errorsArray [(cstr "e", [])]) (errorsDiagnostics [(cstr "e", [])]) ∧
    ∃ w, outputConvertDiagnosticsChecked stringOf (.map (errorsArray [(cstr "e", [])])) = .ok w ∧
      w.getAllErrors = .error (.thrown ⟨.other "NullPointerException", ""⟩) ∧
      ¬w.Reproduces (errorsDiagnostics [(cstr "e", [])]) := by
  refine ⟨isDiagnostics_errorsArray _, _, rfl, rfl, ?_⟩
  intro h
  have ⟨m, hm, _⟩ := h.allErrors
  cases hm

end Ddwaf
