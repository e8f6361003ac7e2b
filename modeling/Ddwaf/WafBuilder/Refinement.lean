import Ddwaf.WafBuilder.Lemmas

/-!
This module contains the proof that the native builder holds the configurations of a map keyed by the
Java paths as long as no path is cut off.
-/

namespace Ddwaf

variable {C J D : Type}

structure SameConfigs (native : List UInt8 → Option C) (configs : JString → Option C) : Prop where
  eq : ∀ p, native (nativePath p) = configs p
  unique : ∀ k, native k ≠ none → ∃! p, nativePath p = k

inductive Agrees : WafBuilder C → ConfigMap C → Prop where
  | live (h : SameConfigs native configs) : Agrees (.live native) (.opened configs)
  | closed : Agrees ⟨some .destroyed, false⟩ .closed

def BuilderCall.path : BuilderCall J → Option JString
  | .addOrUpdateConfig path _ => path
  | .removeConfig path => path
  | .close => none

def BuilderCall.PathDetermined (call : BuilderCall J) : Prop :=
  ∀ p, call.path = some p → ModifiedUtf8.Determined p.units = true

theorem SameConfigs.update {native : List UInt8 → Option C} {configs : JString → Option C}
    (h : SameConfigs native configs) {p : JString} (hp : ModifiedUtf8.Determined p.units = true)
    (entry : Option C) :
    SameConfigs (Function.update native (nativePath p) entry) (Function.update configs p entry) := by
  have hinj := (nativePath_inj_iff p).mpr hp
  constructor
  . intro q
    by_cases hq : q = p
    . rw [hq, Function.update_self, Function.update_self]
    . have hne : nativePath q ≠ nativePath p := fun heq => hq (hinj q heq)
      rw [Function.update_of_ne hne, Function.update_of_ne hq]
      exact h.eq q
  . intro k hk
    by_cases hkey : k = nativePath p
    . refine ⟨p, hkey.symm, ?_⟩
      intro q hq
      exact hinj q (hq.trans hkey)
    . rw [Function.update_of_ne hkey] at hk
      exact h.unique k hk

theorem determined_of_checkedPath {path : Option JString} {p : JString}
    (hpath : ∀ p, path = some p → ModifiedUtf8.Determined p.units = true)
    (h : checkedPath (D := D) path = .ok p) : ModifiedUtf8.Determined p.units = true := by
  cases path with
  | none => contradiction
  | some q =>
    by_cases hempty : q.units.isEmpty
    . simp [checkedPath, hempty] at h
    . simp only [checkedPath, hempty, Bool.false_eq_true, if_false, Except.ok.injEq] at h
      rw [← h]
      exact hpath q rfl

theorem Agrees.exec (calls : BuilderCalls C J D) {b : WafBuilder C} {m : ConfigMap C}
    {call : BuilderCall J} (h : Agrees b m) (hcall : call.PathDetermined) :
    (b.exec calls call).2 = (m.exec calls call).2 ∧
      Agrees (b.exec calls call).1 (m.exec calls call).1 := by
  cases h with
  | closed =>
    cases call with
    | addOrUpdateConfig path config => exact ⟨rfl, .closed⟩
    | removeConfig path => exact ⟨rfl, .closed⟩
    | close => exact ⟨rfl, .closed⟩
  | @live native configs h =>
    cases call with
    | close => exact ⟨rfl, .closed⟩
    | removeConfig path =>
      simp only [WafBuilder.exec, removeConfig_live, ConfigMap.exec]
      cases hpath : checkedPath (D := D) path with
      | error e => exact ⟨rfl, .live h⟩
      | ok p =>
        have hp := determined_of_checkedPath hcall hpath
        simp only [ConfigMap.remove, h.eq p, true_and]
        exact .live (h.update hp none)
    | addOrUpdateConfig path config =>
      simp only [WafBuilder.exec, addOrUpdateConfig_live, ConfigMap.exec]
      cases config with
      | none => exact ⟨rfl, .live h⟩
      | some config =>
        cases hpath : checkedPath (D := D) path with
        | error e => exact ⟨rfl, .live h⟩
        | ok p =>
          have hp := determined_of_checkedPath hcall hpath
          cases hconf : calls.convertChecked config limits with
          | error e =>
            simp only [ConfigMap.put, hconf, true_and]
            exact .live h
          | ok object =>
            simp only [ConfigMap.put, hconf, h.eq p, true_and]
            exact .live (h.update hp _)

theorem wafBuilder_simulation (calls : BuilderCalls C J D) :
    ((wafBuilderSystem calls).restrict fun _ l _ => l.1.PathDetermined).Simulation
      (configMapSystem calls) Agrees := by
  constructor
  . intro b hb
    refine ⟨.opened fun _ => none, rfl, ?_⟩
    rw [show b = WafBuilder.new from hb]
    apply Agrees.live
    constructor
    . intro p
      rfl
    . intro k hk
      contradiction
  . rintro b ⟨call, r⟩ b' m hagrees ⟨hstep, hcall⟩
    have hexec := hagrees.exec calls hcall
    rw [show b.exec calls call = (b', r) from hstep] at hexec
    refine ⟨(m.exec calls call).1, ?_, hexec.2⟩
    exact Prod.ext rfl hexec.1.symm

def keepAll : BuilderCalls DdwafObject DdwafObject DdwafObject where
  convertChecked config _ := .ok config
  addOrUpdate _ config := (some config, true, .invalid)
  remove entry := entry.isSome
  outputConvertDiagnosticsChecked := .ok
  javaWrapExc _ e := e

/--
The path that libddwaf is given determines the Java path if all units of it are ASCII and none but
the last one is NUL, and a run with only such paths is one of the map keyed by the Java paths.
-/
theorem wafBuilder_refines (calls : BuilderCalls C J D) :
    (∀ p : JString,
      (∀ q : JString,
        loadRange (getStringUTFChars q) 0 (getStringLength q) =
          loadRange (getStringUTFChars p) 0 (getStringLength p)
            ↔
          q = p)
        ↔
      ModifiedUtf8.Determined p.units = true) ∧
    (∀ ls b, (wafBuilderSystem calls).Reaches ls b → (∀ l ∈ ls, l.1.PathDetermined) →
      ∃ m, (configMapSystem calls).Reaches ls m ∧ Agrees b m) := by
  constructor
  . intro p
    rw [← nativePath_inj_iff]
    simp only [loadRange_getStringUTFChars, Except.ok.injEq]
    constructor
    . intro h q hq
      exact (h q).mp hq
    . intro h q
      constructor
      . exact h q
      . intro hq
        rw [hq]
  . intro ls b hrun hls
    have hrestrict := hrun.restrict_of_forall (P := fun l => l.1.PathDetermined) hls
    exact (wafBuilder_simulation calls).reaches hrestrict

theorem step_keepAll (native : List UInt8 → Option DdwafObject) {p : JString} (c : DdwafObject)
    (hp : p.units.isEmpty = false) :
    (wafBuilderSystem keepAll).step (.live native) (.addOrUpdateConfig (some p) (some c), .ok none)
      (.live (Function.update native (nativePath p) (some c))) := by
  simp only [wafBuilderSystem, WafBuilder.exec, addOrUpdateConfig_live, checkedPath, hp]
  rfl

theorem step_keepAll_remove (native : List UInt8 → Option DdwafObject) {p : JString}
    (hp : p.units.isEmpty = false) :
    (wafBuilderSystem keepAll).step (.live native)
      (.removeConfig (some p), if (native (nativePath p)).isSome then .ok none
        else WafBuilder.thrown .unclassifiedWafException "Failed to remove configuration")
      (.live (Function.update native (nativePath p) none)) := by
  simp only [wafBuilderSystem, WafBuilder.exec, removeConfig_live, checkedPath, hp]
  rfl

theorem exec_keepAll (configs : JString → Option DdwafObject) {p : JString} (c : DdwafObject)
    (hp : p.units.isEmpty = false) :
    (ConfigMap.opened configs).exec keepAll (.addOrUpdateConfig (some p) (some c)) =
      (.opened (Function.update configs p (some c)), .ok none) := by
  simp only [ConfigMap.exec, checkedPath, hp]
  rfl

def pathA : JString := ⟨[0x61], by decide⟩

def pathB : JString := ⟨[0x62], by decide⟩

def putAndRemove :
    List (BuilderCall DdwafObject × Except (BuilderStop DdwafObject) (Option DdwafObject)) :=
  [(.addOrUpdateConfig (some pathA) (some (.bool true)), .ok none),
    (.addOrUpdateConfig (some pathB) (some (.bool false)), .ok none),
    (.removeConfig (some pathA), .ok none),
    (.removeConfig (some pathA),
      WafBuilder.thrown .unclassifiedWafException "Failed to remove configuration")]

theorem wafBuilder_refines_ascii :
    ∃ native, native (nativePath pathA) = none ∧ native (nativePath pathB) = some (.bool false) ∧
      ∃ m, (configMapSystem keepAll).Reaches putAndRemove m ∧ Agrees (.live native) m := by
  have hne : nativePath pathA ≠ nativePath pathB := by decide
  have hput : (wafBuilderSystem keepAll).Reaches _ _ :=
    .step (.step (.init rfl) (step_keepAll _ (p := pathA) (.bool true) rfl))
      (step_keepAll _ (p := pathB) (.bool false) rfl)
  have hrun := (hput.step (step_keepAll_remove _ (p := pathA) rfl)).step
    (step_keepAll_remove _ (p := pathA) rfl)
  refine ⟨_, ?_, ?_, (wafBuilder_refines keepAll).2 putAndRemove _ hrun ?_⟩
  . rw [Function.update_self]
  . rw [Function.update_of_ne hne.symm, Function.update_of_ne hne.symm, Function.update_self]
  . simp only [putAndRemove, List.forall_mem_cons, BuilderCall.PathDetermined, BuilderCall.path,
      Option.some.injEq, forall_eq']
    decide

def path1 : JString := ⟨[0xE9, 0x31], by decide⟩

def path2 : JString := ⟨[0xE9, 0x32], by decide⟩

def putBoth : List (BuilderCall DdwafObject × Except (BuilderStop DdwafObject) (Option DdwafObject)) :=
  [] ++ [(.addOrUpdateConfig (some path1) (some (.bool true)), .ok none)] ++
    [(.addOrUpdateConfig (some path2) (some (.bool false)), .ok none)]

theorem wafBuilder_collision :
    path1 ≠ path2 ∧
    loadRange (getStringUTFChars path1) 0 (getStringLength path1) =
      loadRange (getStringUTFChars path2) 0 (getStringLength path2) ∧
    ∃ b, (wafBuilderSystem keepAll).Reaches putBoth b ∧
      ∀ m, (configMapSystem keepAll).Reaches putBoth m → ¬Agrees b m := by
  have hne : path1 ≠ path2 := by decide
  refine ⟨hne, rfl, ?_⟩
  apply Exists.intro
  apply And.intro
  . exact .step (.step (.init rfl) (step_keepAll _ _ rfl)) (step_keepAll _ _ rfl)
  . intro m hm hagrees
    obtain ⟨m1, hm1, hstep2⟩ := System.reaches_concat_iff.mp hm
    obtain ⟨m0, hm0, hstep1⟩ := System.reaches_concat_iff.mp hm1
    have hinit : m0 = .opened fun _ => none := System.reaches_nil_iff.mp hm0
    have hexec1 : m0.exec keepAll _ = (m1, _) := hstep1
    rw [hinit, exec_keepAll _ _ rfl, Prod.mk.injEq] at hexec1
    have hexec2 : m1.exec keepAll _ = (m, _) := hstep2
    rw [← hexec1.1, exec_keepAll _ _ rfl, Prod.mk.injEq] at hexec2
    rw [← hexec2.1] at hagrees
    cases hagrees with
    | live h =>
      have h1 := h.eq path1
      have h2 := h.eq path2
      rw [Function.update_of_ne hne, Function.update_self] at h1
      rw [Function.update_self] at h2
      have hkey : nativePath path1 = nativePath path2 := rfl
      rw [hkey, h2] at h1
      cases h1

end Ddwaf
