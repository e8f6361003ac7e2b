import Ddwaf.WafBuilder.Impl

/-!
This module contains the abstract map from Java paths to configurations, and what a call does to the
native builder when it is written in terms of the bytes that are left of its path.
-/

namespace Ddwaf

def nativePath (path : JString) : List UInt8 := ModifiedUtf8.truncated path.units

theorem loadRange_getStringUTFChars (path : JString) :
    loadRange (getStringUTFChars path) 0 (getStringLength path) = .ok (nativePath path) := by
  have h : 0 + getStringLength path ≤ (getStringUTFChars path).length := by
    rw [Nat.zero_add]
    exact ModifiedUtf8.length_le_encode path.units
  rw [loadRange_of_le h, List.drop_zero]
  rfl

theorem nativePath_inj_iff (p : JString) :
    (∀ q, nativePath q = nativePath p → q = p) ↔ ModifiedUtf8.Determined p.units = true := by
  rw [← ModifiedUtf8.truncated_inj_iff]
  constructor
  . intro h t ht
    have hlen : t.length = p.units.length := by
      rw [← ModifiedUtf8.length_truncated, ht, ModifiedUtf8.length_truncated]
    have heq := h ⟨t, hlen ▸ p.length_le⟩ ht
    exact congrArg JString.units heq
  . intro h q hq
    have heq := h q.units hq
    cases p
    cases q
    simpa using heq

inductive ConfigMap (C : Type) where
  | opened (configs : JString → Option C)
  | closed

section Spec

variable {C J D : Type} (calls : BuilderCalls C J D)

def report (accepted : Bool) : Native (Option D) → Except (BuilderStop D) (Option D)
  | .error e => .error (.stop e)
  | .ok info =>
    if accepted then .ok info else .error (.invalidRuleSet info "Invalid WAF configuration")

def ConfigMap.put (configs : JString → Option C) (path : JString) (config : J) :
    ConfigMap C × Except (BuilderStop D) (Option D) :=
  match calls.convertChecked config limits with
  | .error e => (.opened configs, .error (.stop e))
  | .ok object =>
    let r := calls.addOrUpdate (configs path) object
    (.opened (Function.update configs path r.1), report r.2.1 (resultDiagnostics calls r.2.2))

def ConfigMap.remove (configs : JString → Option C) (path : JString) :
    ConfigMap C × Except (BuilderStop D) (Option D) :=
  (.opened (Function.update configs path none),
    if calls.remove (configs path) then
      .ok none
    else
      WafBuilder.thrown .unclassifiedWafException "Failed to remove configuration")

def checkedPath : Option JString → Except (BuilderStop D) JString
  | none => .error (.stop (.thrown ⟨.illegalArgumentException, "Path cannot be null"⟩))
  | some path =>
    if path.units.isEmpty then
      .error (.stop (.thrown ⟨.illegalArgumentException, "Path cannot be empty"⟩))
    else
      .ok path

def ConfigMap.exec (m : ConfigMap C) (call : BuilderCall J) :
    ConfigMap C × Except (BuilderStop D) (Option D) :=
  match m, call with
  | _, .close => (.closed, .ok none)
  | .closed, _ => (.closed, WafBuilder.thrown .unclassifiedWafException "WafBuilder is offline")
  | .opened configs, .addOrUpdateConfig path config =>
    match config, checkedPath path with
    | none, _ =>
      (.opened configs, WafBuilder.thrown .illegalArgumentException "Config cannot be null")
    | some _, .error e => (.opened configs, .error e)
    | some config, .ok path => ConfigMap.put calls configs path config
  | .opened configs, .removeConfig path =>
    match checkedPath path with
    | .error e => (.opened configs, .error e)
    | .ok path => ConfigMap.remove calls configs path

def configMapSystem :
    System (ConfigMap C) (BuilderCall J × Except (BuilderStop D) (Option D)) where
  init m := m = .opened fun _ => none
  step m l m' := m.exec calls l.1 = (m', l.2)

end Spec

section Live

variable {C J D : Type} (calls : BuilderCalls C J D)

def WafBuilder.live (native : List UInt8 → Option C) : WafBuilder C where
  ptr := some (.live native)
  online := true

@[simp]
theorem live_online (native : List UInt8 → Option C) : (WafBuilder.live native).online = true := by
  rfl

theorem removeConfigNative_live (native : List UInt8 → Option C) (path : JString) :
    removeConfigNative calls (.live native) (some path) =
      (.live (Function.update native (nativePath path) none),
        .ok (calls.remove (native (nativePath path)))) := by
  simp only [removeConfigNative, getBuilderChecked, WafBuilder.live, ddwafBuilderRemoveConfig,
    loadRange_getStringUTFChars, ok_bind, pure_eq_ok]

theorem addOrUpdateConfigNative_live (native : List UInt8 → Option C) (path : JString)
    {config : J} {object : DdwafObject} (h : calls.convertChecked config limits = .ok object) :
    addOrUpdateConfigNative calls (.live native) (some path) config =
      (.live (Function.update native (nativePath path)
          (calls.addOrUpdate (native (nativePath path)) object).1),
        (resultDiagnostics calls (calls.addOrUpdate (native (nativePath path)) object).2.2).map
          fun diagnostics =>
            ((calls.addOrUpdate (native (nativePath path)) object).2.1, diagnostics)) := by
  simp only [addOrUpdateConfigNative, h, getBuilderChecked, WafBuilder.live,
    ddwafBuilderAddOrUpdateConfig, loadRange_getStringUTFChars, ok_bind, pure_eq_ok]

theorem removeConfig_live (native : List UInt8 → Option C) (path : Option JString) :
    (WafBuilder.live native).removeConfig calls path =
      match checkedPath path with
      | .error e => (.live native, .error e)
      | .ok path =>
        (.live (Function.update native (nativePath path) none),
          if calls.remove (native (nativePath path)) then
            .ok none
          else
            WafBuilder.thrown .unclassifiedWafException "Failed to remove configuration") := by
  cases path with
  | none => rfl
  | some path =>
    by_cases hempty : path.units.isEmpty
    . simp [WafBuilder.removeConfig, WafBuilder.live, checkedPath, hempty, WafBuilder.thrown]
    . have hnative := removeConfigNative_live calls native path
      simp only [WafBuilder.removeConfig, live_online, Bool.not_true, Bool.false_eq_true, if_false,
        hempty, hnative, checkedPath]
      cases calls.remove (native (nativePath path)) with
      | true => rfl
      | false => rfl

theorem addOrUpdateConfig_live (native : List UInt8 → Option C) (path : Option JString)
    (config : Option J) :
    (WafBuilder.live native).addOrUpdateConfig calls path config =
      match config, checkedPath path with
      | none, _ => (.live native, WafBuilder.thrown .illegalArgumentException "Config cannot be null")
      | some _, .error e => (.live native, .error e)
      | some config, .ok path =>
        match calls.convertChecked config limits with
        | .error e => (.live native, .error (.stop e))
        | .ok object =>
          let r := calls.addOrUpdate (native (nativePath path)) object
          (.live (Function.update native (nativePath path) r.1),
            report r.2.1 (resultDiagnostics calls r.2.2)) := by
  cases config with
  | none => rfl
  | some config =>
    cases path with
    | none => rfl
    | some path =>
      by_cases hempty : path.units.isEmpty
      . simp [WafBuilder.addOrUpdateConfig, WafBuilder.live, checkedPath, hempty, WafBuilder.thrown]
      . cases hconf : calls.convertChecked config limits with
        | error e =>
          simp [WafBuilder.addOrUpdateConfig, WafBuilder.live, checkedPath, hempty, hconf,
            addOrUpdateConfigNative]
        | ok object =>
          have hnative := addOrUpdateConfigNative_live calls native path hconf
          simp only [WafBuilder.addOrUpdateConfig, live_online, Bool.not_true, Bool.false_eq_true,
            if_false, hempty, hnative, checkedPath, hconf]
          generalize calls.addOrUpdate (native (nativePath path)) object = r
          cases resultDiagnostics calls r.2.2 with
          | error e => rfl
          | ok info => cases r.2.1 <;> rfl

end Live

end Ddwaf
