import Ddwaf.Native.Output.ConvertAttributes.Impl
import Ddwaf.WafDiagnostics.Impl

/-!
This module contains the part of `output.c` that turns the diagnostics of a configuration into a
`WafDiagnostics`. Allocation succeeds throughout.
-/

namespace Ddwaf

def mapGetObjectChecked (obj : DdwafObject) (str : String) : Native (Option DdwafObject) :=
  match obj with
  | .map array => .ok ((array.find? fun o => o.1 = cstr str).map Prod.snd)
  | _ => throwRte "ddwaf map expected"

section Strings

-- `ddwaf_object_get_string`
variable (getString : DdwafObject → Option (List UInt8))

def mapGetStringChecked (obj : DdwafObject) (str : String) : Native (Option (List UInt16)) := do
  match ← mapGetObjectChecked obj str with
  | none => return none
  | some o =>
    match getString o with
    | none => throwRte "ddwaf string expected"
    | some value => return some (← javaUtf8ToJstringChecked .total value)

def convertStrings (array : List DdwafObject) (ret : StringList) : Native StringList :=
  match array with
  | [] => .ok ret
  | elem :: rest =>
    match getString elem with
    | none => throwRte "expected array to contain only strings"
    | some str => do
      let jstr ← javaUtf8ToJstringChecked .total str
      convertStrings rest (ret ++ [jstr])

def convertStrarrChecked (o : DdwafObject) : Native (Option StringList) :=
  match o with
  | .array array =>
    if array.length = 0 then
      .ok none
    else if array.length > intMax then
      throwRte "too many elements in ddwaf array"
    else do
      return some (← convertStrings getString array [])
  | _ => throwRte "ddwaf array expected"

def mapGetObjectStrarrChecked (obj : DdwafObject) (str : String) : Native (Option StringList) := do
  match ← mapGetObjectChecked obj str with
  | none => return none
  | some o => convertStrarrChecked getString o

def convertErrors (array : List (List UInt8 × DdwafObject)) (ret : ErrorMap) : Native ErrorMap :=
  match array with
  | [] => .ok ret
  | (parameterName, .array elem) :: rest => do
    let jkey ← javaUtf8ToJstringChecked .total parameterName
    let strList ← convertStrarrChecked getString (.array elem)
    convertErrors rest (LinkedMap.put ret jkey strList)
  | _ :: _ => throwRte "ddwaf array expected inside map"

def mapGetObjectErrmapChecked (obj : DdwafObject) (str : String) : Native (Option ErrorMap) := do
  match ← mapGetObjectChecked obj str with
  | none => return none
  | some (.map array) =>
    if array.length = 0 then
      return none
    else
      return some (← convertErrors getString array [])
  | some _ => throwRte "ddwaf map expected"

def convertSectionChecked (root : DdwafObject) (sectName : String) :
    Native (Option SectionInfo) := do
  match ← mapGetObjectChecked root sectName with
  | none => return none
  | some sect =>
    match ← mapGetStringChecked getString sect "error" with
    | some error => return some (.ofError error)
    | none =>
      let loaded ← mapGetObjectStrarrChecked getString sect "loaded"
      let skipped ← mapGetObjectStrarrChecked getString sect "skipped"
      let failed ← mapGetObjectStrarrChecked getString sect "failed"
      let warnings ← mapGetObjectErrmapChecked getString sect "warnings"
      let errors ← mapGetObjectErrmapChecked getString sect "errors"
      return some (.ofLists skipped loaded failed warnings errors)

def outputConvertDiagnosticsChecked (obj : DdwafObject) : Native WafDiagnostics := do
  let rulesetVersion ← mapGetStringChecked getString obj "ruleset_version"
  let error ← mapGetStringChecked getString obj "error"
  let rules ← convertSectionChecked getString obj "rules"
  let customRules ← convertSectionChecked getString obj "custom_rules"
  let rulesData ← convertSectionChecked getString obj "rules_data"
  let rulesOverride ← convertSectionChecked getString obj "rules_override"
  let exclusions ← convertSectionChecked getString obj "exclusions"
  let exclusionData ← convertSectionChecked getString obj "exclusion_data"
  let actions ← convertSectionChecked getString obj "actions"
  let processors ← convertSectionChecked getString obj "processors"
  let scanners ← convertSectionChecked getString obj "scanners"
  return {
    error
    rulesetVersion
    rules
    customRules
    rulesData
    rulesOverride
    exclusions
    exclusionData
    actions
    processors
    scanners
  }

end Strings

end Ddwaf
