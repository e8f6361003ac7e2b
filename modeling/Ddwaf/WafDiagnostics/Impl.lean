import Ddwaf.Lib.LinkedMap
import Ddwaf.Native.Basic

/-!
This module contains what `WafDiagnostics` says about the diagnostics of a configuration.
-/

namespace Ddwaf

abbrev StringList := List (List UInt16)

/-- The ids of each message. A list that is null is `none`. -/
abbrev ErrorMap := List (List UInt16 × Option StringList)

structure SectionInfo where
  error : Option (List UInt16)
  loaded : Option StringList
  failed : Option StringList
  skipped : Option StringList
  errors : Option ErrorMap
  warnings : Option ErrorMap
  deriving DecidableEq

namespace SectionInfo

def ofError (error : List UInt16) : SectionInfo :=
  ⟨some error, none, none, none, none, none⟩

def ofLists (skipped loaded failed : Option StringList) (warnings errors : Option ErrorMap) :
    SectionInfo :=
  ⟨none, loaded, failed, skipped, errors, warnings⟩

def getError (info : SectionInfo) : Option (List UInt16) := info.error

def getLoaded (info : SectionInfo) : StringList := info.loaded.getD []

def getFailed (info : SectionInfo) : StringList := info.failed.getD []

def getErrors (info : SectionInfo) : ErrorMap := info.errors.getD []

end SectionInfo

structure WafDiagnostics where
  error : Option (List UInt16)
  rulesetVersion : Option (List UInt16)
  rules : Option SectionInfo
  customRules : Option SectionInfo
  rulesData : Option SectionInfo
  rulesOverride : Option SectionInfo
  exclusions : Option SectionInfo
  exclusionData : Option SectionInfo
  actions : Option SectionInfo
  processors : Option SectionInfo
  scanners : Option SectionInfo
  deriving DecidableEq

def countLoadedForSection : Option SectionInfo → Int
  | some info => info.getLoaded.length
  | none => 0

namespace WafDiagnostics

def getNumConfigOK (d : WafDiagnostics) : Int :=
  let count := countLoadedForSection d.rules
  let count := toInt32 (count + countLoadedForSection d.customRules)
  let count := toInt32 (count + countLoadedForSection d.rulesData)
  let count := toInt32 (count + countLoadedForSection d.rulesOverride)
  let count := toInt32 (count + countLoadedForSection d.exclusions)
  let count := toInt32 (count + countLoadedForSection d.exclusionData)
  let count := toInt32 (count + countLoadedForSection d.actions)
  let count := toInt32 (count + countLoadedForSection d.processors)
  toInt32 (count + countLoadedForSection d.scanners)

def sections (d : WafDiagnostics) : List (Option SectionInfo) :=
  [d.rules, d.customRules, d.rulesData, d.rulesOverride, d.exclusions, d.exclusionData, d.actions,
    d.processors, d.scanners]

/-- As `Collectors.toMap` does it, which merges with `HashMap.merge` and takes no null value. -/
def mergeEntry (m : List (List UInt16 × StringList)) (e : List UInt16 × Option StringList) :
    Native (List (List UInt16 × StringList)) :=
  match e.2 with
  | some list => .ok (LinkedMap.merge (fun l1 l2 => l1 ++ l2) m e.1 list)
  | none => .error (.thrown ⟨.other "NullPointerException", ""⟩)

def getAllErrors (d : WafDiagnostics) : Native (List (List UInt16 × StringList)) :=
  ((d.sections.filterMap id).flatMap SectionInfo.getErrors).foldlM mergeEntry []

end WafDiagnostics

end Ddwaf
