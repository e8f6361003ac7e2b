import Ddwaf.Native.Output.ConvertAttributes.Impl
import Ddwaf.Native.Utf16Utf8.Json.Impl

/-!
This module contains how `waf_jni.c` makes a `ResultWithData` of what a run of the WAF returns.
Allocation succeeds throughout.
-/

namespace Ddwaf

inductive DdwafRetCode where
  | errInternal
  | errInvalidObject
  | errInvalidArgument
  | ok
  | «match»
  | unknown (code : Int)
  deriving DecidableEq

inductive Waf.Result where
  | ok
  | «match»
  deriving DecidableEq

/-- A reference that is null is not there. The empty map of actions is a map without entries. -/
structure ResultWithData where
  result : Waf.Result
  data : Option (List UInt16)
  actions : JObject
  attributes : Option JObject
  keep : Bool
  duration : Int64
  events : Bool

/--
The pending exception becomes the cause of the new one. Left out are this cause and the epilog that
`_java_wrap_exc_relay` appends to the message, which names the function, the file and the line.
-/
def javaWrapExc (msg : String) : Native α → Native α
  | .error (.thrown _) => throwRte msg
  | r => r

section CreateResult

variable (ext : Externals)

def hasEvents (res : DdwafObject) : Bool :=
  match ext.ddwafObjectFind res (cstr "event") with
  | none => true
  | some (.bool boolean) => ext.ddwafObjectGetBool (.bool boolean)
  | some _ => false

def consumeJsonAndFree (obj : Option DdwafObject) : Native Unit :=
  match obj with
  | none => .ok ()
  | some obj => do
    match ← outputConvertJson .total obj with
    | (none, _) => return ()
    | (some seg, h) =>
      let len := jsonLength (h.chainFrom seg)
      let read ← jsonItRead ⟨h.chainFrom seg, 0⟩ len
      let _ ← store (len + 1) read.written [0]
      let _ ← jsonSegFree (some seg) h
      return ()

namespace createResultChecked

def actions (actionsObj : Option DdwafObject) : Native JObject :=
  match actionsObj with
  | some (.map array) =>
    if ext.ddwafObjectSize (.map array) = 0 then
      .ok (.map [])
    else
      javaWrapExc "Error creating actions map" (convertDdwafObjectToJobject (.map array))
  | _ => .ok (.map [])

def data (eventsObj : Option DdwafObject) : Native (Option (List UInt16)) :=
  match eventsObj with
  | some (.array array) =>
    if ext.ddwafObjectSize (.array array) > 0 then do
      match ← outputConvertJson .total (.array array) with
      | (none, _) =>
        .error (.thrown ⟨.illegalArgumentException, "failed converting events array to json"⟩)
      | (some seg, h) =>
        let dataObj ← javaWrapExc "Failed converting json to Java string"
          (javaJsonToJstringChecked .total (h.chainFrom seg))
        let _ ← jsonSegFree (some seg) h
        return some dataObj
    else
      .ok none
  | _ => .ok none

def attributes (attributesObj : Option DdwafObject) : Native (Option JObject) :=
  match attributesObj with
  | some (.map array) =>
    if ext.ddwafObjectSize (.map array) > 0 then do
      return some (← javaWrapExc "Failed encoding inferred attributes"
        (outputConvertAttributesChecked ext array))
    else
      .ok none
  | _ => .ok none

def keep (keepObj : Option DdwafObject) : Bool :=
  match keepObj with
  | some (.bool boolean) => ext.ddwafObjectGetBool (.bool boolean)
  | _ => true

def duration (durationObj : Option DdwafObject) : Int64 :=
  match durationObj with
  | some (.unsigned uintValue) => (ext.ddwafObjectGetUnsigned (.unsigned uintValue)).toInt64
  | _ => 0

end createResultChecked

def createResultChecked (code : DdwafRetCode) (ddwafResult : DdwafObject) :
    Native ResultWithData := do
  let find := ext.ddwafObjectFind ddwafResult
  let actionsJmap ← createResultChecked.actions ext (find (cstr "actions"))
  let dataObj ← createResultChecked.data ext (find (cstr "events"))
  consumeJsonAndFree (some ddwafResult)
  consumeJsonAndFree (find (cstr "attributes"))
  let attributes ← createResultChecked.attributes ext (find (cstr "attributes"))
  return {
    result := if code = .ok then .ok else .match
    data := dataObj
    actions := actionsJmap
    attributes
    keep := createResultChecked.keep ext (find (cstr "keep"))
    duration := createResultChecked.duration ext (find (cstr "duration"))
    events := hasEvents ext ddwafResult
  }

end CreateResult

end Ddwaf
