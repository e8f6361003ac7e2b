import Ddwaf.Native.Output.ConvertJson.Impl
import Ddwaf.Native.Output.ConvertObject.Impl

/-!
This module contains the part of `output.c` that turns the attributes of a result into a Java map.
Allocation succeeds throughout.
-/

namespace Ddwaf

def cstr (s : String) : List UInt8 := s.toByteArray.data.toList

/-- What is used of libddwaf and of zlib, which are not part of the repository. -/
structure Externals where
  ddwafObjectFind : DdwafObject → List UInt8 → Option DdwafObject
  ddwafObjectSize : DdwafObject → Nat
  ddwafObjectGetBool : DdwafObject → Bool
  ddwafObjectGetUnsigned : DdwafObject → UInt64
  -- what `deflate` makes of the segments, unless it fails
  encodeGzip : List JsonSegment → Option (List UInt8)
  -- what is behind the `stringValue` of an object that is not a string
  noStringValue : DdwafObject → Native (List UInt8)

def Externals.stringValue (ext : Externals) : DdwafObject → Native (List UInt8)
  | .string stringValue => .ok stringValue
  | entry => ext.noStringValue entry

def base64TableEnc6bit : List UInt8 :=
  cstr "ABCDEFGHIJKLMNOPQRSTUVWXYZabcdefghijklmnopqrstuvwxyz0123456789+/"

def base64Enc (n : Nat) : UInt8 := base64TableEnc6bit.getD (n % 64) 0

def base64Encode : List UInt8 → List UInt8
  | a :: b :: c :: src =>
    base64Enc (a.toNat / 4) :: base64Enc (a.toNat * 16 + b.toNat / 16) ::
      base64Enc (b.toNat * 4 + c.toNat / 64) :: base64Enc c.toNat :: base64Encode src
  | [a, b] =>
    [base64Enc (a.toNat / 4), base64Enc (a.toNat * 16 + b.toNat / 16), base64Enc (b.toNat * 4), 0x3D]
  | [a] => [base64Enc (a.toNat / 4), base64Enc (a.toNat * 16), 0x3D, 0x3D]
  | [] => []

example : base64Encode (cstr "light w") = cstr "bGlnaHQgdw==" := by decide

def maxSizeOfSchema : Nat := 2500

def encodeJsonGzipBase64Checked (ext : Externals) (obj : DdwafObject) :
    Native (Option (List UInt16)) := do
  match ← outputConvertJson .total obj with
  -- too deep
  | (none, _) => return none
  | (some json, h) =>
    let segments := h.chainFrom json
    let _ ← jsonSegFree (some json) h
    if jsonLength segments > maxSizeOfSchema then
      return none
    else
      match ext.encodeGzip segments with
      | none => return none
      | some gzip => return some (← javaUtf8ToJstringChecked .total (base64Encode gzip))

def isDerivative (parameterName : List UInt8) (pre : String) : Bool :=
  (cstr pre).isPrefixOf parameterName

def convertAttribute (ext : Externals) (parameterName : List UInt8) (entry : DdwafObject) :
    Native (Option JObject) :=
  if isDerivative parameterName "_dd.appsec.s." then do
    return (← encodeJsonGzipBase64Checked ext entry).map .string
  else if isDerivative parameterName "_dd.appsec.fp." then do
    -- whatever the type of the entry
    return some (.string (← javaUtf8ToJstringChecked .total (← ext.stringValue entry)))
  else
    match entry with
    | .string stringValue => do
      return some (.string (← javaUtf8ToJstringChecked .total stringValue))
    | .signed intValue => .ok (some (.long intValue.toInt))
    | .unsigned uintValue => .ok (some (.long uintValue.toInt64.toInt))
    | .float f64 => .ok (some (.double f64))
    | .bool boolean => .ok (some (.boolean boolean))
    | .map array => do return some (← convertDdwafObjectToJobject (.map array))
    | .array _ | .invalid | .null => .ok none

def convertAttributes (ext : Externals) (array : List (List UInt8 × DdwafObject))
    (ret : List (List UInt16 × JObject)) : Native (List (List UInt16 × JObject)) :=
  match array with
  | [] => .ok ret
  | (parameterName, entry) :: rest => do
    let key ← javaUtf8ToJstringChecked .total parameterName
    match ← convertAttribute ext parameterName entry with
    | none => convertAttributes ext rest ret
    | some value => convertAttributes ext rest (LinkedMap.put ret key value)

def outputConvertAttributesChecked (ext : Externals) (array : List (List UInt8 × DdwafObject)) :
    Native JObject := do
  return .map (← convertAttributes ext array [])

end Ddwaf
