import Ddwaf.Lib.LinkedMap
import Ddwaf.Native.DdwafObject
import Ddwaf.Native.Utf16Utf8.Impl

/-!
This module contains the part of `output.c` that turns an object into Java objects. Java allocation
succeeds throughout.
-/

namespace Ddwaf

/--
A `Long` is given by its value, a `Double` by its bits, and a `LinkedHashMap` by its entries.
-/
inductive JObject where
  | null
  | long (value : Int)
  | double (value : UInt64)
  | boolean (value : Bool)
  | string (value : List UInt16)
  | list (elements : List JObject)
  | map (entries : List (List UInt16 × JObject))

mutual

def convertDdwafObjectToJobject : DdwafObject → Native JObject
  | .invalid => throwRte "Unsupported ddwaf object type"
  | .signed intValue => .ok (.long intValue.toInt)
  | .unsigned uintValue => .ok (.long uintValue.toInt64.toInt)
  | .float f64 => .ok (.double f64)
  | .bool boolean => .ok (.boolean boolean)
  | .string stringValue => do return .string (← javaUtf8ToJstringChecked .total stringValue)
  | .array array =>
    if array.length > intMax then
      throwRte "Too many elements in ddwaf array"
    else do
      return .list (← convertElements array [])
  | .map array => do return .map (← convertEntries array [])
  -- the switch has no case for this type
  | .null => throwRte "Unknown ddwaf object type"

def convertElements (array : List DdwafObject) (ret : List JObject) : Native (List JObject) :=
  match array with
  | [] => .ok ret
  | o :: rest => do
    let elem ← convertDdwafObjectToJobject o
    convertElements rest (ret ++ [elem])

def convertEntries (array : List (List UInt8 × DdwafObject)) (ret : List (List UInt16 × JObject)) :
    Native (List (List UInt16 × JObject)) :=
  match array with
  | [] => .ok ret
  | (parameterName, elem) :: rest => do
    let key ← javaUtf8ToJstringChecked .total parameterName
    let value ← convertDdwafObjectToJobject elem
    convertEntries rest (LinkedMap.put ret key value)

end

end Ddwaf
