import Ddwaf.Native.DdwafObject
import Ddwaf.Native.Json.Impl

/-!
This module contains the part of `output.c` that writes an object as JSON.
-/

namespace Ddwaf

def decimal (n : Nat) : List UInt8 := (Nat.toDigits 10 n).map fun c => UInt8.ofNat c.toNat

def formatI64 (val : Int64) : List UInt8 :=
  if val.toInt < 0 then 0x2D :: decimal val.toInt.natAbs else decimal val.toInt.natAbs

def formatU64 (val : UInt64) : List UInt8 := decimal val.toNat

def sprintfStr (text : List UInt8) : Native (List UInt8) := do
  let _ ← store 21 [] (text ++ [0])
  return text

def jsonAppendSeparator (alloc : Alloc) (rest : List α) (curSeg : Option SegPtr) (h : JsonHeap) :
    Native (Option SegPtr × JsonHeap) :=
  if rest ≠ [] then jsonAppend alloc curSeg [0x2C] h else .ok (curSeg, h)

mutual

def convertJson (alloc : Alloc) (curObj : DdwafObject) (depth : Nat) (curSeg : Option SegPtr)
    (h : JsonHeap) : Native (Option SegPtr × JsonHeap) :=
  if depth > maxJsonDepth ∨ curSeg = none then
    .ok (none, h)
  else
    match curObj with
    | .invalid => .ok (none, h)
    | .signed val => do
      let str ← sprintfStr (formatI64 val)
      jsonAppend alloc curSeg str h
    | .unsigned val => do
      let str ← sprintfStr (formatU64 val)
      jsonAppend alloc curSeg str h
    | .string str => do
      let (curSeg, h) ← jsonAppend alloc curSeg [0x22] h
      let (curSeg, h) ← jsonEncodeStr alloc curSeg str h
      jsonAppend alloc curSeg [0x22] h
    | .array array => do
      let (curSeg, h) ← jsonAppend alloc curSeg [0x5B] h
      let (curSeg, h) ← convertJsonArray alloc array (depth + 1) curSeg h
      jsonAppend alloc curSeg [0x5D] h
    | .map array => do
      let (curSeg, h) ← jsonAppend alloc curSeg [0x7B] h
      let (curSeg, h) ← convertJsonMap alloc array (depth + 1) curSeg h
      jsonAppend alloc curSeg [0x7D] h
    | .bool boolean =>
      if boolean then
        jsonAppend alloc curSeg [0x74, 0x72, 0x75, 0x65] h
      else
        jsonAppend alloc curSeg [0x66, 0x61, 0x6C, 0x73, 0x65] h
    -- the switch has no case for these types
    | .float _ => .ok (curSeg, h)
    | .null => .ok (curSeg, h)

def convertJsonArray (alloc : Alloc) (array : List DdwafObject) (depth : Nat)
    (curSeg : Option SegPtr) (h : JsonHeap) : Native (Option SegPtr × JsonHeap) :=
  match array with
  | [] => .ok (curSeg, h)
  | o :: rest => do
    let (curSeg, h) ← convertJson alloc o depth curSeg h
    let (curSeg, h) ← jsonAppendSeparator alloc rest curSeg h
    convertJsonArray alloc rest depth curSeg h

def convertJsonMap (alloc : Alloc) (array : List (List UInt8 × DdwafObject)) (depth : Nat)
    (curSeg : Option SegPtr) (h : JsonHeap) : Native (Option SegPtr × JsonHeap) :=
  match array with
  | [] => .ok (curSeg, h)
  | (parameterName, o) :: rest => do
    let (curSeg, h) ← jsonAppend alloc curSeg [0x22] h
    let (curSeg, h) ← jsonEncodeStr alloc curSeg parameterName h
    let (curSeg, h) ← jsonAppend alloc curSeg [0x22, 0x3A] h
    let (curSeg, h) ← convertJson alloc o depth curSeg h
    let (curSeg, h) ← jsonAppendSeparator alloc rest curSeg h
    convertJsonMap alloc rest depth curSeg h

end

def outputConvertJson (alloc : Alloc) (obj : DdwafObject) : Native (Option SegPtr × JsonHeap) :=
  match jsonSegNew alloc 0 .empty with
  | (none, h) => .ok (none, h)
  | (some initialSeg, h) => do
    let (seg, h) ← convertJson alloc obj 0 (some initialSeg) h
    if seg ≠ none then
      return (some initialSeg, h)
    else
      return (none, ← jsonSegFree (some initialSeg) h)

end Ddwaf
