import Ddwaf.ByteBufferSerializer.Basic
import Ddwaf.Lib.Scientific
import Ddwaf.Native.Output.ConvertAttributes.Impl
import Ddwaf.Native.Output.ConvertJson.Impl

/-!
This module contains `debug_helpers.c`: the reading of an object from native memory into a text.
-/

namespace Ddwaf

namespace DebugHelpers

open Memory

abbrev Mapped := Nat → Option UInt8

def loadBytes (mem : Mapped) (a : Nat) : Nat → Native (List UInt8)
  | 0 => .ok []
  | n + 1 =>
    match mem a with
    | none => .error .outOfBounds
    | some b => do
      return b :: (← loadBytes mem (a + 1) n)

abbrev Fields := Nat → Nat → Native Nat

def ofPointer (mem : Mapped) (pwargs : Nat) : Fields := fun offset n => do
  return leValue (← loadBytes mem (pwargs + offset) n)

def ofCopy (root : List UInt8) : Fields := fun offset n => do
  return leValue (← loadRange root offset n)

def parameterName (pwargs : Fields) : Native Nat := pwargs 0 8

def parameterNameLength (pwargs : Fields) : Native Nat := pwargs 8 8

def union (pwargs : Fields) : Native Nat := pwargs 16 8

def boolean (pwargs : Fields) : Native Nat := pwargs 16 1

def nbEntries (pwargs : Fields) : Native Nat := pwargs 24 8

def type (pwargs : Fields) : Native Nat := pwargs 32 4

def ddwafObjInvalid : Nat := 0

def ddwafObjSigned : Nat := 1

def ddwafObjUnsigned : Nat := 2

def ddwafObjString : Nat := 4

def ddwafObjArray : Nat := 8

def ddwafObjMap : Nat := 16

def ddwafObjBool : Nat := 32

def ddwafObjFloat : Nat := 64

def ddwafObjNull : Nat := 128

/-- Whether the `n`-th `realloc` succeeds for a size. No object is larger than `PTRDIFF_MAX`. -/
structure Realloc where
  succeeds : Nat → Nat → Bool
  lt : succeeds n size = true → size < 2 ^ 63

/-- The part of the memory that is filled is `buffer`, so that its length is `offset`. -/
structure HString where
  buffer : List UInt8
  capacity : Nat
  reallocs : Nat

def initialCapacity : Nat := 16

section HString

variable (realloc : Realloc)

def hstringEnsureExtraCapacity (str : HString) (dataSize : Nat) : Bool × HString :=
  let left := subSize str.capacity str.buffer.length
  if left < dataSize then
    let newCapacity := max (str.capacity * 2 % 2 ^ 64) ((str.capacity + dataSize) % 2 ^ 64)
    if newCapacity < str.capacity then
      (false, str)
    else if realloc.succeeds str.reallocs newCapacity then
      (true, { str with capacity := newCapacity, reallocs := str.reallocs + 1 })
    else
      (false, { str with reallocs := str.reallocs + 1 })
  else
    (true, str)

def hstringAppend (dataSize : Nat) (data : Native (List UInt8)) (str : HString) : Native HString :=
  if dataSize = 0 then
    .ok str
  else
    match hstringEnsureExtraCapacity realloc str dataSize with
    | (false, str) => .ok str
    | (true, str) => do
      return { str with buffer := ← store str.capacity str.buffer (← data) }

def hstringAppendConst (constant : String) (str : HString) : Native HString :=
  hstringAppend realloc (cstr constant).length (.ok (cstr constant)) str

def repeatChar (capacity : Nat) (c : UInt8) : Nat → List UInt8 → Native (List UInt8)
  | 0, buffer => .ok buffer
  | n + 1, buffer => do
    repeatChar capacity c n (← store capacity buffer [c])

def hstringRepeat (c : UInt8) (repeatTimes : Nat) (str : HString) : Native HString :=
  if repeatTimes = 0 then
    .ok str
  else
    match hstringEnsureExtraCapacity realloc str repeatTimes with
    | (false, str) => .ok str
    | (true, str) => do
      return { str with buffer := ← repeatChar str.capacity c repeatTimes str.buffer }

def appendPrinted (size : Nat) (text : List UInt8) (str : HString) : Native HString :=
  if text.length < size then
    hstringAppend realloc text.length (.ok text) str
  else
    .ok str

end HString

def formatE18 (f64 : UInt64) : List UInt8 :=
  let bits := f64.toNat
  let exponent := bits / 2 ^ 52 % 2 ^ 11
  let fraction := bits % 2 ^ 52
  let text :=
    if exponent = 2047 then
      if fraction = 0 then cstr "inf" else cstr "nan"
    else if exponent = 0 then
      if fraction = 0 then
        cstr "0.000000000000000000e+00"
      else
        Scientific.format 18 fraction (2 ^ 1074)
    else
      Scientific.format 18 ((2 ^ 52 + fraction) * 2 ^ exponent) (2 ^ 1075)
  if 2 ^ 63 ≤ bits then 0x2D :: text else text

section Write

variable (mem : Mapped) (realloc : Realloc)

def writeEach (write : Fields → HString → Native HString) (pwargs : Fields) (i : Nat) :
    Nat → HString → Native HString
  | 0, str => .ok str
  | n + 1, str => do
    let array ← union pwargs
    let str ← write (ofPointer mem (array + i * sizeofPwargs)) str
    writeEach write pwargs (i + 1) n str

def writeValue (write : Fields → HString → Native HString) (pwargs : Fields) (str : HString) :
    Native HString := do
  let type ← type pwargs
  if type = ddwafObjInvalid then
    hstringAppendConst realloc "<INVALID>\n" str
  else if type = ddwafObjNull then
    hstringAppendConst realloc "<NULL>\n" str
  else if type = ddwafObjSigned then do
    let str ← hstringAppendConst realloc "<SIGNED> " str
    let intValue := (UInt64.ofNat (← union pwargs)).toInt64
    let str ← appendPrinted realloc 21 (formatI64 intValue) str
    hstringAppendConst realloc "\n" str
  else if type = ddwafObjUnsigned then do
    let str ← hstringAppendConst realloc "<UNSIGNED> " str
    let uintValue := UInt64.ofNat (← union pwargs)
    let str ← appendPrinted realloc 21 (formatU64 uintValue) str
    hstringAppendConst realloc "\n" str
  else if type = ddwafObjFloat then do
    let str ← hstringAppendConst realloc "<FLOAT> " str
    let f64 := UInt64.ofNat (← union pwargs)
    let str ← appendPrinted realloc 26 (formatE18 f64) str
    hstringAppendConst realloc "\n" str
  else if type = ddwafObjBool then do
    let str ← hstringAppendConst realloc "<BOOL> " str
    if (← boolean pwargs) ≠ 0 then
      hstringAppendConst realloc "true\n" str
    else
      hstringAppendConst realloc "false\n" str
  else if type = ddwafObjString then do
    let str ← hstringAppendConst realloc "<STRING> " str
    let nbEntries ← nbEntries pwargs
    let str ← hstringAppend realloc nbEntries
      (do loadBytes mem (← union pwargs) nbEntries) str
    hstringAppendConst realloc "\n" str
  else if type = ddwafObjArray then do
    let str ← hstringAppendConst realloc "<ARRAY>\n" str
    writeEach mem write pwargs 0 (← nbEntries pwargs) str
  else if type = ddwafObjMap then do
    let str ← hstringAppendConst realloc "<MAP>\n" str
    writeEach mem write pwargs 0 (← nbEntries pwargs) str
  else
    hstringAppendConst realloc "<UNKNOWN>\n" str

def writeName (pwargs : Fields) (str : HString) : Native HString := do
  let name ← parameterName pwargs
  if name ≠ 0 then
    let length ← parameterNameLength pwargs
    let str ← hstringAppend realloc length (loadBytes mem name length) str
    hstringAppendConst realloc ": " str
  else
    return str

def maxDepth : Nat := 25

def hstringWritePwargs : Nat → Fields → HString → Native HString
  | 0, _, str => .ok str
  | n + 1, pwargs, str => do
    let str ← hstringRepeat realloc 0x20 ((maxDepth - n) * 2) str
    let str ← writeName mem realloc pwargs str
    writeValue mem realloc (hstringWritePwargs n) pwargs str

/--
The address of the direct buffer is `inputP`, or it is null. There is no string when `malloc` fails.
-/
def pwArgsBufferToString (malloc : Bool) (alloc : Alloc) (inputP : Nat) :
    Native (Option (List UInt16)) := do
  if inputP = 0 then
    throwRte "Not a DirectBuffer passed"
  else
    let root ← loadBytes mem inputP sizeofPwargs
    if malloc then
      let str ← hstringWritePwargs mem realloc (maxDepth + 1) (ofCopy root) ⟨[], initialCapacity, 0⟩
      return some (← javaUtf8ToJstringChecked alloc str.buffer)
    else
      return none

end Write

end DebugHelpers

end Ddwaf
