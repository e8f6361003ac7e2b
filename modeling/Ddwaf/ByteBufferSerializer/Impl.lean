import Ddwaf.ByteBufferSerializer.Basic
import Mathlib.Logic.Function.Basic

/-!
This module contains `ByteBufferSerializer.serializeMore` and what it calls: the bump allocation of
records and strings in the segments of an arena, and the views through which records are written.
-/

namespace Ddwaf

open Memory

section Buffers

def modifyArena (f : Arena → Arena) : SerializerM Unit :=
  modify fun s => { s with arena := f s.arena }

def putBytes (b : ByteBuffer) (bs : List UInt8) : SerializerM ByteBuffer :=
  if b.limit < b.position + bs.length then
    throwJava .bufferOverflowException ""
  else do
    modify fun s =>
      { s with
        memory := write s.memory (b.address + b.position) bs
        written := (b.address + b.position, bs.length) :: s.written }
    return { b with position := b.position + bs.length }

def allocateDirect (alloc : Allocator) (capacity : Int) : SerializerM ByteBuffer := do
  if capacity < 0 then
    throwJava .illegalArgumentException "capacity < 0"
  else
    let s ← get
    match alloc.address s.regions capacity.toNat with
    | none => throwJava .outOfMemoryError "Direct buffer memory"
    | some address =>
      modify fun s =>
        { s with
          memory := fill s.memory address capacity.toNat 0
          regions := (address, capacity.toNat) :: s.regions }
      return ⟨address, capacity.toNat, capacity.toNat, 0⟩

def handOut (address length : Nat) : SerializerM Unit :=
  modify fun s => { s with handedOut := (address, length) :: s.handedOut }

/--
The loops of `allocatePWArgsBuffer` and `writeStringUnlimited`. When `capacity` overflows, no new
segment has room, and the loop goes on until there is no memory left for another one.
-/
def untilFits (attempt : SerializerM (Option α)) (change : SerializerM Unit) : Nat → SerializerM α
  | 0 => throwJava .outOfMemoryError "Java heap space"
  | fuel + 1 => do
    match ← attempt with
    | some a => return a
    | none => do
      change
      untilFits attempt change fuel

end Buffers

namespace PWArgsBuffer

def new (buffer : ByteBuffer) (start : Nat) : SerializerM Nat := do
  let buffer ← liftNative (buffer.setLimit (start + sizeofPwargs))
  let buffer ← liftNative (buffer.setPosition start)
  let s ← get
  set { s with views := Function.update s.views s.nextView buffer, nextView := s.nextView + 1 }
  return s.nextView

def setBuffer (v : Nat) (buffer : ByteBuffer) : SerializerM Unit :=
  modify fun s => { s with views := Function.update s.views v buffer }

def reset (v start : Nat) : SerializerM Unit := do
  let buffer ← liftNative (((← get).views v).setLimit (start + sizeofPwargs))
  setBuffer v buffer
  let buffer ← liftNative (buffer.setPosition start)
  setBuffer v buffer

def put (v : Nat) (bs : List UInt8) : SerializerM Unit := do
  let buffer ← putBytes ((← get).views v) bs
  setBuffer v buffer

def putLong (v value : Nat) : SerializerM Unit := put v (leBytes 8 value)

def putInt (v value : Nat) : SerializerM Unit := put v (leBytes 4 value)

end PWArgsBuffer

namespace PWArgsArrayBuffer

def new (buffer : ByteBuffer) (start num : Nat) : SerializerM Nat := do
  if num = 0 then
    throwJava .illegalArgumentException ""
  else
    let buffer ← liftNative (buffer.setLimit (start + num * sizeofPwargs))
    let buffer ← liftNative (buffer.setPosition start)
    let s ← get
    set { s with
      arrays := Function.update s.arrays s.nextArray ⟨buffer, start, num, []⟩
      nextArray := s.nextArray + 1 }
    return s.nextArray

def update (a : Nat) (f : PWArgsArrayBuffer → PWArgsArrayBuffer) : SerializerM Unit :=
  modify fun s => { s with arrays := Function.update s.arrays a (f (s.arrays a)) }

def reset (a start num : Nat) : SerializerM Unit := do
  update a fun array => { array with start := start, num := num }
  let buffer ← liftNative (((← get).arrays a).buffer.setLimit (start + num * sizeofPwargs))
  update a fun array => { array with buffer := buffer }
  let buffer ← liftNative (buffer.setPosition start)
  update a fun array => { array with buffer := buffer }

def addViews (a i : Nat) : Nat → SerializerM Unit
  | 0 => pure ()
  | n + 1 => do
    let array := (← get).arrays a
    let v ← PWArgsBuffer.new array.buffer (array.start + i * sizeofPwargs)
    update a fun array => { array with pwArgsBuffers := array.pwArgsBuffers ++ [v] }
    addViews a i n

def getView (array : Option Nat) (i : Nat) : SerializerM Nat := do
  match array with
  | none => throwJava .arrayIndexOutOfBoundsException ""
  | some a =>
    if ((← get).arrays a).num ≤ i then
      throwJava .arrayIndexOutOfBoundsException ""
    else
      addViews a i (i + 1 - ((← get).arrays a).pwArgsBuffers.length)
      let array := (← get).arrays a
      match array.pwArgsBuffers[i]? with
      | none => throwJava .indexOutOfBoundsException ""
      | some v => do
        PWArgsBuffer.reset v (array.start + i * sizeofPwargs)
        return v

def getAddress (array : Option Nat) : SerializerM Nat := do
  match array with
  | none => return 0
  | some a =>
    let array := (← get).arrays a
    return array.buffer.address + array.start

end PWArgsArrayBuffer

namespace PWArgsSegment

def new (alloc : Allocator) (capacity : Nat) : SerializerM PWArgsSegment := do
  let buffer ← allocateDirect alloc (toInt32 (sizeofPwargs * capacity))
  return ⟨buffer, [], 0⟩

def left (segment : PWArgsSegment) : Nat :=
  (segment.buffer.capacity - segment.buffer.position) / sizeofPwargs

def clear (segment : PWArgsSegment) : PWArgsSegment :=
  { segment with buffer := segment.buffer.clear, idxOfNextUnusedPWArgsArrayBuffer := 0 }

end PWArgsSegment

namespace StringsSegment

def new (alloc : Allocator) (capacity : Nat) : SerializerM StringsSegment := do
  let buffer ← allocateDirect alloc capacity
  return ⟨buffer, buffer.address⟩

def left (segment : StringsSegment) : Nat := segment.buffer.capacity - segment.buffer.position

def clear (segment : StringsSegment) : StringsSegment :=
  { segment with buffer := segment.buffer.clear }

end StringsSegment

namespace Arena

def new (alloc : Allocator) : SerializerM Arena := do
  let e ← PWArgsSegment.new alloc pwargsMinSegmentsSize
  let s ← StringsSegment.new alloc stringsMinSegmentsSize
  return ⟨[e], 0, none, [s], 0, none⟩

def reset (arena : Arena) : Arena :=
  { arena with
    pwargsSegments := arena.pwargsSegments.map PWArgsSegment.clear
    stringsSegments := arena.stringsSegments.map StringsSegment.clear
    curPWArgsSegment := 0
    curStringsSegment := 0
    idxOfFirstUsedPWArgsSegment := none }

def getPWArgsSegment (k : Nat) : SerializerM PWArgsSegment := do
  match (← get).arena.pwargsSegments[k]? with
  | none => throwJava .indexOutOfBoundsException ""
  | some segment => return segment

def setPWArgsSegment (k : Nat) (segment : PWArgsSegment) : SerializerM Unit :=
  modifyArena fun arena => { arena with pwargsSegments := arena.pwargsSegments.set k segment }

def getStringsSegment (k : Nat) : SerializerM StringsSegment := do
  match (← get).arena.stringsSegments[k]? with
  | none => throwJava .indexOutOfBoundsException ""
  | some segment => return segment

def setStringsSegment (k : Nat) (segment : StringsSegment) : SerializerM Unit :=
  modifyArena fun arena => { arena with stringsSegments := arena.stringsSegments.set k segment }

def arrayBuffer (k : Nat) (segment : PWArgsSegment) (num : Nat) (getAddressCompatible : Bool) :
    SerializerM Nat := do
  let position := segment.buffer.position
  if getAddressCompatible then
    PWArgsArrayBuffer.new segment.buffer.slice 0 num
  else
    match segment.pwargsArrays[segment.idxOfNextUnusedPWArgsArrayBuffer]? with
    | none => do
      let array ← PWArgsArrayBuffer.new segment.buffer position num
      setPWArgsSegment k
        { segment with
          pwargsArrays := segment.pwargsArrays ++ [array]
          idxOfNextUnusedPWArgsArrayBuffer := segment.idxOfNextUnusedPWArgsArrayBuffer + 1 }
      return array
    | some array => do
      PWArgsArrayBuffer.reset array position num
      setPWArgsSegment k
        { segment with
          idxOfNextUnusedPWArgsArrayBuffer := segment.idxOfNextUnusedPWArgsArrayBuffer + 1 }
      return array

def allocate (k num : Nat) (getAddressCompatible : Bool) : SerializerM (Option Nat) := do
  let segment ← getPWArgsSegment k
  if segment.left < num then
    return none
  else
    let position := segment.buffer.position
    let array ← arrayBuffer k segment num getAddressCompatible
    let segment ← getPWArgsSegment k
    let buffer ← liftNative (segment.buffer.setPosition (position + num * sizeofPwargs))
    setPWArgsSegment k { segment with buffer := buffer }
    handOut (buffer.address + position) (num * sizeofPwargs)
    return some array

def changePWArgsSegment (alloc : Allocator) (capacity : Nat) : SerializerM Unit := do
  let arena := (← get).arena
  if arena.curPWArgsSegment = arena.pwargsSegments.length - 1 then
    let e ← PWArgsSegment.new alloc capacity
    modifyArena fun arena =>
      { arena with
        pwargsSegments := arena.pwargsSegments ++ [e]
        curPWArgsSegment := arena.curPWArgsSegment + 1 }
  else
    modifyArena fun arena => { arena with curPWArgsSegment := arena.curPWArgsSegment + 1 }

def setFirstUsed : SerializerM Unit :=
  modifyArena fun arena =>
    match arena.idxOfFirstUsedPWArgsSegment with
    | none => { arena with idxOfFirstUsedPWArgsSegment := some arena.curPWArgsSegment }
    | some _ => arena

def allocatePWArgsBuffer (alloc : Allocator) (num : Nat) (getAddressCompatible : Bool) :
    SerializerM Nat := do
  let arena := (← get).arena
  let array ← untilFits
    (do allocate (← get).arena.curPWArgsSegment num getAddressCompatible)
    (changePWArgsSegment alloc (max pwargsMinSegmentsSize num))
    (arena.pwargsSegments.length - arena.curPWArgsSegment + alloc.newSegments)
  setFirstUsed
  return array

def changeStringsSegment (alloc : Allocator) (capacity : Nat) : SerializerM Unit := do
  let arena := (← get).arena
  if arena.curStringsSegment = arena.stringsSegments.length - 1 then
    let s ← StringsSegment.new alloc capacity
    modifyArena fun arena =>
      { arena with
        stringsSegments := arena.stringsSegments ++ [s]
        curStringsSegment := arena.curStringsSegment + 1 }
  else
    modifyArena fun arena => { arena with curStringsSegment := arena.curStringsSegment + 1 }

end Arena

def utf8 (units : List UInt16) : List UInt8 := Utf8.encode (Utf16.decode units)

/--
The units that are encoded when `charAt` throws at index `i`: a leading surrogate waits for the next
unit.
-/
def unitsBefore (units : List UInt16) (i : Nat) : List UInt16 :=
  let before := units.take i
  match before.getLast? with
  | some u => if Utf16.isLead u then before.dropLast else before
  | none => before

namespace Arena

def putString (k : Nat) (bs : List UInt8) : SerializerM Unit := do
  let segment ← getStringsSegment k
  let buffer ← putBytes segment.buffer bs
  setStringsSegment k { segment with buffer := buffer }

def encode (k : Nat) (s : CharSeq) : SerializerM Unit := do
  match s.fault with
  | none => putString k (utf8 s.units)
  | some (i, exc) =>
    if i < s.units.length then
      putString k (utf8 (unitsBefore s.units i))
      throw (.thrown exc)
    else
      putString k (utf8 s.units)

def encodeRemaining (k : Nat) (s : CharSeq) (maxBytes : Nat) : SerializerM Unit :=
  if maxBytes > 1 ∧ s.units ≠ [] then encode k s else pure ()

def writeNulTerminated (k : Nat) (s : CharSeq) (maxBytes : Nat) :
    SerializerM (Option WrittenString) := do
  let segment ← getStringsSegment k
  if segment.left < maxBytes then
    return none
  else
    let position := segment.buffer.position
    let ptr := segment.base + position
    encodeRemaining k s maxBytes
    let bytesLen := (← getStringsSegment k).buffer.position - position
    putString k [0]
    handOut ptr (bytesLen + 1)
    return some ⟨ptr, bytesLen⟩

/--
The result is `none` when the string is too large. The wrapper that `s` is read through is always
set to the whole of it.
-/
def writeStringUnlimited (alloc : Allocator) (s : CharSeq) : SerializerM (Option WrittenString) := do
  let maxBytes := s.units.length * 3 + 1
  if intMax < maxBytes then
    return none
  else
    modifyArena fun arena => { arena with cachedWS := some (arena.cachedWS.getD ⟨0, 0⟩) }
    let arena := (← get).arena
    let str ← untilFits
      (do writeNulTerminated (← get).arena.curStringsSegment s maxBytes)
      (changeStringsSegment alloc (max stringsMinSegmentsSize maxBytes))
      (arena.stringsSegments.length - arena.curStringsSegment + alloc.newSegments)
    modifyArena fun arena => { arena with cachedWS := none }
    return some str

def release (str : WrittenString) : SerializerM Unit :=
  modifyArena fun arena => { arena with cachedWS := some str }

end Arena

def pwiInvalid : Nat := 0

def pwiSignedNumber : Nat := 1

def pwiUnsignedNumber : Nat := 2

def pwiString : Nat := 4

def pwiArray : Nat := 8

def pwiMap : Nat := 16

def pwiBool : Nat := 32

def pwiFloat : Nat := 64

def pwiNull : Nat := 128

namespace PWArgsBuffer

variable (alloc : Allocator)

def putParameterName (v : Nat) (parameterName : Option (List UInt16)) : SerializerM Bool := do
  match parameterName with
  | none => do
    putLong v 0
    putLong v 0
    return true
  | some name => do
    match ← Arena.writeStringUnlimited alloc ⟨name, none⟩ with
    | none => return false
    | some writtenString => do
      putLong v writtenString.ptr
      putLong v writtenString.utf8len
      Arena.release writtenString
      return true

def putValue (v : Nat) (union : List UInt8) (nbEntries type : Nat) : SerializerM Unit := do
  put v union
  putLong v nbEntries
  putInt v type

def writeScalar (v : Nat) (parameterName : Option (List UInt16)) (union : List UInt8)
    (type : Nat) : SerializerM Bool := do
  if ← putParameterName alloc v parameterName then
    putValue v union 0 type
    return true
  else
    return false

def writeNull (v : Nat) (parameterName : Option (List UInt16)) : SerializerM Bool :=
  writeScalar alloc v parameterName (leBytes 8 0) pwiNull

def boolTrueRepr : List UInt8 := [1, 0, 0, 0, 0, 0, 0, 0]

def boolFalseRepr : List UInt8 := [0, 0, 0, 0, 0, 0, 0, 0]

def writeBool (v : Nat) (parameterName : Option (List UInt16)) (value : Bool) : SerializerM Bool :=
  writeScalar alloc v parameterName (if value then boolTrueRepr else boolFalseRepr) pwiBool

def writeLong (v : Nat) (parameterName : Option (List UInt16)) (value : Int64) : SerializerM Bool :=
  writeScalar alloc v parameterName (leBytes 8 value.toUInt64.toNat) pwiSignedNumber

def writeDouble (v : Nat) (parameterName : Option (List UInt16)) (value : UInt64) :
    SerializerM Bool :=
  writeScalar alloc v parameterName (leBytes 8 value.toNat) pwiFloat

def writeString (v : Nat) (parameterName : Option (List UInt16)) (value : CharSeq) :
    SerializerM Bool := do
  if ← putParameterName alloc v parameterName then
    match ← Arena.writeStringUnlimited alloc value with
    | none => return false
    | some writtenString => do
      putValue v (leBytes 8 writtenString.ptr) writtenString.utf8len pwiString
      Arena.release writtenString
      return true
  else
    return false

/-- The outer `none` is the null of a string that is too large, the inner one is `EMPTY_BUFFER`. -/
def writeArrayOrMap (v : Nat) (parameterName : Option (List UInt16)) (numElements type : Nat) :
    SerializerM (Option (Option Nat)) := do
  if ← putParameterName alloc v parameterName then
    if numElements = 0 then
      putValue v (leBytes 8 0) 0 type
      return some none
    else
      let pwArgsArrayBuffer ← Arena.allocatePWArgsBuffer alloc numElements false
      let address ← PWArgsArrayBuffer.getAddress (some pwArgsArrayBuffer)
      if address = 0 then
        return none
      else
        putValue v (leBytes 8 address) numElements type
        return some (some pwArgsArrayBuffer)
  else
    return none

def writeArray (v : Nat) (parameterName : Option (List UInt16)) (numElements : Nat) :
    SerializerM (Option (Option Nat)) :=
  writeArrayOrMap alloc v parameterName numElements pwiArray

def writeMap (v : Nat) (parameterName : Option (List UInt16)) (numElements : Nat) :
    SerializerM (Option (Option Nat)) :=
  writeArrayOrMap alloc v parameterName numElements pwiMap

end PWArgsBuffer

namespace ByteBufferSerializer

def incrementMetric (f : WafMetrics → WafMetrics) : SerializerM Unit :=
  modify fun s => { s with metrics := s.metrics.map f }

def incrementTruncatedStringTooLongCount : SerializerM Unit :=
  incrementMetric fun m => { m with truncatedStringTooLongCount := m.truncatedStringTooLongCount + 1 }

def incrementTruncatedListMapTooLargeCount : SerializerM Unit :=
  incrementMetric fun m =>
    { m with truncatedListMapTooLargeCount := m.truncatedListMapTooLargeCount + 1 }

def incrementTruncatedObjectTooDeepCount : SerializerM Unit :=
  incrementMetric fun m =>
    { m with truncatedObjectTooDeepCount := m.truncatedObjectTooDeepCount + 1 }

variable (alloc : Allocator) (limits : WafLimits)

def truncate (units : List UInt16) : SerializerM (List UInt16) := do
  if units.length > limits.maxStringSize then
    incrementTruncatedStringTooLongCount
    return units.take limits.maxStringSize
  else
    return units

def truncateParameterName (parameterName : Option (List UInt16)) :
    SerializerM (Option (List UInt16)) := do
  match parameterName with
  | none => return none
  | some name => return some (← truncate limits name)

def decrementRemainingElements : SerializerM Unit :=
  modify fun s => { s with remainingElements := toInt32 (s.remainingElements - 1) }

def countCutOff : SerializerM Unit := do
  if (← get).remainingElements < 0 then
    incrementTruncatedListMapTooLargeCount
  else
    incrementTruncatedObjectTooDeepCount

def writeCutOff (pwargsSlot : Nat) (parameterName : Option (List UInt16)) : SerializerM Unit := do
  countCutOff
  match ← PWArgsBuffer.writeMap alloc pwargsSlot parameterName 0 with
  | none => throwJava .runtimeException "Could not write map"
  | some _ => pure ()

def orThrow (msg : String) (res : SerializerM Bool) : SerializerM Unit := do
  if ← res then
    pure ()
  else
    throwJava .runtimeException msg

/--
This is `for (i = 0; iterator.hasNext() && i < size; i++)`, with `n` for `size - i`, and returns the
final `i`.
-/
def forEach (iterator : Nat → IterStep α) (body : Nat → α → SerializerM Unit) (i : Nat) :
    Nat → SerializerM Nat
  | 0 =>
    match iterator i with
    | .hasNextThrows exc => throw (.thrown exc)
    | _ => return i
  | n + 1 =>
    match iterator i with
    | .done => return i
    | .hasNextThrows exc => throw (.thrown exc)
    | .nextThrows exc => throw (.thrown exc)
    | .elem a => do
      body i a
      forEach iterator body (i + 1) n

def checkSize (i size : Nat) : SerializerM Unit :=
  if i ≠ size then
    throwJava .concurrentModificationException s!"i={i}, size={size}"
  else
    pure ()

/--
This is `while (iterator.hasNext() && size < maxSize)`, with `n` for `maxSize - size`, and returns
the final `size`.
-/
def countElements (iterator : Nat → IterStep α) (size : Nat) : Nat → SerializerM Nat
  | 0 =>
    match iterator size with
    | .hasNextThrows exc => throw (.thrown exc)
    | _ => return size
  | n + 1 =>
    match iterator size with
    | .done => return size
    | .hasNextThrows exc => throw (.thrown exc)
    | .nextThrows exc => throw (.thrown exc)
    | .elem _ => countElements iterator (size + 1) n

def arrayIterator (elements : List α) (i : Nat) : IterStep α :=
  match elements[i]? with
  | none => .done
  | some a => .elem a

def keyToString : JavaKey → SerializerM (Option (List UInt16))
  | .null => return some []
  | .toString s => return s
  | .throwing exc => throw (.thrown exc)

def clampSize (size : Nat) : SerializerM Nat := do
  return min size (← get).remainingElements.toNat

section Value

variable {ρ : Type} (rec : Nat → Option (List UInt16) → ρ → SerializerM Unit)

def serializeIterable (pwArgsSlot : Nat) (parameterName : Option (List UInt16))
    (iterator : Nat → IterStep ρ) (size : Nat) : SerializerM Unit := do
  match ← PWArgsBuffer.writeArray alloc pwArgsSlot parameterName size with
  | none => throwJava .runtimeException "Error serializing iterable"
  | some pwArgsArrayBuffer => do
    let i ← forEach iterator
      (fun i newObj => do
        let newSlot ← PWArgsArrayBuffer.getView pwArgsArrayBuffer i
        rec newSlot none newObj)
      0 size
    checkSize i size

def serializeMap (pwargsSlot : Nat) (parameterName : Option (List UInt16))
    (iterator : Nat → IterStep (JavaKey × ρ)) (size : Nat) : SerializerM Unit := do
  match ← PWArgsBuffer.writeMap alloc pwargsSlot parameterName size with
  | none => throwJava .runtimeException "Could not write map"
  | some pwArgsArrayBuffer => do
    let i ← forEach iterator
      (fun i entry => do
        let newSlot ← PWArgsArrayBuffer.getView pwArgsArrayBuffer i
        let key ← keyToString entry.1
        rec newSlot key entry.2)
      0 size
    checkSize i size

def serializeValue (pwargsSlot : Nat) (parameterName : Option (List UInt16)) (value : JavaValue ρ) :
    SerializerM Unit :=
  match value with
  | .null => orThrow "Error writing null value" (PWArgsBuffer.writeNull alloc pwargsSlot parameterName)
  | .charSequence s => do
    let units ← truncate limits s.units
    orThrow "Could not write string"
      (PWArgsBuffer.writeString alloc pwargsSlot parameterName ⟨units, s.fault⟩)
  | .floating value =>
    orThrow "Could not write number" (PWArgsBuffer.writeDouble alloc pwargsSlot parameterName value)
  | .number value =>
    orThrow "Could not write number" (PWArgsBuffer.writeLong alloc pwargsSlot parameterName value)
  | .collection size iterator => do
    serializeIterable alloc rec pwargsSlot parameterName iterator (← clampSize size)
  | .array elements => do
    serializeIterable alloc rec pwargsSlot parameterName (arrayIterator elements)
      (← clampSize elements.length)
  | .iterable first second => do
    let size ← countElements first 0 (← get).remainingElements.toNat
    serializeIterable alloc rec pwargsSlot parameterName second size
  | .map size iterator => do
    serializeMap alloc rec pwargsSlot parameterName iterator (← clampSize size)
  | .boolean value =>
    orThrow "Could not write boolean" (PWArgsBuffer.writeBool alloc pwargsSlot parameterName value)
  | .other =>
    orThrow "Error writing null for unknown type"
      (PWArgsBuffer.writeNull alloc pwargsSlot parameterName)
  | .throwing exc => throw (.thrown exc)

end Value

section Serialize

variable {ρ : Type} (heap : ρ → JavaValue ρ)

def doSerialize : Nat → Nat → Option (List UInt16) → ρ → SerializerM Unit
  | 0, pwargsSlot, parameterName, _ => do
    let parameterName ← truncateParameterName limits parameterName
    decrementRemainingElements
    writeCutOff alloc pwargsSlot parameterName
  | depth + 1, pwargsSlot, parameterName, value => do
    let parameterName ← truncateParameterName limits parameterName
    decrementRemainingElements
    if (← get).remainingElements < 0 then
      writeCutOff alloc pwargsSlot parameterName
    else
      serializeValue alloc limits (doSerialize depth) pwargsSlot parameterName (heap value)

def serializeMore (map : ρ) (metrics : Option WafMetrics) : SerializerM ByteBuffer := do
  modify fun s => { s with remainingElements := limits.maxElements, metrics := metrics, written := [] }
  let pwArgsArrayBuffer ← Arena.allocatePWArgsBuffer alloc 1 true
  let initialValue ← PWArgsArrayBuffer.getView (some pwArgsArrayBuffer) 0
  doSerialize alloc limits heap (limits.maxDepth + 1) initialValue none map
  return (← get).views initialValue

end Serialize

end ByteBufferSerializer

end Ddwaf
