import Ddwaf.ConvertChecked.Impl

/-!
This module contains the part of `_convert_checked` that reads strings, `CharBuffer`s and other
sequences of characters. Allocation succeeds throughout.
-/

namespace Ddwaf

def swapBytes (u : UInt16) : UInt16 := u <<< 8 ||| u >>> 8

/--
Where a buffer has its characters: in a part of an array, in memory outside of the heap, or in
another sequence.
-/
inductive CharBuffer.Storage where
  | heap (array : List UInt16) (arrayOffset capacity : Nat) (readOnly : Bool)
  | direct (memory : List UInt16) (nativeOrder : Bool)
  | wrapped (source : List UInt16) (offset capacity : Nat)

namespace CharBuffer.Storage

def elements : Storage → List UInt16
  | .heap array arrayOffset capacity _ => (array.drop arrayOffset).take capacity
  | .direct memory nativeOrder => if nativeOrder then memory else memory.map swapBytes
  | .wrapped source offset capacity => (source.drop offset).take capacity

def capacity : Storage → Nat
  | .heap _ _ capacity _ => capacity
  | .direct memory _ => memory.length
  | .wrapped _ _ capacity => capacity

structure Valid (storage : Storage) : Prop where
  length_elements : storage.elements.length = storage.capacity
  capacity_le : storage.capacity ≤ intMax

end CharBuffer.Storage

structure CharBuffer where
  storage : CharBuffer.Storage
  position : Nat
  limit : Nat
  valid : storage.Valid
  position_le : position ≤ limit
  limit_le : limit ≤ storage.capacity

namespace CharBuffer

def length (b : CharBuffer) : Nat := b.limit - b.position

def toString (b : CharBuffer) : List UInt16 :=
  (b.storage.elements.drop b.position).take b.length

def subSequence (b : CharBuffer) (start stop : Nat) : Native CharBuffer :=
  if h : start ≤ stop ∧ stop ≤ b.length then
    .ok {
      storage := b.storage
      position := b.position + start
      limit := b.position + stop
      valid := b.valid
      position_le := Nat.add_le_add_left h.1 b.position
      limit_le := by
        have hle := b.position_le
        have hstop := h.2
        have hlimit := b.limit_le
        unfold length at hstop
        omega
    }
  else
    .error (.thrown ⟨.indexOutOfBoundsException, ""⟩)

def array (b : CharBuffer) : Option (List UInt16) :=
  match b.storage with
  | .heap array _ _ false => some array
  | _ => none

def hasNativeOrder (b : CharBuffer) : Bool :=
  match b.storage with
  | .direct _ nativeOrder => nativeOrder
  | _ => true

def getDirectBufferAddress (b : CharBuffer) : Option (List UInt16) :=
  match b.storage with
  | .direct memory _ => some memory
  | _ => none

end CharBuffer

inductive JavaCharSequence where
  | string (s : JString)
  | charBuffer (b : CharBuffer)
  | other (s : JString)

namespace JavaCharSequence

def toString : JavaCharSequence → List UInt16
  | .string s => s.units
  | .charBuffer b => b.toString
  | .other s => s.units

def length : JavaCharSequence → Nat
  | .string s => s.units.length
  | .charBuffer b => b.length
  | .other s => s.units.length

def subSequence (obj : JavaCharSequence) (stop : Nat) : Native JavaCharSequence :=
  match obj with
  | .charBuffer b => do return .charBuffer (← b.subSequence 0 stop)
  | .string s | .other s =>
    if stop ≤ s.units.length then
      .ok (.other ⟨s.units.take stop, Nat.le_trans (List.length_take_le' stop s.units) s.length_le⟩)
    else
      .error (.thrown ⟨.indexOutOfBoundsException, ""⟩)

end JavaCharSequence

structure CharBufferInfo where
  start : Nat
  stop : Nat
  natArray : List UInt16

def getCharBufferData (obj : JavaCharSequence) : Option CharBufferInfo :=
  match obj with
  | .charBuffer b =>
    match b.array with
    | some elems => some ⟨b.position, b.limit, elems⟩
    | none =>
      if b.hasNativeOrder then
        b.getDirectBufferAddress.map fun addr => ⟨b.position, b.limit, addr⟩
      else
        none
  | _ => none

def convertChars (maxStringSize : Nat) (obj : JavaCharSequence) : Native (List UInt8) :=
  match getCharBufferData obj with
  | some cbi => do
    let utf16Len := cbi.stop - cbi.start
    let utf16Len := if utf16Len > maxStringSize then maxStringSize else utf16Len
    let chars ← loadRange cbi.natArray cbi.start utf16Len
    javaUtf16ToUtf8Checked .total chars
  -- regular char sequence or non-direct CharBuffer w/out array
  | none => do
    let obj ← if obj.length > maxStringSize then obj.subSequence maxStringSize else .ok obj
    javaUtf16ToUtf8Checked .total obj.toString

def convertStringOrChars (maxStringSize : Nat) (obj : JavaCharSequence) : Native DdwafObject := do
  match obj with
  | .string s => return .string (← javaToUtf8LimitedChecked (some s.units) maxStringSize)
  | .charBuffer _ | .other _ => return .string (← convertChars maxStringSize obj)

end Ddwaf
