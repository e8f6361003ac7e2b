import Ddwaf.ConvertChecked.CharSequence.Impl
import Ddwaf.ConvertChecked.Seen

/-!
This module contains the proof of when the characters that are converted are the first ones of the
sequence.
-/

namespace Ddwaf

def firstUnits (obj : JavaCharSequence) (maxStringSize : Nat) : List UInt16 :=
  obj.toString.take maxStringSize

def window (units : List UInt16) (start length : Nat) : List UInt16 := (units.drop start).take length

def CharBuffer.windowAt (b : CharBuffer) (array : List UInt16) (start maxStringSize : Nat) :
    List UInt16 :=
  window array start (min b.length maxStringSize)

/--
The array of a buffer has the same characters at the position of the buffer and at the offset that the
buffer has in the array.
-/
def JavaCharSequence.SameWindow (maxStringSize : Nat) : JavaCharSequence → Prop
  | .charBuffer b =>
    match b.storage with
    | .heap array arrayOffset _ false =>
      Utf16.decode (b.windowAt array b.position maxStringSize) =
        Utf16.decode (b.windowAt array (arrayOffset + b.position) maxStringSize)
    | _ => True
  | _ => True

section CharBuffer

variable (b : CharBuffer)

theorem CharBuffer.length_toString : b.toString.length = b.length := by
  have hlength := b.valid.length_elements
  have hlimit := b.limit_le
  rw [toString, List.length_take, List.length_drop, hlength]
  unfold length
  omega

theorem CharBuffer.take_toString (n : Nat) :
    b.toString.take n = window b.storage.elements b.position (min b.length n) := by
  rw [toString, List.take_take, Nat.min_comm]
  rfl

theorem CharBuffer.length_le : b.length ≤ intMax := by
  have hcapacity := b.valid.capacity_le
  have hlimit := b.limit_le
  unfold length
  omega

theorem window_take_drop {units : List UInt16} {offset capacity start length : Nat}
    (h : start + length ≤ capacity) :
    window ((units.drop offset).take capacity) start length = window units (offset + start) length := by
  unfold window
  rw [List.drop_take, List.drop_drop, List.take_take, Nat.min_eq_left (by omega)]

theorem CharBuffer.subSequence_eq {n : Nat} (h : n ≤ b.length) :
    ∃ b', b.subSequence 0 n = .ok b' ∧ b'.toString = b.toString.take n := by
  unfold subSequence
  rw [dif_pos ⟨Nat.zero_le n, h⟩]
  refine ⟨_, rfl, ?_⟩
  rw [b.take_toString, Nat.min_eq_right h]
  dsimp only [toString, length, window]
  rw [Nat.add_zero, Nat.add_sub_cancel_left]

end CharBuffer

theorem javaUtf16ToUtf8Checked_total {units : List UInt16} (h : units.length ≤ intMax) :
    javaUtf16ToUtf8Checked .total units = .ok (utf8 units) :=
  javaUtf16ToUtf8Checked_eq (fun _ => rfl) h

theorem utf8_eq_iff {u v : List UInt16} : utf8 u = utf8 v ↔ Utf16.decode u = Utf16.decode v := by
  constructor
  . intro h
    unfold utf8 at h
    rw [← Utf8.decode_encode (Utf16.decode u), h, Utf8.decode_encode]
  . intro h
    rw [utf8, h]
    rfl

section Paths

variable (maxStringSize : Nat)

theorem length_toString_le (obj : JavaCharSequence) : obj.toString.length ≤ intMax := by
  cases obj with
  | string s => exact s.length_le
  | charBuffer b =>
    rw [JavaCharSequence.toString, b.length_toString]
    exact b.length_le
  | other s => exact s.length_le

theorem length_firstUnits_le (obj : JavaCharSequence) :
    (firstUnits obj maxStringSize).length ≤ intMax := by
  have hobj := length_toString_le obj
  rw [firstUnits, List.length_take]
  omega

theorem javaToUtf8LimitedChecked_units {units : List UInt16} (h : units.length ≤ intMax) :
    javaToUtf8LimitedChecked (some units) maxStringSize =
      .ok (utf8 (units.take maxStringSize)) := by
  rw [javaToUtf8LimitedChecked]
  split
  . next hle => rw [List.take_of_length_le hle, javaUtf16ToUtf8Checked_total h]
  . next hlt =>
    apply javaUtf16ToUtf8Checked_total
    rw [List.length_take]
    omega

theorem length_toString (obj : JavaCharSequence) : obj.toString.length = obj.length := by
  cases obj with
  | string s => rfl
  | charBuffer b => exact b.length_toString
  | other s => rfl

theorem subSequence_eq {obj : JavaCharSequence} {n : Nat} (h : n ≤ obj.length) :
    ∃ obj', obj.subSequence n = .ok obj' ∧ obj'.toString = obj.toString.take n := by
  cases obj with
  | string s =>
    have hle : n ≤ s.units.length := h
    rw [JavaCharSequence.subSequence, if_pos hle]
    exact ⟨_, rfl, rfl⟩
  | charBuffer b =>
    have ⟨b', hb', htoString⟩ := b.subSequence_eq h
    rw [JavaCharSequence.subSequence, hb']
    exact ⟨.charBuffer b', rfl, htoString⟩
  | other s =>
    have hle : n ≤ s.units.length := h
    rw [JavaCharSequence.subSequence, if_pos hle]
    exact ⟨_, rfl, rfl⟩

theorem convertChars_of_none {obj : JavaCharSequence} (h : getCharBufferData obj = none) :
    convertChars maxStringSize obj = .ok (utf8 (firstUnits obj maxStringSize)) := by
  have hlength := length_firstUnits_le maxStringSize obj
  unfold convertChars
  rw [h]
  dsimp only
  split
  . next hlt =>
    have ⟨obj', hobj', htoString⟩ := subSequence_eq (Nat.le_of_lt hlt)
    rw [hobj', ok_bind, htoString]
    exact javaUtf16ToUtf8Checked_total hlength
  . next hle =>
    have htake : firstUnits obj maxStringSize = obj.toString := by
      apply List.take_of_length_le
      rw [length_toString]
      omega
    rw [htake] at hlength ⊢
    rw [ok_bind]
    exact javaUtf16ToUtf8Checked_total hlength

theorem convertChars_of_some {b : CharBuffer} {natArray : List UInt16}
    (h : getCharBufferData (.charBuffer b) = some ⟨b.position, b.limit, natArray⟩)
    (hbounds : b.limit ≤ natArray.length) :
    convertChars maxStringSize (.charBuffer b) =
      .ok (utf8 (b.windowAt natArray b.position maxStringSize)) := by
  have hposition := b.position_le
  have hlength := b.length_le
  have hmin : (if b.limit - b.position > maxStringSize then maxStringSize
      else b.limit - b.position) = min b.length maxStringSize := by
    unfold CharBuffer.length
    split <;> omega
  have hrange : b.position + min b.length maxStringSize ≤ natArray.length := by
    unfold CharBuffer.length
    omega
  unfold convertChars
  rw [h]
  dsimp only
  rw [hmin, loadRange_of_le hrange, ok_bind]
  apply javaUtf16ToUtf8Checked_total
  rw [List.length_take]
  omega

end Paths

section Buffers

variable {b : CharBuffer}

theorem firstUnits_charBuffer (maxStringSize : Nat) :
    firstUnits (.charBuffer b) maxStringSize =
      b.windowAt b.storage.elements b.position maxStringSize :=
  b.take_toString maxStringSize

theorem convertChars_heap {array : List UInt16} {arrayOffset capacity : Nat}
    (h : b.storage = .heap array arrayOffset capacity false) (maxStringSize : Nat) :
    convertChars maxStringSize (.charBuffer b) =
        .ok (utf8 (b.windowAt array b.position maxStringSize)) ∧
      firstUnits (.charBuffer b) maxStringSize =
        b.windowAt array (arrayOffset + b.position) maxStringSize := by
  have hlimit := b.limit_le
  have hposition := b.position_le
  have hvalid := b.valid.length_elements
  rw [h, CharBuffer.Storage.elements, List.length_take, List.length_drop] at hvalid
  rw [h] at hlimit
  dsimp only [CharBuffer.Storage.capacity] at hvalid hlimit
  constructor
  . apply convertChars_of_some
    . rw [getCharBufferData, CharBuffer.array, h]
    . omega
  . rw [firstUnits_charBuffer, h, CharBuffer.Storage.elements, CharBuffer.windowAt,
      CharBuffer.windowAt, window_take_drop]
    unfold CharBuffer.length
    omega

theorem convertChars_direct {memory : List UInt16} (h : b.storage = .direct memory true)
    (maxStringSize : Nat) :
    convertChars maxStringSize (.charBuffer b) =
      .ok (utf8 (firstUnits (.charBuffer b) maxStringSize)) := by
  have hlimit := b.limit_le
  rw [h] at hlimit
  have helements : b.storage.elements = memory := by
    rw [h]
    rfl
  rw [firstUnits_charBuffer, helements]
  apply convertChars_of_some
  . rw [getCharBufferData, CharBuffer.array, CharBuffer.hasNativeOrder,
      CharBuffer.getDirectBufferAddress, h]
    rfl
  . exact hlimit

theorem sameWindow_of_ne_heap
    (h : ∀ array arrayOffset capacity, b.storage ≠ .heap array arrayOffset capacity false)
    (maxStringSize : Nat) : (JavaCharSequence.charBuffer b).SameWindow maxStringSize := by
  rw [JavaCharSequence.SameWindow]
  split
  . next array arrayOffset capacity hstorage =>
    exact absurd hstorage (h array arrayOffset capacity)
  . trivial

theorem convertChars_charBuffer_iff (maxStringSize : Nat) :
    convertChars maxStringSize (.charBuffer b) =
        .ok (utf8 (firstUnits (.charBuffer b) maxStringSize))
      ↔
    (JavaCharSequence.charBuffer b).SameWindow maxStringSize := by
  cases hstorage : b.storage with
  | heap array arrayOffset capacity readOnly =>
    cases readOnly with
    | false =>
      have ⟨hconvert, hfirst⟩ := convertChars_heap hstorage maxStringSize
      rw [hconvert, hfirst, Except.ok.injEq, utf8_eq_iff, JavaCharSequence.SameWindow, hstorage]
    | true =>
      rw [iff_true_right (sameWindow_of_ne_heap (by simp [hstorage]) maxStringSize)]
      apply convertChars_of_none
      rw [getCharBufferData, CharBuffer.array, CharBuffer.hasNativeOrder,
        CharBuffer.getDirectBufferAddress, hstorage]
      rfl
  | direct memory nativeOrder =>
    rw [iff_true_right (sameWindow_of_ne_heap (by simp [hstorage]) maxStringSize)]
    cases nativeOrder with
    | true => exact convertChars_direct hstorage maxStringSize
    | false =>
      apply convertChars_of_none
      rw [getCharBufferData, CharBuffer.array, CharBuffer.hasNativeOrder, hstorage]
      rfl
  | wrapped source offset capacity =>
    rw [iff_true_right (sameWindow_of_ne_heap (by simp [hstorage]) maxStringSize)]
    apply convertChars_of_none
    rw [getCharBufferData, CharBuffer.array, CharBuffer.hasNativeOrder,
      CharBuffer.getDirectBufferAddress, hstorage]
    rfl

end Buffers

/--
A heap buffer that does not begin where its array does is read from the wrong place. Everything else is
the first part of the sequence on every path.
-/
theorem convertStringOrChars_iff (maxStringSize : Nat) (obj : JavaCharSequence) :
    convertStringOrChars maxStringSize obj = .ok (.string (utf8 (firstUnits obj maxStringSize)))
      ↔
    obj.SameWindow maxStringSize := by
  cases obj with
  | string s =>
    rw [convertStringOrChars, javaToUtf8LimitedChecked_units maxStringSize s.length_le]
    simp [JavaCharSequence.SameWindow, firstUnits, JavaCharSequence.toString]
  | other s =>
    rw [convertStringOrChars, convertChars_of_none maxStringSize rfl]
    simp [JavaCharSequence.SameWindow]
  | charBuffer b =>
    rw [← convertChars_charBuffer_iff, convertStringOrChars]
    cases convertChars maxStringSize (.charBuffer b) with
    | error e => simp
    | ok str => simp

def slicedBuffer : CharBuffer :=
  {
    storage := .heap [0x61, 0x62] 1 1 false
    position := 0
    limit := 1
    valid := ⟨rfl, by decide⟩
    position_le := by decide
    limit_le := by decide
  }

theorem convertStringOrChars_sliced :
    convertStringOrChars 10 (.charBuffer slicedBuffer) = .ok (.string [0x61]) ∧
    firstUnits (.charBuffer slicedBuffer) 10 = [0x62] ∧
    convertStringOrChars 10 (.charBuffer slicedBuffer) ≠
      .ok (.string (utf8 (firstUnits (.charBuffer slicedBuffer) 10))) := by
  have hchars : convertChars 10 (.charBuffer slicedBuffer) = .ok [0x61] := by
    rw [(convertChars_heap (b := slicedBuffer) rfl 10).1]
    decide
  have hconvert : convertStringOrChars 10 (.charBuffer slicedBuffer) = .ok (.string [0x61]) := by
    rw [convertStringOrChars, hchars]
    rfl
  refine ⟨hconvert, rfl, ?_⟩
  rw [hconvert]
  intro h
  have hutf8 : utf8 (firstUnits (.charBuffer slicedBuffer) 10) = [0x62] := by decide
  rw [hutf8] at h
  cases h

end Ddwaf
