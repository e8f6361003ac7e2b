import Ddwaf.Lib.Loop
import Ddwaf.Native.Basic

/-!
This module contains the segments of `json.h` that a JSON text is written to and read from.
-/

namespace Ddwaf

def minJsonSegmentSize : Nat := 216

def maxJsonDepth : Nat := 20

/-- The part of the segment that is filled is `data`, so that `len` is its length. -/
structure JsonSegment where
  size : Nat
  data : List UInt8
  len_le : data.length ≤ size
  size_le : size ≤ uint32Max

def JsonSegment.len (seg : JsonSegment) : Nat := seg.data.length

def jsonContent (chain : List JsonSegment) : List UInt8 := chain.flatMap JsonSegment.data

def jsonLength (seg : List JsonSegment) : Nat :=
  seg.foldl (fun res p => (res + p.len) % 2 ^ 64) 0

structure JsonIterator where
  seg : List JsonSegment
  pos : Nat

namespace jsonItRead

structure State where
  it : JsonIterator
  written : List UInt8

def body (outLen : Nat) (s : State) : Native (Loop.Outcome State State) :=
  match s.it.seg with
  | [] => .ok (.done s)
  | seg :: next =>
    if s.written.length < outLen then
      let availInSeg := subUint32 seg.len s.it.pos
      if availInSeg = 0 then
        .ok (.next { s with it := ⟨next, 0⟩ })
      else do
        let leftInOut := subSize outLen s.written.length
        let toCopy := if availInSeg < leftInOut then availInSeg else leftInOut
        let bytes ← loadRange seg.data s.it.pos toCopy
        let written ← store outLen s.written bytes
        -- cast and addition are safe. to_copy is never bigger than avail_in_seg
        return .next ⟨⟨seg :: next, (s.it.pos + toCopy) % 2 ^ 32⟩, written⟩
    else
      .ok (.done s)

end jsonItRead

open jsonItRead in
def jsonItRead (it : JsonIterator) (outLen : Nat) : Native State :=
  Loop.run (body outLen) .diverges (it.seg.length + outLen + 1) ⟨it, []⟩

abbrev SegPtr := Nat

structure JsonSegment.Cell extends JsonSegment where
  next : Option SegPtr

/-- The segments in the order of their allocation: a pointer is an index. -/
structure JsonHeap where
  cells : List JsonSegment.Cell
  freed : List SegPtr
  mallocs : Nat

def JsonHeap.empty : JsonHeap := ⟨[], [], 0⟩

def JsonHeap.get (h : JsonHeap) (p : SegPtr) : Native JsonSegment.Cell :=
  if p ∈ h.freed then .error .outOfBounds else load h.cells p

def JsonHeap.chain (h : JsonHeap) : Nat → Option SegPtr → List JsonSegment
  | 0, _ => []
  | _ + 1, none => []
  | fuel + 1, some p =>
    match h.cells[p]? with
    | none => []
    | some cell => cell.toJsonSegment :: h.chain fuel cell.next

def JsonHeap.chainFrom (h : JsonHeap) (p : SegPtr) : List JsonSegment :=
  h.chain (h.cells.length + 1) (some p)

def jsonSegNew (alloc : Alloc) (minSize : Nat) (h : JsonHeap) : Option SegPtr × JsonHeap :=
  if hmin : minSize > uint32Max then
    (none, h)
  else if alloc h.mallocs then
    let seg : JsonSegment.Cell := {
      size := max minSize minJsonSegmentSize
      data := []
      len_le := Nat.zero_le _
      size_le := Nat.max_le.mpr ⟨Nat.not_lt.mp hmin, by decide⟩
      next := none
    }
    (some h.cells.length, { h with cells := h.cells ++ [seg], mallocs := h.mallocs + 1 })
  else
    (none, { h with mallocs := h.mallocs + 1 })

def jsonSegEnsure (alloc : Alloc) (seg : Option SegPtr) (dataLen : Nat) (h : JsonHeap) :
    Native (Option SegPtr × JsonHeap) :=
  match seg with
  | none => .ok (none, h)
  | some p =>
    if dataLen > uint32Max then
      .ok (none, h)
    else do
      let cell ← h.get p
      let avail := subUint32 cell.size cell.len
      if avail ≥ dataLen then
        return (some p, h)
      else
        match jsonSegNew alloc dataLen h with
        | (none, h) => return (none, h)
        | (some newSeg, h) =>
          return (some newSeg, { h with cells := h.cells.set p { cell with next := some newSeg } })

/--
Write `data` behind the filled part of a segment, which then grows by `len`. More than what has been
written is never made part of it.
-/
def JsonHeap.write (h : JsonHeap) (p : SegPtr) (data : List UInt8) (len : Nat) :
    Native JsonHeap := do
  let cell ← h.get p
  if hle : cell.len + data.length ≤ cell.size ∧ data.length = len then
    let cell := { cell with
      data := cell.data ++ data
      len_le := by rw [List.length_append]; exact hle.1 }
    return { h with cells := h.cells.set p cell }
  else
    .error .outOfBounds

def jsonAppend (alloc : Alloc) (seg : Option SegPtr) (data : List UInt8) (h : JsonHeap) :
    Native (Option SegPtr × JsonHeap) := do
  match ← jsonSegEnsure alloc seg data.length h with
  | (none, h) => return (none, h)
  | (some actualSeg, h) => return (some actualSeg, ← h.write actualSeg data data.length)

namespace jsonSegFree

structure State where
  cur : Option SegPtr
  heap : JsonHeap

def body (s : State) : Native (Loop.Outcome State JsonHeap) :=
  match s.cur with
  | none => .ok (.done s.heap)
  | some cur => do
    let cell ← s.heap.get cur
    return .next ⟨cell.next, { s.heap with freed := cur :: s.heap.freed }⟩

end jsonSegFree

open jsonSegFree in
def jsonSegFree (seg : Option SegPtr) (h : JsonHeap) : Native JsonHeap :=
  Loop.run body .diverges (h.cells.length + 1) ⟨seg, h⟩

/-- The type `char` is signed, so that it is negative from 0x80 on. -/
def isControl (c : UInt8) : Bool := c < 0x80 && c < 0x20

def jsonStrEncodedSize (str : List UInt8) : Nat :=
  str.foldl
    (fun res c =>
      if c = 0x5C ∨ c = 0x22 then (res + 2) % 2 ^ 64
      else if isControl c then (res + 6) % 2 ^ 64
      else (res + 1) % 2 ^ 64)
    0

def hexDigitUpper (n : Nat) : UInt8 := UInt8.ofNat (if n < 10 then 0x30 + n else 0x41 + (n - 10))

def jsonEscape (c : UInt8) : List UInt8 :=
  if c = 0x5C ∨ c = 0x22 then
    [0x5C, c]
  else if isControl c then
    -- \uXXXX
    [0x5C, 0x75, 0x30, 0x30, hexDigitUpper (c.toNat / 16), hexDigitUpper (c.toNat % 16)]
  else
    [c]

def jsonEncodeStrTo (str : List UInt8) : List UInt8 := str.flatMap jsonEscape

def jsonEncodeStr (alloc : Alloc) (seg : Option SegPtr) (rawStr : List UInt8) (h : JsonHeap) :
    Native (Option SegPtr × JsonHeap) := do
  let encodedLen := jsonStrEncodedSize rawStr
  match ← jsonSegEnsure alloc seg encodedLen h with
  | (none, h) => return (none, h)
  | (some curSeg, h) =>
    if encodedLen = rawStr.length then
      -- can be copied as is
      return (some curSeg, ← h.write curSeg rawStr encodedLen)
    else
      return (some curSeg, ← h.write curSeg (jsonEncodeStrTo rawStr) encodedLen)

end Ddwaf
