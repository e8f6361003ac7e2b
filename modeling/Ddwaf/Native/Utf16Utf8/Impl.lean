import Ddwaf.Lib.Loop
import Ddwaf.Native.Basic

/-!
This module contains the conversions between UTF-16 and UTF-8 of `utf16_utf8.c` that work on a
single buffer.
-/

namespace Ddwaf

/-- The value of `*status`, the returned code point and the value of `*cursor`. -/
structure Codepoint where
  status : Bool
  codepoint : Nat
  cursor : Nat
  deriving Repr, DecidableEq

def mbFailure (pos advance : Nat) : Codepoint := ⟨false, 0, pos + advance⟩

def mbSuccess (codepoint pos : Nat) : Codepoint := ⟨true, codepoint, pos⟩

def utf16Lead (c : UInt16) : Bool := 0xD800 ≤ c && c ≤ 0xDBFF

def utf16Trail (c : UInt16) : Bool := 0xDC00 ≤ c && c ≤ 0xDFFF

def utf8Lead (c : UInt8) : Bool := c < 0x80 || (0xC2 ≤ c && c ≤ 0xF4)

def utf8Trail (c : UInt8) : Bool := 0x80 ≤ c && c ≤ 0xBF

def replChar : Nat := 0xFFFD

def getNextCodepointUtf16 (str : List UInt16) (cursor : Nat) : Native Codepoint := do
  let pos := cursor
  if str.length - pos < 1 then
    return mbFailure pos 1
  else
    let c ← load str pos
    if !utf16Lead c then
      if utf16Trail c then
        return mbFailure pos 1
      else
        return mbSuccess c.toNat (pos + 1)
    else if str.length - pos < 2 then
      -- leading code unit without pair (strings ends)
      return mbFailure pos 1
    else
      let c2 ← load str (pos + 1)
      if !utf16Trail c2 then
        return mbFailure pos 1
      else
        return mbSuccess (0x10000 + ((c.toNat - 0xD800) * 0x400 + (c2.toNat - 0xDC00))) (pos + 2)

def notTrail (str : List UInt8) (i : Nat) : Native Bool := do
  return !utf8Trail (← load str i)

def isLead (str : List UInt8) (i : Nat) : Native Bool := do
  return utf8Lead (← load str i)

def trailBits (str : List UInt8) (i : Nat) : Native Nat := do
  return (← load str i).toNat &&& 0x3f

/--
An index in a chain of `||` is only read once everything before it has been found to be `false`.
-/
def getNextCodepointUtf8 (str : List UInt8) (cursor : Nat) : Native Codepoint := do
  let pos := cursor
  let avail := str.length - pos
  let c ← load str pos
  if c < 0x80 then
    return mbSuccess c.toNat (pos + 1)
  else if c < 0xc2 then
    return mbFailure pos 1
  else if c < 0xe0 then
    if avail < 2 then
      return mbFailure pos 1
    else if ← notTrail str (pos + 1) then
      return mbFailure pos (if ← isLead str (pos + 1) then 1 else 2)
    else
      let codepoint := ((c.toNat &&& 0x1f) <<< 6) ||| (← trailBits str (pos + 1))
      if codepoint < 0x80 then
        -- non-shortest form
        return mbFailure pos 2
      else
        return mbSuccess codepoint (pos + 2)
  else if c < 0xf0 then
    if ← pure (decide (avail < 3)) <||> notTrail str (pos + 1) <||> notTrail str (pos + 2) then
      if ← pure (decide (avail < 2)) <||> isLead str (pos + 1) then
        return mbFailure pos 1
      else if ← pure (decide (avail < 3)) <||> isLead str (pos + 2) then
        return mbFailure pos 2
      else
        return mbFailure pos 3
    else
      let codepoint := ((c.toNat &&& 0x0f) <<< 12) ||| ((← trailBits str (pos + 1)) <<< 6) |||
        (← trailBits str (pos + 2))
      if codepoint < 0x800 then
        -- non-shortest form
        return mbFailure pos 3
      else if 0xd800 ≤ codepoint ∧ codepoint ≤ 0xdfff then
        -- surrogate
        return mbFailure pos 3
      else
        return mbSuccess codepoint (pos + 3)
  else if c < 0xf5 then
    if ← pure (decide (avail < 4)) <||> notTrail str (pos + 1) <||> notTrail str (pos + 2) <||>
        notTrail str (pos + 3) then
      if ← pure (decide (avail < 2)) <||> isLead str (pos + 1) then
        return mbFailure pos 1
      else if ← pure (decide (avail < 3)) <||> isLead str (pos + 2) then
        return mbFailure pos 2
      else if ← pure (decide (avail < 4)) <||> isLead str (pos + 3) then
        return mbFailure pos 3
      else
        return mbFailure pos 4
    else
      let codepoint := ((c.toNat &&& 0x07) <<< 18) ||| ((← trailBits str (pos + 1)) <<< 12) |||
        ((← trailBits str (pos + 2)) <<< 6) ||| (← trailBits str (pos + 3))
      if codepoint < 0x10000 ∨ 0x10FFFF < codepoint then
        -- non-shortest form or outside range
        return mbFailure pos 4
      else
        return mbSuccess codepoint (pos + 4)
  else
    return mbFailure pos 1

def writeUtf8Codeunits (k : Nat) : List UInt8 :=
  if k < 0x80 then
    [UInt8.ofNat k]
  else if k < 0x800 then
    [UInt8.ofNat (0xc0 ||| (k >>> 6)), UInt8.ofNat (0x80 ||| (k &&& 0x3f))]
  else if k < 0x10000 then
    [UInt8.ofNat (0xe0 ||| (k >>> 12)), UInt8.ofNat (0x80 ||| ((k >>> 6) &&& 0x3f)),
      UInt8.ofNat (0x80 ||| (k &&& 0x3f))]
  else
    [UInt8.ofNat (0xf0 ||| (k >>> 18)), UInt8.ofNat (0x80 ||| ((k >>> 12) &&& 0x3f)),
      UInt8.ofNat (0x80 ||| ((k >>> 6) &&& 0x3f)), UInt8.ofNat (0x80 ||| (k &&& 0x3f))]

def writeUtf16Codeunits (k : Nat) : List UInt16 :=
  if k < 0x10000 then
    [UInt16.ofNat k]
  else
    -- high 10 bits excl over bit 20, low 10 bits
    [UInt16.ofNat (0xD800 ||| ((k &&& 0xFFFF) >>> 10)), UInt16.ofNat (0xDC00 ||| (k &&& 0x3FF))]

def Codepoint.orRepl (cp : Codepoint) : Nat := if cp.status then cp.codepoint else replChar

namespace javaUtf16ToUtf8Checked

structure State where
  inCursor : Nat
  outCap : Nat
  out : List UInt8
  allocs : Nat

def grow (alloc : Alloc) (s : State) : Native State :=
  if subSize s.outCap s.out.length < 4 then
    if alloc s.allocs then
      .ok { s with outCap := s.outCap * 2 % 2 ^ 64, allocs := s.allocs + 1 }
    else
      throwRte "out of memory"
  else
    .ok s

def body (alloc : Alloc) (input : List UInt16) (s : State) :
    Native (Loop.Outcome State State) := do
  if s.inCursor < input.length then
    let s ← grow alloc s
    let cp ← getNextCodepointUtf16 input s.inCursor
    let out ← store (s.outCap + 1) s.out (writeUtf8Codeunits cp.orRepl)
    return .next { s with inCursor := cp.cursor, out }
  else
    return .done s

end javaUtf16ToUtf8Checked

open javaUtf16ToUtf8Checked in
/--
Returns the filled part of the buffer, without the NUL behind it. The first allocation is the
`malloc`, the others are the `realloc`s.
-/
def javaUtf16ToUtf8Checked (alloc : Alloc) (input : List UInt16) : Native (List UInt8) := do
  -- +3 because we always require 4 bytes before writing
  let outCap := input.length + 3
  if !alloc 0 then
    throwRte "out of memory"
  else
    let s ← Loop.run (body alloc input) .diverges (input.length + 1) ⟨0, outCap, [], 1⟩
    let _ ← store (s.outCap + 1) s.out [0]
    return s.out

/--
Both of the functions that make a Java string write a code point like this, start with `mallocUtf16`
and end with `newString`.
-/
def storeCodepoint (outCap : Nat) (out : List UInt16) (cp : Nat) : Native (List UInt16) :=
  if outCap < out.length + 1 ∨ (cp > 0xFFFF ∧ outCap < out.length + 2) then
    throwRte "output string is unexpectedly too short"
  else
    store (outCap + 1) out (writeUtf16Codeunits cp)

def mallocUtf16 (alloc : Alloc) (outCap : Nat) : Native Unit :=
  if outCap > sizeMax / 2 - 1 then
    throwRte "string is too large"
  else if !alloc 0 then
    throwRte "out of memory"
  else
    .ok ()

def newString (alloc : Alloc) (outCap : Nat) (out : List UInt16) : Native (List UInt16) := do
  let _ ← store (outCap + 1) out [0]
  if out.length > intMax then
    throwRte "string is too long"
  else if !alloc 1 then
    .error (.thrown ⟨.outOfMemoryError, ""⟩)
  else
    return out

namespace javaUtf8ToJstringChecked

structure State where
  inCursor : Nat
  out : List UInt16

def body (input : List UInt8) (s : State) : Native (Loop.Outcome State (List UInt16)) := do
  if s.inCursor < input.length then
    let cp ← getNextCodepointUtf8 input s.inCursor
    let out ← storeCodepoint input.length s.out cp.orRepl
    return .next ⟨cp.cursor, out⟩
  else
    return .done s.out

end javaUtf8ToJstringChecked

open javaUtf8ToJstringChecked in
def javaUtf8ToJstringChecked (alloc : Alloc) (input : List UInt8) : Native (List UInt16) := do
  -- at most we'll have as many UTF-16 code units as UTF-8 code units
  mallocUtf16 alloc input.length
  let out ← Loop.run (body input) .diverges (input.length + 1) ⟨0, []⟩
  newString alloc input.length out

end Ddwaf
