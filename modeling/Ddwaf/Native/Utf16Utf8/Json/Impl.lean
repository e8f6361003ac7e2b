import Ddwaf.Native.Json.Impl
import Ddwaf.Native.Utf16Utf8.Impl

/-!
This module contains the conversion of a chain of JSON segments to a Java string, which decodes
through a window of 256 bytes.
-/

namespace Ddwaf

namespace javaJsonToJstringChecked

def bufferSize : Nat := 256

structure State where
  it : JsonIterator
  buffer : List UInt8
  bufferCursor : Nat
  eof : Bool
  out : List UInt16

def compact (buffer : List UInt8) (bufferCursor leftInBuffer : Nat) : Native (List UInt8) :=
  if 0 < leftInBuffer ∧ bufferCursor < leftInBuffer then
    .error .overlap
  else
    loadRange buffer bufferCursor leftInBuffer

def refill (s : State) : Native State := do
  let leftInBuffer := subSize s.buffer.length s.bufferCursor
  if leftInBuffer < 4 ∧ !s.eof then
    let buffer ← compact s.buffer s.bufferCursor leftInBuffer
    let maxRead := subSize bufferSize leftInBuffer
    let read ← jsonItRead s.it maxRead
    let buffer ← store bufferSize buffer read.written
    return { s with it := read.it, buffer, bufferCursor := 0, eof := read.written.length < maxRead }
  else
    return s

def body (outCap : Nat) (s : State) : Native (Loop.Outcome State (List UInt16)) := do
  let s ← refill s
  let leftInBuffer := subSize s.buffer.length s.bufferCursor
  if leftInBuffer = 0 then
    return .done s.out
  else
    let cp ← getNextCodepointUtf8 s.buffer s.bufferCursor
    let out ← storeCodepoint outCap s.out cp.orRepl
    return .next { s with bufferCursor := cp.cursor, out }

end javaJsonToJstringChecked

open javaJsonToJstringChecked in
def javaJsonToJstringChecked (alloc : Alloc) (seg : List JsonSegment) : Native (List UInt16) := do
  -- at most we'll have as many UTF-16 code units as UTF-8 code units
  let outCap := jsonLength seg
  mallocUtf16 alloc outCap
  let out ← Loop.run (body outCap) .diverges (outCap + 1) ⟨⟨seg, 0⟩, [], 0, false, []⟩
  newString alloc outCap out

end Ddwaf
