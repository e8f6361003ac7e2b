import Ddwaf.Lib.Compressor
import Ddwaf.Native.Output.ConvertAttributes.Impl

/-!
This module contains the part of `output.c` that compresses a JSON text and encodes it as base64.
-/

namespace Ddwaf

abbrev Zlib (σ : Type) := Compressor σ UInt8 UInt8

namespace encodeGzip

structure Call where
  nextIn : List UInt8
  flush : Compressor.Flush
  availOut : Nat
  room : Nat
  consumed : Nat

/--
The part of the buffer that is filled is `ret`, so that `total_out` is its length, and `nextIn` has
the length `avail_in`.
-/
structure State (σ : Type) where
  strm : σ
  nextIn : List UInt8
  ret : List UInt8
  deflatedSize : Nat
  mallocs : Nat
  calls : List Call

variable {σ : Type} (zlib : Zlib σ) (alloc : Alloc)

def grow (s : State σ) : Option (State σ) :=
  if s.ret.length ≥ s.deflatedSize then
    if alloc s.mallocs then
      some { s with deflatedSize := s.deflatedSize * 2 % 2 ^ 64, mallocs := s.mallocs + 1 }
    else
      none
  else
    some s

def body (flush : Compressor.Flush) (s : State σ) :
    Native (Loop.Outcome (State σ) (Option (State σ))) :=
  match grow alloc s with
  | none => .ok (.done none)
  | some s =>
    let room := subSize s.deflatedSize s.ret.length
    let availOut := if room > uint32Max then uint32Max else room
    -- all of what is offered may be written to
    if s.ret.length + availOut > s.deflatedSize then
      .error .outOfBounds
    else
      let step := zlib.deflate s.strm s.nextIn availOut flush
      let call := ⟨s.nextIn, flush, availOut, room, step.consumed⟩
      let s := { s with
        strm := step.state
        nextIn := s.nextIn.drop step.consumed
        ret := s.ret ++ step.output
        calls := s.calls ++ [call]
      }
      if !step.ok then
        .ok (.done none)
      else if subUint32 availOut step.output.length = 0 then
        .ok (.next s)
      else
        .ok (.done (some s))

def segments (fuel : Nat) (seg : List JsonSegment) (s : State σ) : Native (Option (State σ)) :=
  match seg with
  | [] => .ok (some s)
  | seg :: next => do
    let flush := if next.isEmpty then .finish else .noFlush
    match ← Loop.run (body zlib alloc flush) .diverges fuel { s with nextIn := seg.data } with
    | none => return none
    | some s => segments fuel next s

end encodeGzip

open encodeGzip in
def encodeGzip {σ : Type} (zlib : Zlib σ) (alloc : Alloc) (fuel : Nat) (json : List JsonSegment)
    (jsonLen : Nat) : Native (Option (State σ)) :=
  -- deflateInit2
  if alloc 0 then
    let deflatedSize := if jsonLen < 1024 then 1024 else jsonLen
    if alloc 1 then do
      match ← segments zlib alloc fuel json ⟨zlib.init, [], [], deflatedSize, 2, []⟩ with
      | none => return none
      | some s => return if zlib.endOk s.strm then some s else none
    else
      .ok none
  else
    .ok none

def base64Capacity (gzipSize : Nat) : Nat := (4 * gzipSize % 2 ^ 64 / 3 + 3) % 2 ^ 64 / 4 * 4

section EncodeJson

variable {σ : Type} (zlib : Zlib σ) (fuel : Nat)

def encodeSegments (json : List JsonSegment) : Native (Option (List UInt16)) := do
  match ← encodeGzip zlib .total fuel json (jsonLength json) with
  | none => return none
  | some s =>
    let base64 ← store (base64Capacity s.ret.length) [] (base64Encode s.ret)
    return some (← javaUtf8ToJstringChecked .total base64)

/--
As `encodeJsonGzipBase64Checked`, with the buffers and with zlib's streams. Allocation succeeds.
-/
def encodeJsonWithZlib (obj : DdwafObject) : Native (Option (List UInt16)) := do
  match ← outputConvertJson .total obj with
  -- too deep
  | (none, _) => return none
  | (some json, h) =>
    let segments := h.chainFrom json
    if jsonLength segments > maxSizeOfSchema then
      let _ ← jsonSegFree (some json) h
      return none
    else
      let encoded ← encodeSegments zlib fuel segments
      let _ ← jsonSegFree (some json) h
      return encoded

end EncodeJson

end Ddwaf
