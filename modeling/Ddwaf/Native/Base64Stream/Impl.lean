import Ddwaf.Lib.Loop
import Ddwaf.Native.Output.ConvertAttributes.Impl

/-!
This module contains `base64.c`, which encodes a stream piece by piece. Three bytes become four
characters; where there are enough bytes, six of them are encoded at once.
-/

namespace Ddwaf

inductive Endian where
  | little
  | big

namespace Endian

def uint64 : Endian → List UInt8 → Nat
  | .little, bytes => bytes.foldr (fun b n => n * 256 + b.toNat) 0
  | .big, bytes => bytes.foldl (fun n b => n * 256 + b.toNat) 0

def bytes16 : Endian → Nat → List UInt8
  | .little, n => [UInt8.ofNat n, UInt8.ofNat (n / 256)]
  | .big, n => [UInt8.ofNat (n / 256), UInt8.ofNat n]

end Endian

namespace Base64Stream

/-- The fields of `base64_state`, without the one that nothing uses. -/
structure State where
  bytes : Nat
  carry : UInt8

def tableEnc6bit : List UInt8 := base64TableEnc6bit ++ [0]

def tableEnc12bit (endian : Endian) : List Nat :=
  (List.range 4096).map fun i =>
    match endian with
    | .little => (base64Enc i).toNat * 256 + (base64Enc (i / 64)).toNat
    | .big => (base64Enc (i / 64)).toNat * 256 + (base64Enc i).toNat

def bswap (bytes n m : Nat) : Nat :=
  match bytes with
  | 0 => m
  | bytes + 1 => bswap bytes (n / 256) (m * 256 + n % 256)

def bswap64 (n : Nat) : Nat := bswap 8 n 0

def htobe64 : Endian → Nat → Nat
  | .little, n => bswap64 n
  | .big, n => n

section Encode

variable (endian : Endian) (src : List UInt8) (cap : Nat)

def encLoopGeneric64Inner (s : Nat) (o : List UInt8) : Native (Nat × List UInt8) := do
  let n := htobe64 endian (endian.uint64 (← loadRange src s 8))
  let table := tableEnc12bit endian
  let o ← store cap o (endian.bytes16 (← load table (n >>> 52 &&& 0xFFF)))
  let o ← store cap o (endian.bytes16 (← load table (n >>> 40 &&& 0xFFF)))
  let o ← store cap o (endian.bytes16 (← load table (n >>> 28 &&& 0xFFF)))
  let o ← store cap o (endian.bytes16 (← load table (n >>> 16 &&& 0xFFF)))
  return (s + 6, o)

namespace encLoopGeneric64

structure State where
  s : Nat
  o : List UInt8
  rounds : Nat

def unrolled (calls : Nat) (s : Nat) (o : List UInt8) : Native (Nat × List UInt8) :=
  match calls with
  | 0 => .ok (s, o)
  | calls + 1 => do
    let (s, o) ← encLoopGeneric64Inner endian src cap s o
    unrolled calls s o

def unrolledContinue (calls : Nat) (st : State) :
    Native (Loop.Outcome State (Nat × List UInt8)) := do
  let (s, o) ← unrolled endian src cap calls st.s st.o
  let rounds := st.rounds - calls
  return if rounds > 0 then .next ⟨s, o, rounds⟩ else .done (s, o)

def body (st : State) : Native (Loop.Outcome State (Nat × List UInt8)) :=
  if st.rounds ≥ 8 then
    unrolledContinue endian src cap 8 st
  else if st.rounds ≥ 4 then
    unrolledContinue endian src cap 4 st
  else if st.rounds ≥ 2 then
    unrolledContinue endian src cap 2 st
  else do
    return .done (← encLoopGeneric64Inner endian src cap st.s st.o)

end encLoopGeneric64

structure Locals where
  s : Nat
  slen : Nat
  o : List UInt8
  olen : Nat
  st : State

open encLoopGeneric64 in
def encLoopGeneric64 (l : Locals) : Native Locals :=
  if l.slen < 8 then
    .ok l
  else do
    -- the last round reads two bytes more than it encodes
    let rounds := (l.slen - 2) / 6
    let (s, o) ← Loop.run (body endian src cap) .diverges (rounds + 1) ⟨l.s, l.o, rounds⟩
    return { l with s, o, slen := l.slen - rounds * 6, olen := l.olen + rounds * 8 }

namespace base64StreamEncodePlain

inductive Label where
  | case0
  | case1
  | case2

def body : Label × Locals → Native (Loop.Outcome (Label × Locals) Locals)
  | (.case0, l) => do
    let l ← encLoopGeneric64 endian src cap l
    if l.slen = 0 then
      return .done l
    else
      let c ← load src l.s
      let o ← store cap l.o [← load tableEnc6bit (c >>> 2).toNat]
      let st := ⟨l.st.bytes + 1, (c <<< 4) &&& 0x30⟩
      return .next (.case1, ⟨l.s + 1, l.slen - 1, o, l.olen + 1, st⟩)
  | (.case1, l) => do
    if l.slen = 0 then
      return .done l
    else
      let c ← load src l.s
      let o ← store cap l.o [← load tableEnc6bit (l.st.carry ||| (c >>> 4)).toNat]
      let st := ⟨l.st.bytes + 1, (c <<< 2) &&& 0x3C⟩
      return .next (.case2, ⟨l.s + 1, l.slen - 1, o, l.olen + 1, st⟩)
  | (.case2, l) => do
    if l.slen = 0 then
      return .done l
    else
      let c ← load src l.s
      let o ← store cap l.o [← load tableEnc6bit (l.st.carry ||| (c >>> 6)).toNat]
      let o ← store cap o [← load tableEnc6bit (c &&& 0x3F).toNat]
      let st := { l.st with bytes := 0 }
      return .next (.case0, ⟨l.s + 1, l.slen - 1, o, l.olen + 2, st⟩)

end base64StreamEncodePlain

open base64StreamEncodePlain in
/--
The part of the buffer that is filled already is `out`. Returns the new state with what is filled
then and how much was written.
-/
def base64StreamEncodePlain (state : State) (out : List UInt8) :
    Native (State × List UInt8 × Nat) := do
  let l : Locals := ⟨0, src.length, out, 0, state⟩
  let run := fun label => Loop.run (body endian src cap) .diverges (src.length + 1) (label, l)
  let l ← match state.bytes with
    | 0 => run .case0
    | 1 => run .case1
    | 2 => run .case2
    | _ => pure l
  return (l.st, l.o, l.olen)

end Encode

def base64StreamEncodeFinal (cap : Nat) (state : State) (out : List UInt8) :
    Native (List UInt8 × Nat) := do
  match state.bytes with
  | 1 =>
    let out ← store cap out [← load tableEnc6bit state.carry.toNat]
    let out ← store cap out [0x3D]
    let out ← store cap out [0x3D]
    return (out, 3)
  | 2 =>
    let out ← store cap out [← load tableEnc6bit state.carry.toNat]
    let out ← store cap out [0x3D]
    return (out, 2)
  | _ => return (out, 0)

def base64Encode (endian : Endian) (src : List UInt8) (cap : Nat) : Native (List UInt8 × Nat) := do
  let (state, out, s) ← base64StreamEncodePlain endian src cap ⟨0, 0⟩ []
  let (out, t) ← base64StreamEncodeFinal cap state out
  return (out, s + t)

def encodePieces (endian : Endian) (cap : Nat) (pieces : List (List UInt8)) (state : State)
    (out : List UInt8) (outlen : Nat) : Native (List UInt8 × Nat) :=
  match pieces with
  | [] => do
    let (out, t) ← base64StreamEncodeFinal cap state out
    return (out, outlen + t)
  | src :: rest => do
    let (state, out, s) ← base64StreamEncodePlain endian src cap state out
    encodePieces endian cap rest state out (outlen + s)

end Base64Stream

end Ddwaf
