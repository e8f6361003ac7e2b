import Ddwaf.Lib.Memory
import Ddwaf.Lib.Program
import Ddwaf.Lib.Utf16
import Ddwaf.Native.Basic

/-!
This module contains the state of the serializer: direct byte buffers over native memory, the segments
and cached views of an arena, and the Java values that are serialized.
-/

namespace Ddwaf

structure ByteBuffer where
  address : Nat
  capacity : Nat
  limit : Nat
  position : Nat
  deriving Repr, DecidableEq

namespace ByteBuffer

def setLimit (b : ByteBuffer) (newLimit : Nat) : Native ByteBuffer :=
  if b.capacity < newLimit then
    .error (.thrown ⟨.illegalArgumentException, "newLimit > capacity"⟩)
  else
    .ok { b with limit := newLimit, position := min b.position newLimit }

def setPosition (b : ByteBuffer) (newPosition : Nat) : Native ByteBuffer :=
  if b.limit < newPosition then
    .error (.thrown ⟨.illegalArgumentException, "newPosition > limit"⟩)
  else
    .ok { b with position := newPosition }

def slice (b : ByteBuffer) : ByteBuffer where
  address := b.address + b.position
  capacity := b.limit - b.position
  limit := b.limit - b.position
  position := 0

def clear (b : ByteBuffer) : ByteBuffer := { b with limit := b.capacity, position := 0 }

end ByteBuffer

/--
What `ByteBuffer.allocateDirect` does: the address, given the buffers that exist, as address and
capacity.
-/
structure Allocator where
  address : List (Nat × Nat) → Nat → Option Nat
  pos : address regions n = some a → 0 < a
  le : address regions n = some a → a + n ≤ 2 ^ 63
  disjoint : address regions n = some a → ∀ r ∈ regions, a + n ≤ r.1 ∨ r.1 + r.2 ≤ a
  -- How many new segments in a row the Java heap has room for.
  newSegments : Nat

/-- The fields of the `int`s that a caller can set, none of which is negative. -/
structure WafLimits where
  maxDepth : Nat
  maxElements : Nat
  maxStringSize : Nat
  maxDepth_le : maxDepth ≤ intMax
  maxElements_le : maxElements ≤ intMax
  maxStringSize_le : maxStringSize ≤ intMax

namespace WafLimits

def configuration : WafLimits := ⟨20, 1000000, 1000000, by decide, by decide, by decide⟩

def sample : WafLimits := ⟨20, 256, 4096, by decide, by decide, by decide⟩

end WafLimits

structure WafMetrics where
  truncatedStringTooLongCount : Nat
  truncatedListMapTooLargeCount : Nat
  truncatedObjectTooDeepCount : Nat
  deriving Repr, DecidableEq

/-- A `CharSequence`, with the index from which on `charAt` throws if there is one. -/
structure CharSeq where
  units : List UInt16
  fault : Option (Nat × Throwable)

inductive IterStep (α : Type) where
  | done
  | hasNextThrows (exc : Throwable)
  | nextThrows (exc : Throwable)
  | elem (a : α)

inductive JavaKey where
  | null
  | toString (s : Option (List UInt16))
  | throwing (exc : Throwable)

/--
An object as the first branch of `doSerialize` that takes it sees it. The references `ρ` may form
cycles, sizes may be wrong, and an iterator need not end.
-/
inductive JavaValue (ρ : Type) where
  | null
  | charSequence (s : CharSeq)
  | floating (doubleValue : UInt64)
  | number (longValue : Int64)
  | collection (size : Nat) (iterator : Nat → IterStep ρ)
  | array (elements : List ρ)
  | iterable (first second : Nat → IterStep ρ)
  | map (size : Nat) (iterator : Nat → IterStep (JavaKey × ρ))
  | boolean (b : Bool)
  | other
  | throwing (exc : Throwable)

def sizeofPwargs : Nat := 40

def pwargsMinSegmentsSize : Nat := 512

def stringsMinSegmentsSize : Nat := 81920

/-- The lists of views are lists of references to them. -/
structure PWArgsArrayBuffer where
  buffer : ByteBuffer
  start : Nat
  num : Nat
  pwArgsBuffers : List Nat

structure PWArgsSegment where
  buffer : ByteBuffer
  pwargsArrays : List Nat
  idxOfNextUnusedPWArgsArrayBuffer : Nat

structure StringsSegment where
  buffer : ByteBuffer
  base : Nat

structure WrittenString where
  ptr : Nat
  utf8len : Nat

structure Arena where
  pwargsSegments : List PWArgsSegment
  curPWArgsSegment : Nat
  idxOfFirstUsedPWArgsSegment : Option Nat
  stringsSegments : List StringsSegment
  curStringsSegment : Nat
  cachedWS : Option WrittenString

structure SerializerState where
  memory : Memory
  -- Every direct buffer that exists, of this arena or not.
  regions : List (Nat × Nat)
  arena : Arena
  -- The objects `PWArgsArrayBuffer` and the buffers of the objects `PWArgsBuffer`.
  arrays : Nat → PWArgsArrayBuffer
  nextArray : Nat
  views : Nat → ByteBuffer
  nextView : Nat
  remainingElements : Int
  metrics : Option WafMetrics
  -- The address and length of each record array and each string that has been handed out since the
  -- last reset. Nothing in the code looks at it.
  handedOut : List (Nat × Nat)
  -- The same for each write since the call of `serializeMore` began.
  written : List (Nat × Nat)

abbrev SerializerM := Program SerializerState Stop

def throwJava (cls : ThrowableClass) (msg : String) : SerializerM α := throw (.thrown ⟨cls, msg⟩)

def liftNative (x : Native α) : SerializerM α :=
  match x with
  | .ok a => pure a
  | .error e => throw e

end Ddwaf
