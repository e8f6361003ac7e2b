import Ddwaf.ByteBufferSerializer.Impl

/-!
This module contains what the serializer is for: the object that a Java value stands for under the
limits, without any memory, and the reading of an object from native memory.
-/

namespace Ddwaf

open Memory

/--
What the `ddwaf_object` records in native memory stand for, one constructor for each `PWInputType`. An
entry of a map has a name, which may be empty, or none: its pointer is null.
-/
inductive PWArgs where
  | invalid
  | signed (intValue : Int64)
  | unsigned (uintValue : UInt64)
  | string (stringValue : List UInt8)
  | array (array : List PWArgs)
  | map (array : List (Option (List UInt8) × PWArgs))
  | bool (boolean : Bool)
  | float (f64 : UInt64)
  | null

abbrev NamedPWArgs := Option (List UInt8) × PWArgs

@[elab_as_elim]
theorem PWArgs.ind {motive : PWArgs → Prop} (invalid : motive .invalid)
    (signed : ∀ v, motive (.signed v)) (unsigned : ∀ v, motive (.unsigned v))
    (string : ∀ s, motive (.string s))
    (array : ∀ a, (∀ o ∈ a, motive o) → motive (.array a))
    (map : ∀ a, (∀ e ∈ a, motive e.2) → motive (.map a)) (bool : ∀ b, motive (.bool b))
    (float : ∀ v, motive (.float v)) (null : motive .null) (o : PWArgs) : motive o := by
  apply @PWArgs.rec motive (fun a => ∀ o ∈ a, motive o) (fun a => ∀ e ∈ a, motive e.2)
    (fun e => motive e.2)
  . exact invalid
  . exact signed
  . exact unsigned
  . exact string
  . exact array
  . exact map
  . exact bool
  . exact float
  . exact null
  . simp
  . intro o os ho hos
    exact List.forall_mem_cons.mpr ⟨ho, hos⟩
  . simp
  . intro e es he hes
    exact List.forall_mem_cons.mpr ⟨he, hes⟩
  . intro n o ho
    exact ho

structure Counters where
  remaining : Int
  metrics : Option WafMetrics

def Counters.count (c : Counters) (f : WafMetrics → WafMetrics) : Counters :=
  { c with metrics := c.metrics.map f }

inductive CannotAllocate : Stop → Prop where
  | directMemory : CannotAllocate (.thrown ⟨.outOfMemoryError, "Direct buffer memory"⟩)
  | heapSpace : CannotAllocate (.thrown ⟨.outOfMemoryError, "Java heap space"⟩)
  | capacity : CannotAllocate (.thrown ⟨.illegalArgumentException, "capacity < 0"⟩)

section Reference

variable {ρ : Type} (limits : WafLimits)

def runtimeException (msg : String) : Stop := .thrown ⟨.runtimeException, msg⟩

def refElements (item : α → Counters → Except Stop (β × Counters)) (iterator : Nat → IterStep α)
    (size i : Nat) : Nat → Counters → Except Stop (List β × Counters)
  | 0, c =>
    match iterator i with
    | .hasNextThrows exc => .error (.thrown exc)
    | _ => .ok ([], c)
  | n + 1, c =>
    match iterator i with
    | .done => .error (.thrown ⟨.concurrentModificationException, s!"i={i}, size={size}"⟩)
    | .hasNextThrows exc => .error (.thrown exc)
    | .nextThrows exc => .error (.thrown exc)
    | .elem a => do
      let (o, c) ← item a c
      let (os, c) ← refElements item iterator size (i + 1) n c
      return (o :: os, c)

def refCount (iterator : Nat → IterStep α) (i : Nat) : Nat → Except Stop Nat
  | 0 =>
    match iterator i with
    | .hasNextThrows exc => .error (.thrown exc)
    | _ => .ok 0
  | n + 1 =>
    match iterator i with
    | .done => .ok 0
    | .hasNextThrows exc => .error (.thrown exc)
    | .nextThrows exc => .error (.thrown exc)
    | .elem _ => do
      let size ← refCount iterator (i + 1) n
      return size + 1

def fits (units : List UInt16) : Prop := units.length * 3 + 1 ≤ intMax

instance (units : List UInt16) : Decidable (fits units) :=
  inferInstanceAs (Decidable (units.length * 3 + 1 ≤ intMax))

def refName (parameterName : Option (List UInt16)) : Option (List UInt16) :=
  parameterName.map fun name => name.take limits.maxStringSize

def nameFits (parameterName : Option (List UInt16)) : Prop := ∀ name, parameterName = some name → fits name

instance (parameterName : Option (List UInt16)) : Decidable (nameFits parameterName) :=
  match parameterName with
  | none => isTrue (fun _ h => by contradiction)
  | some name => decidable_of_iff (fits name) (by simp [nameFits])

def countTruncated (units : List UInt16) (c : Counters) : Counters :=
  if units.length > limits.maxStringSize then
    c.count fun m => { m with truncatedStringTooLongCount := m.truncatedStringTooLongCount + 1 }
  else
    c

def countTruncatedName (parameterName : Option (List UInt16)) (c : Counters) : Counters :=
  match parameterName with
  | none => c
  | some name => countTruncated limits name c

def countCutOff (c : Counters) : Counters :=
  if c.remaining < 0 then
    c.count fun m => { m with truncatedListMapTooLargeCount := m.truncatedListMapTooLargeCount + 1 }
  else
    c.count fun m => { m with truncatedObjectTooDeepCount := m.truncatedObjectTooDeepCount + 1 }

def refString (s : CharSeq) : Except Stop (List UInt8) :=
  if fits s.units then
    match s.fault with
    | none => .ok (utf8 s.units)
    | some (i, exc) => if i < s.units.length then .error (.thrown exc) else .ok (utf8 s.units)
  else
    .error (runtimeException "Could not write string")

def refKey : JavaKey → Except Stop (Option (List UInt16))
  | .null => .ok (some [])
  | .toString s => .ok s
  | .throwing exc => .error (.thrown exc)

abbrev RefItem (ρ : Type) := Option (List UInt16) → ρ → Counters → Except Stop (PWArgs × Counters)

/--
An entry of a map. The key null has the empty name, and a key whose `toString` returns null has no name.
-/
def refEntry (item : RefItem ρ) (entry : JavaKey × ρ) (c : Counters) :
    Except Stop (NamedPWArgs × Counters) := do
  let key ← refKey entry.1
  let (o, c) ← item key entry.2 c
  return (((refName limits key).map utf8, o), c)

def refIterable (item : RefItem ρ) (iterator : Nat → IterStep ρ) (size : Nat) (c : Counters) :
    Except Stop (PWArgs × Counters) := do
  let (os, c) ← refElements (item none) iterator size 0 size c
  return (.array os, c)

def refMap (item : RefItem ρ) (iterator : Nat → IterStep (JavaKey × ρ)) (size : Nat) (c : Counters) :
    Except Stop (PWArgs × Counters) := do
  let (os, c) ← refElements (refEntry limits item) iterator size 0 size c
  return (.map os, c)

def checkName (parameterName : Option (List UInt16)) (msg : String) : Except Stop Unit :=
  if nameFits parameterName then .ok () else .error (runtimeException msg)

def refValue (item : RefItem ρ) (parameterName : Option (List UInt16)) (value : JavaValue ρ)
    (c : Counters) : Except Stop (PWArgs × Counters) :=
  match value with
  | .null => do
    checkName parameterName "Error writing null value"
    return (.null, c)
  | .charSequence s => do
    checkName parameterName "Could not write string"
    let bs ← refString ⟨s.units.take limits.maxStringSize, s.fault⟩
    return (.string bs, countTruncated limits s.units c)
  | .floating value => do
    checkName parameterName "Could not write number"
    return (.float value, c)
  | .number value => do
    checkName parameterName "Could not write number"
    return (.signed value, c)
  | .collection size iterator => do
    checkName parameterName "Error serializing iterable"
    refIterable item iterator (min size c.remaining.toNat) c
  | .array elements => do
    checkName parameterName "Error serializing iterable"
    refIterable item (ByteBufferSerializer.arrayIterator elements)
      (min elements.length c.remaining.toNat) c
  | .iterable first second => do
    let size ← refCount first 0 c.remaining.toNat
    checkName parameterName "Error serializing iterable"
    refIterable item second size c
  | .map size iterator => do
    checkName parameterName "Could not write map"
    refMap limits item iterator (min size c.remaining.toNat) c
  | .boolean value => do
    checkName parameterName "Could not write boolean"
    return (.bool value, c)
  | .other => do
    checkName parameterName "Error writing null for unknown type"
    return (.null, c)
  | .throwing exc => .error (.thrown exc)

def countElement (parameterName : Option (List UInt16)) (c : Counters) : Counters :=
  let c := countTruncatedName limits parameterName c
  { c with remaining := toInt32 (c.remaining - 1) }

def refCutOff (parameterName : Option (List UInt16)) (c : Counters) :
    Except Stop (PWArgs × Counters) := do
  checkName parameterName "Could not write map"
  return (.map [], countCutOff c)

def refTree (heap : ρ → JavaValue ρ) : Nat → RefItem ρ
  | 0, parameterName, _, c =>
    refCutOff (refName limits parameterName) (countElement limits parameterName c)
  | depth + 1, parameterName, value, c =>
    if (countElement limits parameterName c).remaining < 0 then
      refCutOff (refName limits parameterName) (countElement limits parameterName c)
    else
      refValue limits (refTree heap depth) (refName limits parameterName) (heap value)
        (countElement limits parameterName c)

def refRoot (heap : ρ → JavaValue ρ) (map : ρ) (metrics : Option WafMetrics) :
    Except Stop (PWArgs × Counters) :=
  refTree limits heap (limits.maxDepth + 1) none map ⟨limits.maxElements, metrics⟩

end Reference

section Decode

structure Record where
  parameterName : Nat
  parameterNameLength : Nat
  union : Nat
  nbEntries : Nat
  type : Nat

def readRecord (m : Memory) (a : Nat) : Record where
  parameterName := readLe m a 8
  parameterNameLength := readLe m (a + 8) 8
  union := readLe m (a + 16) 8
  nbEntries := readLe m (a + 24) 8
  type := readLe m (a + 32) 4

def readName (m : Memory) (r : Record) : Option (List UInt8) :=
  if r.parameterName = 0 then none else some (read m r.parameterName r.parameterNameLength)

def decodeAll (decode : Nat → Option α) (a : Nat) : Nat → Option (List α)
  | 0 => some []
  | n + 1 => do
    let o ← decode a
    let os ← decodeAll decode (a + sizeofPwargs) n
    return o :: os

def unnamed : List NamedPWArgs → Option (List PWArgs)
  | [] => some []
  | (none, o) :: os => (unnamed os).map (o :: ·)
  | (some _, _) :: _ => none

def decodeValue (m : Memory) (decode : Nat → Option NamedPWArgs)
    (r : Record) : Option PWArgs :=
  if r.type = pwiInvalid then
    some .invalid
  else if r.type = pwiSignedNumber then
    some (.signed (UInt64.ofNat r.union).toInt64)
  else if r.type = pwiUnsignedNumber then
    some (.unsigned (UInt64.ofNat r.union))
  else if r.type = pwiString then
    some (.string (read m r.union r.nbEntries))
  else if r.type = pwiArray then do
    let os ← decodeAll decode r.union r.nbEntries
    return .array (← unnamed os)
  else if r.type = pwiMap then do
    return .map (← decodeAll decode r.union r.nbEntries)
  else if r.type = pwiBool then
    some (.bool (r.union % 256 ≠ 0))
  else if r.type = pwiFloat then
    some (.float (UInt64.ofNat r.union))
  else if r.type = pwiNull then
    some .null
  else
    none

/-- The name and the object at an address, at most `fuel` levels deep. -/
def decode (m : Memory) : Nat → Nat → Option NamedPWArgs
  | 0, _ => none
  | fuel + 1, a => do
    let r := readRecord m a
    let o ← decodeValue m (decode m fuel) r
    return (readName m r, o)

def slotsFrom (m : Memory) : Nat → Nat → List Nat
  | 0, _ => []
  | fuel + 1, a =>
    let r := readRecord m a
    if r.type = pwiArray ∨ r.type = pwiMap then
      a :: (List.range r.nbEntries).flatMap fun i => slotsFrom m fuel (r.union + i * sizeofPwargs)
    else
      [a]

end Decode

end Ddwaf
