import Ddwaf.ByteBufferSerializer.Basic
import Ddwaf.Lib.Program
import Ddwaf.Native.DdwafObject

/-!
This module contains `_convert_checked` for any Java values: the calls into Java have whatever effects
and results they have, so that a container may contain itself, change while it is read, or never end.
-/

namespace Ddwaf

namespace ConvertLimits

/--
What `_convert_checked` gets from Java and from libddwaf. Every call may change the world, and those
with an `Except` may throw.
-/
structure JavaEnv (W ρ : Type) where
  isNull : ρ → Bool
  isMap : ρ → Bool
  isIterable : ρ → Bool
  isString : ρ → Bool
  isCharSequence : ρ → Bool
  isNumber : ρ → Bool
  -- whether it is a `Double`, a `Float` or a `BigDecimal`
  isFloating : ρ → Bool
  isBoolean : ρ → Bool
  classIsArray : ρ → W → Except Throwable Bool × W
  -- whether it is an array of primitives
  isPrimitive : ρ → Bool
  arrayLength : ρ → Nat
  arrayElement : ρ → Nat → W → ρ × W
  mapEntryset : ρ → W → Except Throwable ρ × W
  iterableIterator : ρ → W → Except Throwable ρ × W
  -- what is returned when it throws does not have to be false
  iteratorHasNext : ρ → W → (Bool × Option Throwable) × W
  iteratorNext : ρ → W → Except Throwable ρ × W
  entryKey : ρ → W → Except Throwable ρ × W
  entryValue : ρ → W → Except Throwable ρ × W
  toString : ρ → W → Except Throwable ρ × W
  javaToUtf8LimitedChecked : ρ → Nat → W → Except Throwable (List UInt8) × W
  charSequenceToUtf8 : ρ → Nat → W → Except Throwable (List UInt8) × W
  numberDoubleValue : ρ → W → Except Throwable UInt64 × W
  numberLongValue : ρ → W → Except Throwable Int64 × W
  booleanValue : ρ → W → Except Throwable Bool × W
  javaWrapExc : String → Throwable → W → Throwable × W
  javaLog : W → W
  -- whether the function of libddwaf that makes or adds an object succeeds
  ddwafObject : W → Bool × W

/-- Every call of JNI is defined: there are no arrays of primitives, and each key has a `toString` that
returns a string. -/
structure JavaEnv.Defined {W ρ : Type} (env : JavaEnv W ρ) : Prop where
  element : ∀ obj, env.isPrimitive obj = false
  key : ∀ entry w keyObj, (env.entryKey entry w).1 = .ok keyObj → env.isNull keyObj = false
  string : ∀ keyObj w keyJstr, (env.toString keyObj w).1 = .ok keyJstr → env.isNull keyJstr = false

structure State (W : Type) where
  world : W
  maxElements : Int
  conversions : Nat

/-- The branch for too many levels frees a result that is not initialised yet. What JNI does is not
defined for an element of an array of primitives, for a method of a null key and for the length of a null
string. -/
inductive Abort where
  | thrown (exc : Throwable)
  | undefined
  | freesUninitialised
  | diverges

abbrev Convert (W : Type) := Program (State W) Abort

section Calls

variable {W α : Type}

def call (f : W → α × W) : Convert W α := do
  let s ← get
  modify fun s => { s with world := (f s.world).2 }
  return (f s.world).1

def callChecked (f : W → Except Throwable α × W) : Convert W α := do
  match ← call f with
  | .ok a => return a
  | .error exc => throw (.thrown exc)

def throwNew (msg : String) : Convert W α := throw (.thrown ⟨.runtimeException, msg⟩)

end Calls

variable {W ρ : Type} (env : JavaEnv W ρ)

def log : Convert W Unit := modify fun s => { s with world := env.javaLog s.world }

/--
What the functions of libddwaf return is looked at where they add to a container or make a value.
-/
def succeeds (msg : String) : Convert W Unit := do
  if ← call env.ddwafObject then return () else throwNew msg

def valueChecked (x : Convert W (DdwafObject × Option Throwable)) : Convert W DdwafObject := do
  match ← x with
  | (value, none) => return value
  | (_, some exc) => throw (.thrown exc)

def arrayElement (obj : ρ) (i : Nat) : Convert W ρ :=
  if env.isPrimitive obj then throw .undefined else call (env.arrayElement obj i)

def arrayLoop (item : ρ → Convert W DdwafObject) (obj : ρ) (i n : Nat)
    (elements : List DdwafObject) : Convert W (List DdwafObject) :=
  match n with
  | 0 => return elements
  | n + 1 => do
    let s ← get
    if s.maxElements ≤ 0 then
      log env
      return elements
    else
      let element ← arrayElement env obj i
      let value ← item element
      succeeds env "ddwaf_object_array_add failed (OOM?)"
      arrayLoop item obj (i + 1) n (elements ++ [value])

/--
The loops over an iterator. They end when there is no next element, also when that is because
something was thrown. More than `turns` turns count as a loop that does not end.
-/
def iteratorLoop (item : Convert W α) (it : ρ) (turns : Nat) (elements : List α) :
    Convert W (List α × Option Throwable) :=
  match turns with
  | 0 => throw .diverges
  | turns + 1 => do
    match ← call (env.iteratorHasNext it) with
    | (false, pending) => return (elements, pending)
    | (true, some exc) => throw (.thrown exc)
    | (true, none) =>
      let s ← get
      if s.maxElements ≤ 0 then
        log env
        return (elements, none)
      else
        let element ← item
        iteratorLoop item it turns (elements ++ [element])

def iterableItem (item : ρ → Convert W DdwafObject) (it : ρ) : Convert W DdwafObject := do
  let element ← callChecked (env.iteratorNext it)
  let value ← item element
  succeeds env "ddwaf_object_array_add failed (OOM?)"
  return value

def keyJstr (keyObj : ρ) : Convert W ρ :=
  if env.isNull keyObj then
    throw .undefined
  else do
    match ← call (env.toString keyObj) with
    | .ok keyJstr => return keyJstr
    | .error exc =>
      let wrapped ← call (env.javaWrapExc "Error calling toString() on map key" exc)
      throw (.thrown wrapped)

def keyCstr (lims : WafLimits) (keyJstr : ρ) : Convert W (List UInt8) :=
  if env.isNull keyJstr then
    throw .undefined
  else
    callChecked (env.javaToUtf8LimitedChecked keyJstr lims.maxStringSize)

def mapItem (lims : WafLimits) (item : ρ → Convert W DdwafObject) (it : ρ) :
    Convert W (List UInt8 × DdwafObject) := do
  let entry ← callChecked (env.iteratorNext it)
  let keyObj ← callChecked (env.entryKey entry)
  let keyJstr ← keyJstr env keyObj
  let valueObj ← callChecked (env.entryValue entry)
  let value ← item valueObj
  let keyCstr ← keyCstr env lims keyJstr
  succeeds env "ddwaf_object_map_add failed (OOM?)"
  return (keyCstr, value)

def convertLeaf (lims : WafLimits) (obj : ρ) : Convert W DdwafObject :=
  if env.isString obj then do
    let str ← callChecked (env.javaToUtf8LimitedChecked obj lims.maxStringSize)
    succeeds env "ddwaf_object_stringl failed (OOM?)"
    return .string str
  else if env.isCharSequence obj then do
    let str ← callChecked (env.charSequenceToUtf8 obj lims.maxStringSize)
    succeeds env "ddwaf_object_stringl failed (OOM?)"
    return .string str
  else if env.isNumber obj then
    if env.isFloating obj then do
      let dval ← callChecked (env.numberDoubleValue obj)
      succeeds env "ddwaf_object_signed failed"
      return .float dval
    else do
      let lval ← callChecked (env.numberLongValue obj)
      succeeds env "ddwaf_object_signed failed"
      return .signed lval
  else if env.isBoolean obj then do
    let bval ← callChecked (env.booleanValue obj)
    succeeds env "ddwaf_object_bool failed (OOM?)"
    return .bool bval
  else do
    log env
    -- `_pwinput_invalid`
    return .map []

def convertArray (lims : WafLimits) (item : ρ → Convert W DdwafObject) (recLevel : Nat) (obj : ρ) :
    Convert W (DdwafObject × Option Throwable) :=
  if recLevel ≥ lims.maxDepth then do
    log env
    return (.array [], none)
  else do
    let elements ← arrayLoop env item obj 0 (env.arrayLength obj) []
    return (.array elements, none)

def convertMap (lims : WafLimits) (turns : Nat) (item : ρ → Convert W DdwafObject) (recLevel : Nat)
    (obj : ρ) : Convert W (DdwafObject × Option Throwable) :=
  if recLevel ≥ lims.maxDepth then do
    log env
    return (.map [], none)
  else do
    let entrySet ← callChecked (env.mapEntryset obj)
    let entrySetIt ← callChecked (env.iterableIterator entrySet)
    let (entries, pending) ← iteratorLoop env (mapItem env lims item entrySetIt) entrySetIt turns []
    return (.map entries, pending)

def convertIterable (lims : WafLimits) (turns : Nat) (item : ρ → Convert W DdwafObject)
    (recLevel : Nat) (obj : ρ) : Convert W (DdwafObject × Option Throwable) :=
  if recLevel ≥ lims.maxDepth then do
    log env
    return (.array [], none)
  else do
    let it ← callChecked (env.iterableIterator obj)
    let (elements, pending) ← iteratorLoop env (iterableItem env item it) it turns []
    return (.array elements, pending)

def isArray (obj : ρ) : Convert W Bool :=
  if env.isNull obj then return false else callChecked (env.classIsArray obj)

/--
Returns an object, which may come with an exception that is pending. When this is aborted with an
exception, the object is `_pwinput_invalid`.
-/
def convertChecked (lims : WafLimits) (turns : Nat) :
    Nat → Nat → ρ → Convert W (DdwafObject × Option Throwable)
  | 0, _, _ => throw .diverges
  | fuel + 1, recLevel, obj => do
    modify fun s => { s with maxElements := s.maxElements - 1, conversions := s.conversions + 1 }
    if recLevel > lims.maxDepth then
      throw .freesUninitialised
    else
      let isArray ← isArray env obj
      let item := fun value => valueChecked (convertChecked lims turns fuel (recLevel + 1) value)
      if env.isNull obj then
        return (.null, none)
      else if isArray then
        convertArray env lims item recLevel obj
      else if env.isMap obj then
        convertMap env lims turns item recLevel obj
      else if env.isIterable obj then
        convertIterable env lims turns item recLevel obj
      else
        return (← convertLeaf env lims obj, none)

def configLimits : WafLimits := .configuration

def resultOf (r : Except Abort (DdwafObject × Option Throwable)) : DdwafObject :=
  match r with
  | .ok (result, _) => result
  | .error _ => .map []

/-- The top-level call: `fuel` bounds the levels and the turns of each loop. -/
def convertConfig (fuel : Nat) (configuration : ρ) (world : W) :
    Except Abort (DdwafObject × Option Throwable) × State W :=
  Program.exec (convertChecked env configLimits fuel fuel 0 configuration)
    ⟨world, configLimits.maxElements, 0⟩

end ConvertLimits

end Ddwaf
