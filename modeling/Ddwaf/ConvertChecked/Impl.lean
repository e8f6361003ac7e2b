import Ddwaf.ByteBufferSerializer.Impl
import Ddwaf.Native.DdwafObject
import Ddwaf.Native.Utf16Utf8.Impl

/-!
This module contains `_convert_checked`, which makes an object of the Java value that a configuration
is. Allocation succeeds throughout, and there are no `CharBuffer`s.
-/

namespace Ddwaf

structure JavaNumber where
  -- whether it is a `Double`, a `Float` or a `BigDecimal`
  floating : Bool
  doubleValue : UInt64
  longValue : Int64

structure JavaIterable (ρ : Type) where
  collection : Bool
  elements : List ρ

/--
An object can have more than one of these interfaces. It keeps their contracts: the `toString` of a
`CharSequence` is its characters, and every iterator goes through the same elements.
-/
structure JavaInterfaces (ρ : Type) where
  map : Option (List (JavaKey × ρ))
  iterable : Option (JavaIterable ρ)
  charSequence : Option (List UInt16)
  number : Option JavaNumber

/--
An object as both of the converters find it. The elements of an array of primitives are the boxes
that `Array.get` returns.
-/
inductive JavaObj (ρ : Type) where
  | null
  | array (primitive : Bool) (elements : List ρ)
  | string (units : List UInt16)
  | boolean (value : Bool)
  | object (interfaces : JavaInterfaces ρ)

section ConvertChecked

variable {ρ : Type} (lims : WafLimits)

def convertLoop (item : α → Int → Native (β × Int)) (elements : List α) (maxElements : Int) :
    Native (List β × Int) :=
  match elements with
  | [] => .ok ([], maxElements)
  | element :: rest =>
    if maxElements ≤ 0 then
      .ok ([], maxElements)
    else do
      let (value, maxElements) ← item element maxElements
      let (values, maxElements) ← convertLoop item rest maxElements
      return (value :: values, maxElements)

def convertElementsOf (wrap : List β → DdwafObject) (item : α → Int → Native (β × Int))
    (level : Nat) (elements : List α) (maxElements : Int) : Native (DdwafObject × Int) :=
  if level = 0 then
    .ok (wrap [], maxElements)
  else do
    let (values, maxElements) ← convertLoop item elements maxElements
    return (wrap values, maxElements)

/-- An array of primitives has values where `GetObjectArrayElement` takes references. -/
def convertArrayElement (item : ρ → Int → Native (DdwafObject × Int)) (primitive : Bool)
    (element : ρ) (maxElements : Int) : Native (DdwafObject × Int) :=
  if primitive then .error .outOfBounds else item element maxElements

/-- The key is not tested: `to_string` calls its method also when there is none. -/
def keyJstr : JavaKey → Native (Option (List UInt16))
  | .null => .error .outOfBounds
  | .toString s => .ok s
  | .throwing _ => throwRte "Error calling toString() on map key"

def javaToUtf8LimitedChecked (str : Option (List UInt16)) (maxLen : Nat) : Native (List UInt8) :=
  match str with
  -- `GetStringLength` of a null reference
  | none => .error .outOfBounds
  | some str =>
    if str.length ≤ maxLen then
      javaUtf16ToUtf8Checked .total str
    else
      javaUtf16ToUtf8Checked .total (str.take maxLen)

def convertEntry (item : ρ → Int → Native (DdwafObject × Int)) (entry : JavaKey × ρ)
    (maxElements : Int) : Native ((List UInt8 × DdwafObject) × Int) := do
  let keyJstr ← keyJstr entry.1
  let (value, maxElements) ← item entry.2 maxElements
  let keyCstr ← javaToUtf8LimitedChecked keyJstr lims.maxStringSize
  return ((keyCstr, value), maxElements)

def convertCharSequence (units : List UInt16) : Native DdwafObject := do
  return .string (← javaToUtf8LimitedChecked (some units) lims.maxStringSize)

def JavaNumber.convert (number : JavaNumber) : DdwafObject :=
  if number.floating then .float number.doubleValue else .signed number.longValue

/-- The interfaces of an object are tested in this order. -/
def convertValue (item : ρ → Int → Native (DdwafObject × Int)) (level : Nat) (obj : JavaObj ρ)
    (maxElements : Int) : Native (DdwafObject × Int) :=
  match obj with
  | .null => .ok (.null, maxElements)
  | .array primitive elements =>
    convertElementsOf .array (convertArrayElement item primitive) level elements maxElements
  | .object ⟨some entries, _, _, _⟩ =>
    convertElementsOf .map (convertEntry lims item) level entries maxElements
  | .object ⟨none, some iterable, _, _⟩ =>
    convertElementsOf .array item level iterable.elements maxElements
  | .string units => do return (← convertCharSequence lims units, maxElements)
  | .object ⟨none, none, some units, _⟩ => do
    return (← convertCharSequence lims units, maxElements)
  | .object ⟨none, none, none, some number⟩ => .ok (number.convert, maxElements)
  | .boolean value => .ok (.bool value, maxElements)
  -- `_pwinput_invalid`
  | .object ⟨none, none, none, none⟩ => .ok (.map [], maxElements)

def convertLevels (heap : ρ → JavaObj ρ) : Nat → ρ → Int → Native (DdwafObject × Int)
  | 0, _, _ => throwRte "Maximum recursion level exceeded"
  | level + 1, obj, maxElements =>
    convertValue lims (convertLevels heap level) level (heap obj) (maxElements - 1)

def convertChecked (heap : ρ → JavaObj ρ) (obj : ρ) : Native DdwafObject := do
  let (result, _) ← convertLevels lims heap (lims.maxDepth + 1) obj lims.maxElements
  return result

end ConvertChecked

open ByteBufferSerializer (arrayIterator)

/-- The branch of `doSerialize` that takes an object. -/
def JavaObj.toJavaValue : JavaObj ρ → JavaValue ρ
  | .null => .null
  | .string units => .charSequence ⟨units, none⟩
  | .object ⟨_, _, some units, _⟩ => .charSequence ⟨units, none⟩
  | .object ⟨_, _, none, some number⟩ =>
    if number.floating then .floating number.doubleValue else .number number.longValue
  | .array _ elements => .array elements
  | .object ⟨_, some iterable, none, none⟩ =>
    if iterable.collection then
      .collection iterable.elements.length (arrayIterator iterable.elements)
    else
      .iterable (arrayIterator iterable.elements) (arrayIterator iterable.elements)
  | .object ⟨some entries, none, none, none⟩ => .map entries.length (arrayIterator entries)
  | .boolean value => .boolean value
  | .object ⟨none, none, none, none⟩ => .other

end Ddwaf
