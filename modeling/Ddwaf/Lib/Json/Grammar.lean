import Ddwaf.Lib.Utf16
import Ddwaf.Lib.Utf8
import Mathlib.Data.Rat.Defs

/-!
This module contains the grammar of JSON texts over bytes. The bytes of a string are not restricted
to well formed UTF-8, so that every byte from 0x80 on is an ordinary character of a string.
-/

namespace Json

inductive Value where
  | null
  | bool (b : Bool)
  | number (q : ℚ)
  | string (s : List UInt8)
  | array (vs : List Value)
  | object (ms : List (List UInt8 × Value))

def isWs (b : UInt8) : Bool := b = 0x20 || b = 0x09 || b = 0x0A || b = 0x0D

def isDigit (b : UInt8) : Bool := 0x30 ≤ b && b ≤ 0x39

def digitsValue (ds : List UInt8) : Nat := ds.foldl (fun n d => 10 * n + (d.toNat - 0x30)) 0

def takeDigits (t : List UInt8) : Option (List UInt8 × List UInt8) :=
  if (t.takeWhile isDigit).isEmpty then none else some (t.takeWhile isDigit, t.dropWhile isDigit)

def takeInt (t : List UInt8) : Option (List UInt8 × List UInt8) := do
  let (ds, t) ← takeDigits t
  if ds.head? = some 0x30 ∧ ds ≠ [0x30] then none else some (ds, t)

def takeMinus : List UInt8 → Bool × List UInt8
  | [] => (false, [])
  | b :: t => if b = 0x2D then (true, t) else (false, b :: t)

def takeFrac : List UInt8 → Option (List UInt8 × List UInt8)
  | [] => some ([], [])
  | b :: t => if b = 0x2E then takeDigits t else some ([], b :: t)

def takeSign : List UInt8 → Bool × List UInt8
  | [] => (false, [])
  | b :: t => if b = 0x2D then (true, t) else if b = 0x2B then (false, t) else (false, b :: t)

def signed (minus : Bool) (n : Nat) : Int := if minus then -n else n

def takeExp : List UInt8 → Option (Int × List UInt8)
  | [] => some (0, [])
  | b :: t =>
    if b = 0x65 ∨ b = 0x45 then do
      let (minus, t) := takeSign t
      let (ds, t) ← takeDigits t
      return (signed minus (digitsValue ds), t)
    else
      some (0, b :: t)

def scale (m e : Int) : ℚ :=
  if 0 ≤ e then ((m * 10 ^ e.toNat : Int) : ℚ) else mkRat m (10 ^ (-e).toNat)

def numberValue (t : List UInt8) : Option ℚ := do
  let (minus, t) := takeMinus t
  let (int, t) ← takeInt t
  let (frac, t) ← takeFrac t
  let (exp, t) ← takeExp t
  if t = [] then
    return scale (signed minus (digitsValue (int ++ frac))) (exp - frac.length)
  else
    none

def hexDigit (b : UInt8) : Option Nat :=
  if 0x30 ≤ b ∧ b ≤ 0x39 then some (b.toNat - 0x30)
  else if 0x41 ≤ b ∧ b ≤ 0x46 then some (b.toNat - 0x41 + 10)
  else if 0x61 ≤ b ∧ b ≤ 0x66 then some (b.toNat - 0x61 + 10)
  else none

def hex4 (a b c d : UInt8) : Option UInt16 := do
  return UInt16.ofNat ((((← hexDigit a) * 16 + (← hexDigit b)) * 16 + (← hexDigit c)) * 16 +
    (← hexDigit d))

def simpleEscape (b : UInt8) : Option UInt8 :=
  if b = 0x22 ∨ b = 0x5C ∨ b = 0x2F then some b
  else if b = 0x62 then some 0x08
  else if b = 0x66 then some 0x0C
  else if b = 0x6E then some 0x0A
  else if b = 0x72 then some 0x0D
  else if b = 0x74 then some 0x09
  else none

/--
The bytes that stand between the quotation marks of a string, with its escapes replaced. Units of
UTF-16 that are escaped and do not make up a character have no bytes to be replaced by, and are not
accepted.
-/
def unescape : List UInt8 → Option (List UInt8)
  | [] => some []
  | b :: t =>
    if b = 0x22 ∨ b < 0x20 then
      none
    else if b = 0x5C then
      match t with
      | [] => none
      | e :: t =>
        if e = 0x75 then
          match t with
          | a :: b :: c :: d :: t => do
            let u ← hex4 a b c d
            if Utf16.isLead u then
              match t with
              | x :: y :: a :: b :: c :: d :: t => do
                let v ← hex4 a b c d
                if x = 0x5C ∧ y = 0x75 ∧ Utf16.isTrail v then
                  return Utf8.encode [Utf16.pair u v] ++ (← unescape t)
                else
                  none
              | _ => none
            else if Utf16.isTrail u then
              none
            else
              return Utf8.encode [Utf16.single u] ++ (← unescape t)
          | _ => none
        else do
          return (← simpleEscape e) :: (← unescape t)
    else do
      return b :: (← unescape t)

structure Item where
  before : List UInt8
  text : List UInt8
  after : List UInt8
  value : Value

def Item.padded (i : Item) : List UInt8 := i.before ++ i.text ++ i.after

def quoted (t : List UInt8) : List UInt8 := 0x22 :: t ++ [0x22]

structure Member where
  before : List UInt8
  keyText : List UInt8
  after : List UInt8
  key : List UInt8
  item : Item

def Member.padded (m : Member) : List UInt8 :=
  m.before ++ quoted m.keyText ++ m.after ++ 0x3A :: m.item.padded

def commaJoin : List (List UInt8) → List UInt8
  | [] => []
  | [t] => t
  | t :: ts => t ++ 0x2C :: commaJoin ts

theorem commaJoin_cons_cons (t u : List UInt8) (ts : List (List UInt8)) :
    commaJoin (t :: u :: ts) = t ++ 0x2C :: commaJoin (u :: ts) := by
  rfl

def Ws (t : List UInt8) : Prop := ∀ b ∈ t, isWs b = true

def nullText : List UInt8 := [0x6E, 0x75, 0x6C, 0x6C]

def boolText (b : Bool) : List UInt8 :=
  if b then [0x74, 0x72, 0x75, 0x65] else [0x66, 0x61, 0x6C, 0x73, 0x65]

structure Item.Spaced (i : Item) : Prop where
  before : Ws i.before
  after : Ws i.after

structure Member.Spaced (m : Member) : Prop where
  before : Ws m.before
  after : Ws m.after
  item : m.item.Spaced
  key : unescape m.keyText = some m.key

/--
The texts of a value, without whitespace around it.
-/
inductive Text : List UInt8 → Value → Prop
  | null : Text nullText .null
  | bool (b : Bool) : Text (boolText b) (.bool b)
  | number (t : List UInt8) (q : ℚ) (h : numberValue t = some q) : Text t (.number q)
  | string (t s : List UInt8) (h : unescape t = some s) : Text (quoted t) (.string s)
  | arrayNil (w : List UInt8) (h : Ws w) : Text (0x5B :: w ++ [0x5D]) (.array [])
  | array (i : Item) (is : List Item) (hs : ∀ j ∈ i :: is, j.Spaced)
      (h : ∀ j ∈ i :: is, Text j.text j.value) :
      Text (0x5B :: commaJoin ((i :: is).map Item.padded) ++ [0x5D])
        (.array ((i :: is).map Item.value))
  | objectNil (w : List UInt8) (h : Ws w) : Text (0x7B :: w ++ [0x7D]) (.object [])
  | object (m : Member) (ms : List Member) (hs : ∀ j ∈ m :: ms, j.Spaced)
      (h : ∀ j ∈ m :: ms, Text j.item.text j.item.value) :
      Text (0x7B :: commaJoin ((m :: ms).map Member.padded) ++ [0x7D])
        (.object ((m :: ms).map fun m => (m.key, m.item.value)))

end Json
