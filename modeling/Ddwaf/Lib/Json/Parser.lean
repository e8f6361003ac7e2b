import Ddwaf.Lib.Json.Grammar

/-!
This module contains a parser for JSON texts that accepts what the grammar derives and nothing else.
-/

namespace Json

abbrev Parser (α : Type) := List UInt8 → Option (α × List UInt8)

def skipWs (s : List UInt8) : List UInt8 := s.dropWhile isWs

def isNumberByte (b : UInt8) : Bool :=
  isDigit b || b = 0x2B || b = 0x2D || b = 0x2E || b = 0x45 || b = 0x65

def stringBody : Parser (List UInt8)
  | [] => none
  | b :: s =>
    if b = 0x22 then
      some ([], s)
    else if b = 0x5C then
      match s with
      | [] => none
      | e :: s => do
        let (t, r) ← stringBody s
        return (b :: e :: t, r)
    else do
      let (t, r) ← stringBody s
      return (b :: t, r)

def parseString (s : List UInt8) : Option (List UInt8 × List UInt8) := do
  let (t, r) ← stringBody s
  return (← unescape t, r)

def parseNumber (s : List UInt8) : Option (Value × List UInt8) := do
  let q ← numberValue (s.takeWhile isNumberByte)
  return (.number q, s.dropWhile isNumberByte)

def parseLiteral (t : List UInt8) (v : Value) (s : List UInt8) : Option (Value × List UInt8) :=
  if t <+: s then some (v, s.drop t.length) else none

def parseSep (item : Parser α) (close : UInt8) : Nat → Parser (List α)
  | 0, _ => none
  | n + 1, s => do
    match ← item s with
    | (_, []) => none
    | (a, c :: r) =>
      if c = close then
        some ([a], r)
      else if c = 0x2C then
        let (as, r) ← parseSep item close n r
        return (a :: as, r)
      else
        none

def parseList (item : Parser α) (close : UInt8) (s : List UInt8) : Option (List α × List UInt8) :=
  match skipWs s with
  | [] => none
  | c :: r => if c = close then some ([], r) else parseSep item close s.length s

def parseItem (value : Parser Value) (s : List UInt8) : Option (Value × List UInt8) := do
  let (v, r) ← value (skipWs s)
  return (v, skipWs r)

def parseMember (value : Parser Value) (s : List UInt8) :
    Option ((List UInt8 × Value) × List UInt8) :=
  match skipWs s with
  | [] => none
  | q :: s =>
    if q = 0x22 then do
      let (k, r) ← parseString s
      match skipWs r with
      | [] => none
      | c :: r =>
        if c = 0x3A then
          let (v, r) ← parseItem value r
          return ((k, v), r)
        else
          none
    else
      none

/-- The fuel is used up by nesting only. -/
def parseValue : Nat → Parser Value
  | 0, _ => none
  | _ + 1, [] => none
  | fuel + 1, b :: s =>
    if b = 0x22 then do
      let (t, r) ← parseString s
      return (.string t, r)
    else if b = 0x5B then do
      let (vs, r) ← parseList (parseItem (parseValue fuel)) 0x5D s
      return (.array vs, r)
    else if b = 0x7B then do
      let (ms, r) ← parseList (parseMember (parseValue fuel)) 0x7D s
      return (.object ms, r)
    else if b = 0x6E then
      parseLiteral nullText .null (b :: s)
    else if b = 0x74 then
      parseLiteral (boolText true) (.bool true) (b :: s)
    else if b = 0x66 then
      parseLiteral (boolText false) (.bool false) (b :: s)
    else
      parseNumber (b :: s)

def parse (s : List UInt8) : Option Value := do
  let (v, r) ← parseItem (parseValue (s.length + 1)) s
  if r = [] then some v else none

end Json
