import Ddwaf.Native.Output.ConvertJson.Lemmas

/-!
This module contains the proof that parsing the JSON text of an object gives back the object.
-/

namespace Ddwaf

section Scalars

theorem isDigit_of_mem_decimal {n : Nat} {b : UInt8} (h : b ∈ decimal n) :
    Json.isDigit b = true := by
  rw [decimal, List.mem_map] at h
  obtain ⟨c, hc, hb⟩ := h
  have hdigit := Nat.isDigit_of_mem_toDigits (by decide) (by decide) hc
  rw [Char.isDigit_iff_toNat] at hdigit
  simp only [Char.reduceToNat] at hdigit
  have hmod : (UInt8.ofNat c.toNat).toNat = c.toNat := Utf8.toNat_ofNat_of_lt (by omega)
  rw [← hb]
  simp only [Json.isDigit, UInt8.le_iff_toNat_le, hmod, UInt8.reduceToNat, Bool.and_eq_true,
    decide_eq_true_eq]
  exact hdigit

theorem decimal_ne_nil (n : Nat) : decimal n ≠ [] := by
  simp [decimal, Nat.toDigits_ne_nil]

theorem digitsValue_decimal (n : Nat) : Json.digitsValue (decimal n) = n := by
  have hdigits : ∀ cs : List Char, (∀ c ∈ cs, c.isDigit = true) → ∀ m,
      (cs.map fun c => UInt8.ofNat c.toNat).foldl (fun n d => 10 * n + (d.toNat - 0x30)) m =
        Nat.ofDigitChars 10 cs m := by
    intro cs
    induction cs with
    | nil => simp
    | cons c cs ih =>
      intro h m
      rw [List.forall_mem_cons] at h
      have hc := h.1
      rw [Char.isDigit_iff_toNat] at hc
      simp only [Char.reduceToNat] at hc
      have hmod : (UInt8.ofNat c.toNat).toNat = c.toNat := Utf8.toNat_ofNat_of_lt (by omega)
      rw [List.map_cons, List.foldl_cons, ih h.2, Nat.ofDigitChars_cons, hmod]
      rfl
  rw [Json.digitsValue, decimal, hdigits]
  . exact Nat.ofDigitChars_ten_toDigits
  . intro c hc
    exact Nat.isDigit_of_mem_toDigits (by decide) (by decide) hc

theorem head_toDigits {n : Nat} (h : 0 < n) : (Nat.toDigits 10 n).head? ≠ some '0' := by
  induction n using Nat.strongRecOn with
  | ind n ih =>
    by_cases hlt : n < 10
    . rw [Nat.toDigits_of_lt_base hlt]
      simp
      omega
    . rw [Nat.toDigits_of_base_le (by decide) (by omega), List.head?_append]
      have := ih (n / 10) (by omega) (by omega)
      cases hd : (Nat.toDigits 10 (n / 10)).head? with
      | none => simp [Nat.toDigits_ne_nil] at hd
      | some c =>
        rw [hd] at this
        simpa using this

theorem decimal_leading {n : Nat} (h : (decimal n).head? = some 0x30) : decimal n = [0x30] := by
  by_cases hn : n = 0
  . subst hn
    rfl
  . exfalso
    have hne := head_toDigits (Nat.pos_of_ne_zero hn)
    rw [decimal, List.head?_map, Option.map_eq_some_iff] at h
    obtain ⟨c, hc, hzero⟩ := h
    have hdigit := Nat.isDigit_of_mem_toDigits (by decide) (by decide) (List.mem_of_head? hc)
    rw [Char.isDigit_iff_toNat] at hdigit
    simp only [Char.reduceToNat] at hdigit
    have hnat := congrArg UInt8.toNat hzero
    rw [Utf8.toNat_ofNat_of_lt (by omega)] at hnat
    apply hne
    rw [hc, Option.some.injEq, ← Char.toNat_inj, hnat]
    rfl

theorem takeInt_decimal (n : Nat) : Json.takeInt (decimal n) = some (decimal n, []) := by
  have htake : (decimal n).takeWhile Json.isDigit = decimal n :=
    List.takeWhile_eq_self_iff.mpr fun b hb => isDigit_of_mem_decimal hb
  have hdrop : (decimal n).dropWhile Json.isDigit = [] :=
    List.dropWhile_eq_nil_iff.mpr fun b hb => isDigit_of_mem_decimal hb
  have hlead : ¬ ((decimal n).head? = some 0x30 ∧ decimal n ≠ [0x30]) :=
    fun h => h.2 (decimal_leading h.1)
  simp [Json.takeInt, Json.takeDigits, htake, hdrop, decimal_ne_nil]
  exact decimal_leading

theorem scale_zero (m : Int) : Json.scale m 0 = m := by
  simp [Json.scale]

theorem numberValue_minus (n : Nat) :
    Json.numberValue (0x2D :: decimal n) = some ((-n : Int) : ℚ) := by
  simp [Json.numberValue, Json.takeMinus, takeInt_decimal, Json.takeFrac, Json.takeExp, Json.signed,
    digitsValue_decimal, scale_zero]

theorem numberValue_decimal (n : Nat) : Json.numberValue (decimal n) = some ((n : Int) : ℚ) := by
  have hminus : Json.takeMinus (decimal n) = (false, decimal n) := by
    obtain ⟨b, t, ht⟩ := List.exists_cons_of_ne_nil (decimal_ne_nil n)
    have hb : Json.isDigit b = true := by
      apply isDigit_of_mem_decimal (n := n)
      rw [ht]
      exact List.mem_cons_self
    have hne : b ≠ 0x2D := by
      rintro rfl
      contradiction
    rw [ht, Json.takeMinus, if_neg hne]
  simp [Json.numberValue, hminus, takeInt_decimal, Json.takeFrac, Json.takeExp, Json.signed,
    digitsValue_decimal, scale_zero]

theorem numberValue_formatI64 (val : Int64) :
    Json.numberValue (formatI64 val) = some (val.toInt : ℚ) := by
  unfold formatI64
  split
  . rw [numberValue_minus, show (-(val.toInt.natAbs : Int)) = val.toInt by omega]
  . rw [numberValue_decimal, show (val.toInt.natAbs : Int) = val.toInt by omega]

theorem numberValue_formatU64 (val : UInt64) :
    Json.numberValue (formatU64 val) = some ((val.toNat : Int) : ℚ) :=
  numberValue_decimal val.toNat

theorem hex4_control : ∀ n < 32,
    Json.hex4 0x30 0x30 (hexDigitUpper (n / 16)) (hexDigitUpper (n % 16)) = some (UInt16.ofNat n) ∧
    Utf16.isLead (UInt16.ofNat n) = false ∧ Utf16.isTrail (UInt16.ofNat n) = false ∧
    Utf8.encode [Utf16.single (UInt16.ofNat n)] = [UInt8.ofNat n] := by
  decide

theorem unescape_backslash (e : UInt8) (t : List UInt8) (he : e ≠ 0x75) :
    Json.unescape (0x5C :: e :: t) = do
      return (← Json.simpleEscape e) :: (← Json.unescape t) := by
  have hb : ¬ ((0x5C : UInt8) = 0x22 ∨ (0x5C : UInt8) < 0x20) := by decide
  rw [Json.unescape.eq_def]
  simp only [hb, he, ↓reduceIte]

theorem unescape_unicode {a b c d : UInt8} {u : UInt16} (t : List UInt8)
    (hhex : Json.hex4 a b c d = some u) (hlead : Utf16.isLead u = false)
    (htrail : Utf16.isTrail u = false) :
    Json.unescape (0x5C :: 0x75 :: a :: b :: c :: d :: t) =
      (Json.unescape t).map fun s => Utf8.encode [Utf16.single u] ++ s := by
  have hb : ¬ ((0x5C : UInt8) = 0x22 ∨ (0x5C : UInt8) < 0x20) := by decide
  rw [Json.unescape.eq_def]
  simp only [hb, hhex, hlead, htrail, ↓reduceIte, Option.bind_eq_bind, Option.bind_some,
    Bool.false_eq_true]
  cases Json.unescape t <;> rfl

theorem unescape_jsonEscape (c : UInt8) (t : List UInt8) :
    Json.unescape (jsonEscape c ++ t) = (Json.unescape t).map fun s => c :: s := by
  unfold jsonEscape
  split
  . next hc =>
    rw [List.cons_append, List.cons_append, List.nil_append, unescape_backslash]
    . rw [Json.simpleEscape, if_pos (by tauto)]
      cases Json.unescape t <;> rfl
    . rintro rfl
      contradiction
  . next hc =>
    rw [not_or] at hc
    split
    . next hcontrol =>
      have hlt : c.toNat < 32 := by
        simp only [isControl, Bool.and_eq_true, decide_eq_true_eq, UInt8.lt_iff_toNat_lt,
          UInt8.reduceToNat] at hcontrol
        exact hcontrol.2
      obtain ⟨hhex, hlead, htrail, henc⟩ := hex4_control c.toNat hlt
      rw [UInt8.ofNat_toNat] at henc
      simp only [List.cons_append, List.nil_append]
      rw [unescape_unicode t hhex hlead htrail, henc]
      rfl
    . next hcontrol =>
      have hge : ¬ c < 0x20 := by
        intro hlt
        apply hcontrol
        simp only [isControl, Bool.and_eq_true, decide_eq_true_eq, UInt8.lt_iff_toNat_lt,
          UInt8.reduceToNat] at hlt ⊢
        omega
      rw [List.cons_append, List.nil_append, Json.unescape.eq_def]
      simp only [hc.1, hc.2, hge, or_self, ↓reduceIte]
      cases Json.unescape t <;> rfl

theorem unescape_jsonEncodeStrTo (str : List UInt8) :
    Json.unescape (jsonEncodeStrTo str) = some str := by
  induction str with
  | nil => rfl
  | cons c str ih => rw [jsonEncodeStrTo_cons, unescape_jsonEscape, ih, Option.map_some]

end Scalars

mutual

/-- A value that says the same as an object. A floating point number may be any number. -/
def Represents : DdwafObject → Json.Value → Prop
  | .signed val, .number q => q = val.toInt
  | .unsigned val, .number q => q = (val.toNat : Int)
  | .string str, .string s => s = str
  | .array array, .array vs => RepresentsArray array vs
  | .map array, .object ms => RepresentsMap array ms
  | .bool b, .bool c => c = b
  | .float _, .number _ => True
  | .null, .null => True
  | _, _ => False

def RepresentsArray : List DdwafObject → List Json.Value → Prop
  | [], [] => True
  | o :: os, v :: vs => Represents o v ∧ RepresentsArray os vs
  | _, _ => False

def RepresentsMap : List (List UInt8 × DdwafObject) → List (List UInt8 × Json.Value) → Prop
  | [], [] => True
  | (n, o) :: es, (k, v) :: ms => k = n ∧ Represents o v ∧ RepresentsMap es ms
  | _, _ => False

end

mutual

def toJson : DdwafObject → Json.Value
  | .signed val => .number val.toInt
  | .unsigned val => .number (val.toNat : Int)
  | .string str => .string str
  | .array array => .array (toJsonArray array)
  | .map array => .object (toJsonMap array)
  | .bool b => .bool b
  | .invalid | .float _ | .null => .null

def toJsonArray : List DdwafObject → List Json.Value
  | [] => []
  | o :: os => toJson o :: toJsonArray os

def toJsonMap : List (List UInt8 × DdwafObject) → List (List UInt8 × Json.Value)
  | [] => []
  | (n, o) :: es => (n, toJson o) :: toJsonMap es

end

theorem toJsonArray_eq (array : List DdwafObject) : toJsonArray array = array.map toJson := by
  induction array with
  | nil => rfl
  | cons o os ih => rw [toJsonArray, ih, List.map_cons]

theorem toJsonMap_eq (array : List (List UInt8 × DdwafObject)) :
    toJsonMap array = array.map fun e => (e.1, toJson e.2) := by
  induction array with
  | nil => rfl
  | cons e es ih => rw [toJsonMap, ih, List.map_cons]

def DdwafObject.isWritten : DdwafObject → Bool
  | .invalid | .float _ | .null => false
  | _ => true

theorem represents_toJson {o : DdwafObject} (h : o.all DdwafObject.isWritten = true) :
    Represents o (toJson o) := by
  induction o using DdwafObject.ind with
  | signed val => rfl
  | unsigned val => rfl
  | string str => rfl
  | bool b => rfl
  | invalid => contradiction
  | float v => contradiction
  | null => contradiction
  | array array ih =>
    simp only [DdwafObject.all, DdwafObject.isWritten, DdwafObject.allArray_eq, Bool.true_and,
      List.all_eq_true] at h
    rw [toJson, Represents]
    induction array with
    | nil => trivial
    | cons o os ihRest =>
      rw [List.forall_mem_cons] at h ih
      exact ⟨ih.1 h.1, ihRest ih.2 h.2⟩
  | map array ih =>
    simp only [DdwafObject.all, DdwafObject.isWritten, DdwafObject.allMap_eq, Bool.true_and,
      List.all_eq_true] at h
    rw [toJson, Represents]
    induction array with
    | nil => trivial
    | cons e es ihRest =>
      rw [List.forall_mem_cons] at h ih
      exact ⟨rfl, ih.1 h.1, ihRest ih.2 h.2⟩

section Text

def jsonItem (o : DdwafObject) : Json.Item := ⟨[], jsonText o, [], toJson o⟩

def jsonMemberItem (e : List UInt8 × DdwafObject) : Json.Member :=
  ⟨[], jsonEncodeStrTo e.1, [], e.1, jsonItem e.2⟩

theorem jsonItem_padded : Json.Item.padded ∘ jsonItem = jsonText := by
  funext o
  simp [Json.Item.padded, jsonItem]

theorem jsonMemberItem_padded : Json.Member.padded ∘ jsonMemberItem = jsonMember := by
  funext e
  simp [Json.Member.padded, jsonMemberItem, jsonMember, Json.Item.padded, jsonItem]

theorem jsonItem_spaced (o : DdwafObject) : (jsonItem o).Spaced := by
  constructor <;> simp [jsonItem, Json.Ws]

theorem jsonMemberItem_spaced (e : List UInt8 × DdwafObject) : (jsonMemberItem e).Spaced := by
  constructor
  . simp [jsonMemberItem, Json.Ws]
  . simp [jsonMemberItem, Json.Ws]
  . exact jsonItem_spaced e.2
  . exact unescape_jsonEncodeStrTo e.1

theorem text_jsonText {o : DdwafObject} (h : o.all DdwafObject.isWritten = true) :
    Json.Text (jsonText o) (toJson o) := by
  induction o using DdwafObject.ind with
  | signed val => exact Json.Text.number _ _ (numberValue_formatI64 val)
  | unsigned val => exact Json.Text.number _ _ (numberValue_formatU64 val)
  | string str => exact Json.Text.string _ _ (unescape_jsonEncodeStrTo str)
  | bool b => exact Json.Text.bool b
  | invalid => contradiction
  | float v => contradiction
  | null => contradiction
  | array array ih =>
    simp only [DdwafObject.all, DdwafObject.isWritten, DdwafObject.allArray_eq, Bool.true_and,
      List.all_eq_true] at h
    rw [jsonText, jsonTexts_eq, toJson, toJsonArray_eq]
    cases array with
    | nil => exact Json.Text.arrayNil [] (by simp [Json.Ws])
    | cons o os =>
      have htext := Json.Text.array (jsonItem o) (os.map jsonItem) ?_ ?_
      . rw [← List.map_cons, List.map_map, List.map_map, jsonItem_padded] at htext
        exact htext
      . rw [← List.map_cons, List.forall_mem_map]
        intro o _
        exact jsonItem_spaced o
      . rw [← List.map_cons, List.forall_mem_map]
        intro o ho
        exact ih o ho (h o ho)
  | map array ih =>
    simp only [DdwafObject.all, DdwafObject.isWritten, DdwafObject.allMap_eq, Bool.true_and,
      List.all_eq_true] at h
    rw [jsonText, jsonMembers_eq, toJson, toJsonMap_eq]
    cases array with
    | nil => exact Json.Text.objectNil [] (by simp [Json.Ws])
    | cons e es =>
      have htext := Json.Text.object (jsonMemberItem e) (es.map jsonMemberItem) ?_ ?_
      . rw [← List.map_cons, List.map_map, List.map_map, jsonMemberItem_padded] at htext
        exact htext
      . rw [← List.map_cons, List.forall_mem_map]
        intro e _
        exact jsonMemberItem_spaced e
      . rw [← List.map_cons, List.forall_mem_map]
        intro e he
        exact ih e he (h e he)

theorem parse_jsonText {o : DdwafObject} (h : o.all DdwafObject.isWritten = true) :
    Json.parse (jsonText o) = some (toJson o) := by
  rw [Json.parse_eq_some_iff]
  refine ⟨jsonItem o, jsonItem_spaced o, text_jsonText h, ?_, rfl⟩
  rw [← jsonItem_padded]
  rfl

end Text

section Tokens

def DdwafObject.isToken : DdwafObject → Bool
  | .signed _ | .unsigned _ | .bool _ => true
  | _ => false

def DdwafObject.isHole (o : DdwafObject) : Bool := !o.isWritten

theorem settles_jsonText (o : DdwafObject) :
    Json.Settles (jsonText o) (o.count DdwafObject.isToken) := by
  induction o using DdwafObject.ind with
  | signed val => exact (Json.Text.number _ _ (numberValue_formatI64 val)).settles
  | unsigned val => exact (Json.Text.number _ _ (numberValue_formatU64 val)).settles
  | string str => exact Json.Settles.quoted (unescape_jsonEncodeStrTo str)
  | bool b => exact (Json.Text.bool b).settles
  | invalid => exact Json.Settles.nil
  | float v => exact Json.Settles.nil
  | null => exact Json.Settles.nil
  | array array ih =>
    rw [jsonText, jsonTexts_eq, DdwafObject.count, DdwafObject.countArray_eq]
    apply Json.Settles.bracketed
    . exact Json.Settles.commaJoin ih
    . decide
    . decide
  | map array ih =>
    rw [jsonText, jsonMembers_eq, DdwafObject.count, DdwafObject.countMap_eq]
    apply Json.Settles.bracketed
    . apply Json.Settles.commaJoin
      intro e he
      have hkey := Json.Settles.quoted (unescape_jsonEncodeStrTo e.1)
      have := hkey.append_cons (ih e he) (b := 0x3A) (by decide) (by decide)
      rw [Nat.zero_add] at this
      exact this
    . decide
    . decide

theorem leaves_of_represents {o : DdwafObject} {v : Json.Value} (h : Represents o v) :
    v.leaves = o.count DdwafObject.isToken + o.count DdwafObject.isHole := by
  induction o using DdwafObject.ind generalizing v with
  | invalid => cases v <;> contradiction
  | signed val => cases v <;> first | contradiction | rfl
  | unsigned val => cases v <;> first | contradiction | rfl
  | string str => cases v <;> first | contradiction | rfl
  | bool b => cases v <;> first | contradiction | rfl
  | float val => cases v <;> first | contradiction | rfl
  | null => cases v <;> first | contradiction | rfl
  | array array ih =>
    cases v with
    | array vs =>
      rw [Represents] at h
      simp only [Json.Value.leaves, DdwafObject.count]
      induction array generalizing vs with
      | nil =>
        cases vs with
        | nil => rfl
        | cons v vs => contradiction
      | cons o os ihRest =>
        cases vs with
        | nil => contradiction
        | cons v vs =>
          rw [List.forall_mem_cons] at ih
          rw [Json.Value.leavesArray, ih.1 h.1, ihRest ih.2 vs h.2, DdwafObject.countArray,
            DdwafObject.countArray]
          omega
    | _ => contradiction
  | map array ih =>
    cases v with
    | object ms =>
      rw [Represents] at h
      simp only [Json.Value.leaves, DdwafObject.count]
      induction array generalizing ms with
      | nil =>
        cases ms with
        | nil => rfl
        | cons m ms => contradiction
      | cons e es ihRest =>
        cases ms with
        | nil => contradiction
        | cons m ms =>
          rw [List.forall_mem_cons] at ih
          rw [Json.Value.leavesObject, ih.1 h.2.1, ihRest ih.2 ms h.2.2, DdwafObject.countMap,
            DdwafObject.countMap]
          omega
    | _ => contradiction

theorem all_isWritten_of_count {o : DdwafObject} (h : o.count DdwafObject.isHole = 0) :
    o.all DdwafObject.isWritten = true := by
  induction o using DdwafObject.ind with
  | signed val => rfl
  | unsigned val => rfl
  | string str => rfl
  | bool b => rfl
  | invalid => contradiction
  | float v => contradiction
  | null => contradiction
  | array array ih =>
    rw [DdwafObject.count, DdwafObject.countArray_eq, List.sum_eq_zero_iff_forall_eq_nat,
      List.forall_mem_map] at h
    simp only [DdwafObject.all, DdwafObject.isWritten, DdwafObject.allArray_eq, Bool.true_and,
      List.all_eq_true]
    intro o ho
    exact ih o ho (h o ho)
  | map array ih =>
    rw [DdwafObject.count, DdwafObject.countMap_eq, List.sum_eq_zero_iff_forall_eq_nat,
      List.forall_mem_map] at h
    simp only [DdwafObject.all, DdwafObject.isWritten, DdwafObject.allMap_eq, Bool.true_and,
      List.all_eq_true]
    intro e he
    exact ih e he (h e he)

theorem all_isWritten_of_parse {o : DdwafObject} {v : Json.Value}
    (hparse : Json.parse (jsonText o) = some v) (hrep : Represents o v) :
    o.all DdwafObject.isWritten = true := by
  apply all_isWritten_of_count
  obtain ⟨i, hi, htext, heq, rfl⟩ := Json.parse_eq_some_iff.mp hparse
  have hcount := (settles_jsonText o).scan_eq
  rw [heq, (Json.Settles.padded hi htext.settles).scan_eq, leaves_of_represents hrep] at hcount
  omega

end Tokens

/--
The text can be parsed and says the same as the object.
-/
def JsonFaithful (o : DdwafObject) : Prop :=
  ∃ t v, outputText (outputConvertJson .total o) = some t ∧ Json.parse t = some v ∧ Represents o v

theorem jsonFaithful_iff (o : DdwafObject) (hdepth : o.height ≤ maxJsonDepth) :
    JsonFaithful o
      ↔
    o.all DdwafObject.isWritten = true ∧ o.all DdwafObject.writable = true := by
  constructor
  . rintro ⟨t, v, htext, hparse, hrep⟩
    rw [outputConvertJson_total] at htext
    rw [htext.2] at hparse
    exact ⟨all_isWritten_of_parse hparse hrep, htext.1.all⟩
  . rintro ⟨hwritten, hwritable⟩
    refine ⟨jsonText o, toJson o, ?_, parse_jsonText hwritten, represents_toJson hwritten⟩
    rw [outputConvertJson_total]
    refine ⟨⟨?_, hwritable⟩, rfl⟩
    omega

theorem jsonFaithful_nested :
    JsonFaithful (.map [([0x61], .array [.signed (-1), .string [0x22, 0xC3]]), ([], .bool true)]) :=
  (jsonFaithful_iff _ (by decide)).mpr (by decide)

theorem not_jsonFaithful_null :
    (DdwafObject.array [.null, .bool true]).height ≤ maxJsonDepth ∧
    ¬ JsonFaithful (.array [.null, .bool true]) := by
  constructor
  . decide
  . rintro ⟨t, v, htext, hparse, -⟩
    have hcomma : outputText (outputConvertJson .total (.array [.null, .bool true])) =
        some [0x5B, 0x2C, 0x74, 0x72, 0x75, 0x65, 0x5D] := by
      decide
    rw [hcomma, Option.some.injEq] at htext
    rw [← htext] at hparse
    have hnone : Json.parse [0x5B, 0x2C, 0x74, 0x72, 0x75, 0x65, 0x5D] = none := by
      rfl
    rw [hnone] at hparse
    contradiction

end Ddwaf
