import Ddwaf.Native.Output.ConvertAttributes.Impl
import Ddwaf.Native.Output.ConvertObject.Representation

/-!
This module contains what the map of attributes says about the entries that it is made of: where it
has the value of every entry that is not a derivative.
-/

namespace Ddwaf

abbrev Attribute := List UInt8 × DdwafObject

def isSchema (e : Attribute) : Bool := isDerivative e.1 "_dd.appsec.s."

def isFingerprint (e : Attribute) : Bool := isDerivative e.1 "_dd.appsec.fp."

/-- The text of the name. -/
def attributeName (e : Attribute) : List UInt16 := Utf16.encode (Utf8.decode e.1)

/-- The key that the name is converted to. -/
def attributeKey (e : Attribute) : List UInt16 := jstringOf e.1

variable {ext : Externals}

section Name

variable {e e' : Attribute}

theorem isPrefixOf_jstringOf {p : List UInt8} (hp : ∀ b ∈ p, b < 0x80) (s : List UInt8) :
    (p.map UInt8.toUInt16).isPrefixOf (jstringOf s) = p.isPrefixOf s := by
  induction p generalizing s with
  | nil => simp
  | cons a p ih =>
    have ⟨ha, hrest⟩ := List.forall_mem_cons.mp hp
    cases s with
    | nil => simp [jstringOf]
    | cons b s =>
      by_cases hb : b < 0x80
      . have hcons : jstringOf (b :: s) = b.toUInt16 :: jstringOf s := by
          simpa [jstringOf] using jstringOf_append_cons [] s hb
        rw [hcons, List.map_cons, List.isPrefixOf_cons_cons, List.isPrefixOf_cons_cons, ih hrest]
        congr 1
        rw [Bool.eq_iff_iff, beq_iff_eq, beq_iff_eq, ← UInt16.toNat_inj, ← UInt8.toNat_inj,
          UInt8.toNat_toUInt16, UInt8.toNat_toUInt16]
      . have hge : 0x80 ≤ b := UInt8.not_lt.mp hb
        have hunits := writeUtf16Codeunits_ge (Utf8.next_ge s hge)
        have hpos := writeUtf16Codeunits.length_pos ((Utf8.next (b :: s)).1.getD Utf8.repl).toNat
        rw [jstringOf, Utf8.decode_of_ne_nil (List.cons_ne_nil b s), jstringUnits_cons]
        generalize writeUtf16Codeunits _ = us at hunits hpos
        cases us with
        | nil => exact absurd hpos (Nat.lt_irrefl 0)
        | cons u us =>
          have hu : a.toUInt16 ≠ u := by
            intro heq
            have hlt := (toUInt16_lt_iff a).mpr ha
            rw [heq] at hlt
            exact UInt16.not_lt.mpr (hunits u List.mem_cons_self) hlt
          have hab : a ≠ b := fun heq => hb (heq ▸ ha)
          rw [List.map_cons, List.cons_append, List.isPrefixOf_cons_cons, List.isPrefixOf_cons_cons,
            beq_false_of_ne hu, beq_false_of_ne hab, Bool.false_and, Bool.false_and]

theorem isDerivative_congr {pre : String} (hpre : ∀ b ∈ cstr pre, b < 0x80)
    (h : attributeKey e = attributeKey e') : isDerivative e.1 pre = isDerivative e'.1 pre := by
  unfold isDerivative
  rw [← isPrefixOf_jstringOf hpre, ← isPrefixOf_jstringOf hpre, show jstringOf e.1 = jstringOf e'.1 from h]

theorem attributeKey_congr (h : attributeName e = attributeName e') :
    attributeKey e = attributeKey e' := by
  rw [attributeKey, attributeKey, jstringOf, jstringOf, encode_inj.mp h]

theorem attributeKey_eq_iff : attributeKey e = attributeName e ↔ belowPlane2 e.1 = true :=
  (belowPlane2_iff e.1).symm

theorem belowPlane2_of_key_eq (h : attributeKey e' = attributeName e) : belowPlane2 e.1 = true := by
  by_contra hname
  apply encode_ne_jstringOf e'.1 _ h.symm
  intro hall
  apply hname
  simpa [belowPlane2] using hall

end Name

section Value

def attributeValue (ext : Externals) (e : Attribute) : Option JObject :=
  match convertAttribute ext e.1 e.2 with
  | .ok value => value
  | .error _ => none

def isConverted (ext : Externals) (e : Attribute) : Bool := (convertAttribute ext e.1 e.2).isOk

theorem convertAttribute_of_isConverted {e : Attribute} (h : isConverted ext e = true) :
    convertAttribute ext e.1 e.2 = .ok (attributeValue ext e) := by
  have ⟨value, hvalue⟩ := exists_ok_of_isOk h
  rw [attributeValue, hvalue]

theorem isConverted_of_ok {e : Attribute} {value : Option JObject}
    (h : convertAttribute ext e.1 e.2 = .ok value) :
    isConverted ext e = true ∧ attributeValue ext e = value := by
  rw [isConverted, attributeValue, h]
  exact ⟨rfl, rfl⟩

def hasValue (ext : Externals) (e : Attribute) : Bool := (attributeValue ext e).isSome

def valueOf (ext : Externals) (e : Attribute) : JObject := (attributeValue ext e).getD .null

def putAll (ext : Externals) (ret : List (List UInt16 × JObject)) (array : List Attribute) :
    List (List UInt16 × JObject) :=
  ((array.filter (hasValue ext)).map fun e => (attributeKey e, valueOf ext e)).foldl
    (fun m e => LinkedMap.put m e.1 e.2) ret

theorem putAll_cons_none {e : Attribute} (ret : List (List UInt16 × JObject)) (rest : List Attribute)
    (h : attributeValue ext e = none) : putAll ext ret (e :: rest) = putAll ext ret rest := by
  simp [putAll, hasValue, h]

theorem putAll_cons_some {e : Attribute} {value : JObject} (ret : List (List UInt16 × JObject))
    (rest : List Attribute) (h : attributeValue ext e = some value) :
    putAll ext ret (e :: rest) = putAll ext (LinkedMap.put ret (attributeKey e) value) rest := by
  simp [putAll, hasValue, valueOf, h]

theorem convertAttributes_eq_ok_iff {array : List Attribute} {ret m : List (List UInt16 × JObject)} :
    convertAttributes ext array ret = .ok m
      ↔
    (∀ e ∈ array, fitsJstring e.1 = true ∧ isConverted ext e = true) ∧ m = putAll ext ret array := by
  induction array generalizing ret with
  | nil =>
    rw [convertAttributes, Except.ok.injEq, eq_comm]
    simp [putAll]
  | cons e rest ih =>
    rw [convertAttributes, bind_eq_ok_iff, List.forall_mem_cons]
    constructor
    . intro ⟨key, hkey, h⟩
      rw [javaUtf8ToJstringChecked_eq_ok_iff] at hkey
      rw [bind_eq_ok_iff] at h
      have ⟨value, hvalue, hrest⟩ := h
      have ⟨hconverted, hattribute⟩ := isConverted_of_ok hvalue
      cases value with
      | none =>
        have ⟨hall, hm⟩ := ih.mp hrest
        refine ⟨⟨⟨hkey.1, hconverted⟩, hall⟩, ?_⟩
        rw [hm, putAll_cons_none ret rest hattribute]
      | some value =>
        have ⟨hall, hm⟩ := ih.mp hrest
        refine ⟨⟨⟨hkey.1, hconverted⟩, hall⟩, ?_⟩
        rw [hm, hkey.2, putAll_cons_some ret rest hattribute]
        rfl
    . intro ⟨⟨⟨hfits, hconverted⟩, hall⟩, hm⟩
      refine ⟨attributeKey e, (javaUtf8ToJstringChecked_eq_ok_iff e.1).mpr ⟨hfits, rfl⟩, ?_⟩
      rw [bind_eq_ok_iff]
      refine ⟨attributeValue ext e, convertAttribute_of_isConverted hconverted, ?_⟩
      cases hattribute : attributeValue ext e with
      | none =>
        rw [putAll_cons_none ret rest hattribute] at hm
        exact ih.mpr ⟨hall, hm⟩
      | some value =>
        rw [putAll_cons_some ret rest hattribute] at hm
        exact ih.mpr ⟨hall, hm⟩

theorem outputConvertAttributesChecked_eq_ok_iff {array : List Attribute} {j : JObject} :
    outputConvertAttributesChecked ext array = .ok j
      ↔
    (∀ e ∈ array, fitsJstring e.1 = true ∧ isConverted ext e = true) ∧
      j = .map (putAll ext [] array) := by
  rw [outputConvertAttributesChecked, bind_eq_ok_iff]
  constructor
  . intro ⟨m, hm, hj⟩
    have ⟨hall, hm⟩ := convertAttributes_eq_ok_iff.mp hm
    cases hj
    rw [hm]
    exact ⟨hall, rfl⟩
  . intro ⟨hall, hj⟩
    exact ⟨_, convertAttributes_eq_ok_iff.mpr ⟨hall, rfl⟩, by rw [hj]; rfl⟩

end Value

section Lookup

theorem get_putAll {array : List Attribute} {e : Attribute} {value : JObject}
    (hlast : LinkedMap.IsLast attributeKey (array.filter (hasValue ext)) e)
    (h : attributeValue ext e = some value) :
    LinkedMap.get (putAll ext [] array) (attributeKey e) = some value := by
  have hvalue : valueOf ext e = value := by
    rw [valueOf, h]
    rfl
  rw [← hvalue]
  exact LinkedMap.get_ofEntries_of_isLast attributeKey (valueOf ext) hlast

theorem exists_of_get_putAll {array : List Attribute} {key : List UInt16} {value : JObject}
    (h : LinkedMap.get (putAll ext [] array) key = some value) :
    ∃ e ∈ array, attributeKey e = key ∧ attributeValue ext e = some value := by
  have ⟨e, ⟨l, r, hsplit, _⟩, hkey, hvalue⟩ :=
    LinkedMap.exists_of_get_ofEntries attributeKey (valueOf ext) h
  have he : e ∈ array.filter (hasValue ext) := by
    rw [hsplit]
    exact List.mem_append_right l List.mem_cons_self
  have ⟨hmem, hhas⟩ := List.mem_filter.mp he
  rw [hasValue, Option.isSome_iff_exists] at hhas
  have ⟨v, hv⟩ := hhas
  refine ⟨e, hmem, hkey, ?_⟩
  rw [← hvalue, valueOf, hv]
  rfl

end Lookup

section Branches

def hasBranch : DdwafObject → Bool
  | .array _ | .invalid | .null => false
  | _ => true

def isDerived (e : Attribute) : Bool := isSchema e || isFingerprint e

theorem isDerived_eq_false {e : Attribute} (h : isDerived e = false) :
    isSchema e = false ∧ isFingerprint e = false := by
  rw [isDerived, Bool.or_eq_false_iff] at h
  exact h

variable {e : Attribute}

theorem isDerived_congr {e' : Attribute} (h : attributeKey e = attributeKey e') :
    isDerived e = isDerived e' := by
  rw [isDerived, isDerived, isSchema, isSchema, isFingerprint, isFingerprint,
    isDerivative_congr (by decide +kernel) h, isDerivative_congr (by decide +kernel) h]

theorem convertAttribute_schema (h : isSchema e = true) :
    convertAttribute ext e.1 e.2 = (encodeJsonGzipBase64Checked ext e.2).map
      fun schema => schema.map JObject.string := by
  rw [isSchema] at h
  unfold convertAttribute
  rw [if_pos h]
  cases encodeJsonGzipBase64Checked ext e.2 with
  | error _ => rfl
  | ok schema => rfl

theorem convertAttribute_fingerprint (hschema : isSchema e = false) (h : isFingerprint e = true) :
    convertAttribute ext e.1 e.2 = (do
      let stringValue ← ext.stringValue e.2
      let value ← javaUtf8ToJstringChecked .total stringValue
      return some (.string value)) := by
  rw [isSchema] at hschema
  rw [isFingerprint] at h
  unfold convertAttribute
  rw [hschema, h]
  rfl

theorem convertAttribute_of_hasBranch (h : isDerived e = false) (hbranch : hasBranch e.2 = true) :
    convertAttribute ext e.1 e.2 = (convertDdwafObjectToJobject e.2).map some := by
  have ⟨hschema, hfingerprint⟩ := isDerived_eq_false h
  rw [isSchema] at hschema
  rw [isFingerprint] at hfingerprint
  unfold convertAttribute
  rw [hschema, hfingerprint]
  simp only [Bool.false_eq_true, ↓reduceIte]
  cases ho : e.2 with
  | invalid =>
    rw [ho] at hbranch
    contradiction
  | signed intValue => rfl
  | unsigned uintValue => rfl
  | string stringValue =>
    simp only [convertDdwafObjectToJobject]
    cases javaUtf8ToJstringChecked .total stringValue with
    | error _ => rfl
    | ok value => rfl
  | array array =>
    rw [ho] at hbranch
    contradiction
  | map array =>
    dsimp only
    cases convertDdwafObjectToJobject (.map array) with
    | error _ => rfl
    | ok value => rfl
  | bool boolean => rfl
  | float f64 => rfl
  | null =>
    rw [ho] at hbranch
    contradiction

theorem convertAttribute_of_not_hasBranch (h : isDerived e = false)
    (hbranch : hasBranch e.2 = false) : convertAttribute ext e.1 e.2 = .ok none := by
  have ⟨hschema, hfingerprint⟩ := isDerived_eq_false h
  rw [isSchema] at hschema
  rw [isFingerprint] at hfingerprint
  unfold convertAttribute
  rw [hschema, hfingerprint]
  simp only [Bool.false_eq_true, ↓reduceIte]
  cases ho : e.2 with
  | invalid => rfl
  | array array => rfl
  | null => rfl
  | signed _ | unsigned _ | string _ | map _ | bool _ | float _ =>
    rw [ho] at hbranch
    contradiction

theorem convertAttribute_derived {value : JObject} (h : isDerived e = true)
    (hvalue : convertAttribute ext e.1 e.2 = .ok (some value)) : ∃ s, value = .string s := by
  by_cases hschema : isSchema e = true
  . rw [convertAttribute_schema hschema] at hvalue
    cases hencode : encodeJsonGzipBase64Checked ext e.2 with
    | error _ =>
      rw [hencode] at hvalue
      contradiction
    | ok schema =>
      rw [hencode] at hvalue
      cases schema with
      | none => cases hvalue
      | some schema =>
        cases hvalue
        exact ⟨schema, rfl⟩
  . rw [Bool.not_eq_true] at hschema
    rw [isDerived, hschema, Bool.false_or] at h
    rw [convertAttribute_fingerprint hschema h] at hvalue
    have ⟨stringValue, _, hrest⟩ := bind_eq_ok hvalue
    have ⟨s, _, hreturn⟩ := bind_eq_ok hrest
    cases hreturn
    exact ⟨s, rfl⟩

theorem converted_ne_list {o : DdwafObject} {js : List JObject} (h : hasBranch o = true) :
    converted o ≠ .list js := by
  intro hlist
  cases o with
  | array array => contradiction
  | invalid | signed _ | unsigned _ | string _ | map _ | bool _ | float _ | null => cases hlist

theorem attributeValue_ne_list {js : List JObject} : attributeValue ext e ≠ some (.list js) := by
  intro h
  unfold attributeValue at h
  split at h
  . next value hvalue =>
    rw [h] at hvalue
    cases hderived : isDerived e with
    | true =>
      have ⟨s, hs⟩ := convertAttribute_derived hderived hvalue
      cases hs
    | false =>
      cases hbranch : hasBranch e.2 with
      | false =>
        rw [convertAttribute_of_not_hasBranch hderived hbranch] at hvalue
        cases hvalue
      | true =>
        rw [convertAttribute_of_hasBranch hderived hbranch] at hvalue
        cases hobject : convertDdwafObjectToJobject e.2 with
        | error _ =>
          rw [hobject] at hvalue
          contradiction
        | ok value' =>
          rw [hobject] at hvalue
          cases hvalue
          exact converted_ne_list hbranch ((convert_eq_ok_iff e.2 _).mp hobject).2.symm
  . contradiction

end Branches

/--
What must not be thrown: the stringValue of a fingerprint has to be one, and a value that is
converted has to have no part without a Java value. A type without a branch throws nothing.
-/
def Convertible (ext : Externals) (e : Attribute) : Prop :=
  if isSchema e then
    ∃ schema, encodeJsonGzipBase64Checked ext e.2 = .ok schema
  else if isFingerprint e then
    ∃ stringValue, ext.stringValue e.2 = .ok stringValue ∧ fitsJstring stringValue = true
  else
    hasBranch e.2 = true → e.2.all DdwafObject.convertible = true

theorem isConverted_iff {e : Attribute} : isConverted ext e = true ↔ Convertible ext e := by
  unfold Convertible
  split
  . next hschema =>
    rw [isConverted, convertAttribute_schema hschema]
    cases encodeJsonGzipBase64Checked ext e.2 with
    | error _ => simp [Except.map, Except.isOk, Except.toBool]
    | ok schema => simp [Except.map, Except.isOk, Except.toBool]
  . next hschema =>
    rw [Bool.not_eq_true] at hschema
    split
    . next hfingerprint =>
      rw [isConverted, convertAttribute_fingerprint hschema hfingerprint]
      cases ext.stringValue e.2 with
      | error _ => simp [Except.isOk, Except.toBool]
      | ok stringValue =>
        simp only [ok_bind, Except.ok.injEq, exists_eq_left']
        cases hjstring : javaUtf8ToJstringChecked .total stringValue with
        | error e' =>
          have hnot : ¬fitsJstring stringValue = true := by
            intro hfits
            rw [(javaUtf8ToJstringChecked_eq_ok_iff stringValue).mpr ⟨hfits, rfl⟩] at hjstring
            contradiction
          simp [Except.isOk, Except.toBool, hnot]
        | ok s =>
          have hfits := ((javaUtf8ToJstringChecked_eq_ok_iff stringValue).mp hjstring).1
          simp [Except.isOk, Except.toBool, hfits]
    . next hfingerprint =>
      rw [Bool.not_eq_true] at hfingerprint
      have hderived : isDerived e = false := by rw [isDerived, hschema, hfingerprint, Bool.or_false]
      cases hbranch : hasBranch e.2 with
      | false =>
        rw [isConverted, convertAttribute_of_not_hasBranch hderived hbranch]
        simp [Except.isOk, Except.toBool]
      | true =>
        rw [isConverted, convertAttribute_of_hasBranch hderived hbranch]
        cases hobject : convertDdwafObjectToJobject e.2 with
        | error e' =>
          have hnot : ¬e.2.all DdwafObject.convertible = true := by
            intro hall
            rw [(convert_eq_ok_iff e.2 _).mpr ⟨hall, rfl⟩] at hobject
            contradiction
          simp [Except.map, Except.isOk, Except.toBool, hnot]
        | ok value =>
          have hall := ((convert_eq_ok_iff e.2 value).mp hobject).1
          simp [Except.map, Except.isOk, Except.toBool, hall]

/-- A schema that is too large or too deep is not encoded. -/
def isEncoded (ext : Externals) (e : Attribute) : Bool :=
  match encodeJsonGzipBase64Checked ext e.2 with
  | .ok none => false
  | _ => true

/--
The map has the value of every entry that is not a derivative and is the last one of its name, and
it is the one that the entries without those that cannot be encoded give.
-/
def AttributesFaithful (ext : Externals) (array : List Attribute) : Prop :=
  ∃ m, outputConvertAttributesChecked ext array = .ok (.map m) ∧
    (∀ e, LinkedMap.IsLast attributeName array e → isDerived e = false →
      ∃ value, convertDdwafObjectToJobject e.2 = .ok value ∧
        LinkedMap.get m (attributeName e) = some value) ∧
    outputConvertAttributesChecked ext (array.filter fun e => !isSchema e || isEncoded ext e) =
      .ok (.map m)

theorem attributeValue_of_not_isEncoded {e : Attribute}
    (h : (!isSchema e || isEncoded ext e) = false) : attributeValue ext e = none := by
  rw [Bool.or_eq_false_iff, Bool.not_eq_false'] at h
  have hencoded := h.2
  unfold isEncoded at hencoded
  split at hencoded
  . next hencode =>
    rw [attributeValue, convertAttribute_schema h.1, hencode]
    rfl
  . contradiction

theorem putAll_filter (array : List Attribute) :
    putAll ext [] (array.filter fun e => !isSchema e || isEncoded ext e) = putAll ext [] array := by
  have hfilter : (array.filter fun e => !isSchema e || isEncoded ext e).filter (hasValue ext) =
      array.filter (hasValue ext) := by
    rw [List.filter_filter]
    apply List.filter_congr
    intro e _
    cases hencoded : (!isSchema e || isEncoded ext e) with
    | true => rw [Bool.and_true]
    | false =>
      rw [hasValue, attributeValue_of_not_isEncoded hencoded]
      rfl
  rw [putAll, hfilter, putAll]

theorem isLast_attributeKey {array : List Attribute} {e : Attribute}
    (hlast : LinkedMap.IsLast attributeName array e) (hderived : isDerived e = false)
    (hvalue : hasValue ext e = true)
    (hnames : ∀ e, LinkedMap.IsLast attributeName array e → isDerived e = false →
      belowPlane2 e.1 = true) :
    LinkedMap.IsLast attributeKey (array.filter (hasValue ext)) e := by
  have ⟨l, r, hsplit, hr⟩ := id hlast
  refine ⟨l.filter (hasValue ext), r.filter (hasValue ext), ?_, ?_⟩
  . rw [hsplit, List.filter_append, List.filter_cons_of_pos hvalue]
  . intro e' he' hkey
    have hmem : e' ∈ r := List.mem_of_mem_filter he'
    have hexists : ∃ f ∈ array, attributeName f = attributeName e' :=
      ⟨e', by rw [hsplit]; simp [hmem], rfl⟩
    have ⟨f, hflast, hfname⟩ := LinkedMap.exists_isLast attributeName hexists
    have hfderived : isDerived f = false := by
      rw [isDerived_congr (attributeKey_congr hfname), isDerived_congr hkey]
      exact hderived
    have hbelow : attributeKey e' = attributeName e' := by
      rw [← attributeKey_congr hfname, ← hfname, attributeKey_eq_iff]
      exact hnames f hflast hfderived
    apply hr e' hmem
    rw [← hbelow, hkey, attributeKey_eq_iff]
    exact hnames e hlast hderived

theorem outputConvertAttributesChecked_faithful_iff (ext : Externals) (array : List Attribute) :
    AttributesFaithful ext array
      ↔
    (∀ e ∈ array, fitsJstring e.1 = true ∧ Convertible ext e) ∧
      ∀ e, LinkedMap.IsLast attributeName array e → isDerived e = false →
        hasBranch e.2 = true ∧ belowPlane2 e.1 = true := by
  constructor
  . intro ⟨m, hm, hvalues, _⟩
    have ⟨hall, hmap⟩ := outputConvertAttributesChecked_eq_ok_iff.mp hm
    cases hmap
    constructor
    . intro e he
      exact ⟨(hall e he).1, isConverted_iff.mp (hall e he).2⟩
    . intro e hlast hderived
      have ⟨value, hvalue, hget⟩ := hvalues e hlast hderived
      have hconvert := (convert_eq_ok_iff e.2 value).mp hvalue
      have ⟨e', _, hkey, hattribute⟩ := exists_of_get_putAll hget
      refine ⟨?_, belowPlane2_of_key_eq hkey⟩
      cases ho : e.2 with
      | array array =>
        rw [ho] at hconvert
        rw [hconvert.2] at hattribute
        exact absurd hattribute attributeValue_ne_list
      | invalid | null =>
        rw [ho] at hvalue
        contradiction
      | signed _ | unsigned _ | string _ | map _ | bool _ | float _ => rfl
  . intro ⟨hall, hlasts⟩
    refine ⟨putAll ext [] array, ?_, ?_, ?_⟩
    . rw [outputConvertAttributesChecked_eq_ok_iff]
      refine ⟨?_, rfl⟩
      intro e he
      exact ⟨(hall e he).1, isConverted_iff.mpr (hall e he).2⟩
    . intro e hlast hderived
      have ⟨hbranch, hbelow⟩ := hlasts e hlast hderived
      have ⟨hschema, hfingerprint⟩ := isDerived_eq_false hderived
      have ⟨l, r, hsplit, _⟩ := id hlast
      have hmem : e ∈ array := by
        rw [hsplit]
        exact List.mem_append_right l List.mem_cons_self
      have hconvertible := (hall e hmem).2
      rw [Convertible, hschema, hfingerprint] at hconvertible
      have hconvert : convertDdwafObjectToJobject e.2 = .ok (converted e.2) :=
        (convert_eq_ok_iff e.2 _).mpr ⟨hconvertible hbranch, rfl⟩
      have hvalue : attributeValue ext e = some (converted e.2) := by
        rw [attributeValue, convertAttribute_of_hasBranch hderived hbranch, hconvert]
        rfl
      have hhas : hasValue ext e = true := by
        rw [hasValue, hvalue]
        rfl
      refine ⟨converted e.2, hconvert, ?_⟩
      rw [← attributeKey_eq_iff.mpr hbelow]
      exact get_putAll (isLast_attributeKey hlast hderived hhas
        fun e hlast hderived => (hlasts e hlast hderived).2) hvalue
    . rw [outputConvertAttributesChecked_eq_ok_iff, putAll_filter]
      refine ⟨?_, rfl⟩
      intro e he
      have hmem := List.mem_of_mem_filter he
      exact ⟨(hall e hmem).1, isConverted_iff.mpr (hall e hmem).2⟩

def noExternals : Externals :=
  ⟨fun _ _ => none, fun _ => 0, fun _ => false, fun _ => 0, fun _ => none, fun _ => .ok []⟩

def arrayAttributes : List Attribute := [(cstr "tags", .array [.string (cstr "a")])]

/-- The names are U+10000 and U+20000. -/
def plane2Attributes : List Attribute :=
  [([0xF0, 0x90, 0x80, 0x80], .bool true), ([0xF0, 0xA0, 0x80, 0x80], .bool false)]

theorem outputConvertAttributesChecked_drops_array :
    outputConvertAttributesChecked noExternals arrayAttributes = .ok (.map []) ∧
    convertDdwafObjectToJobject (.array [.string (cstr "a")]) = .ok (.list [.string [0x61]]) ∧
    ¬AttributesFaithful noExternals arrayAttributes ∧
    outputConvertAttributesChecked noExternals plane2Attributes =
      .ok (.map [([0xD800, 0xDC00], .boolean false)]) ∧
    ¬AttributesFaithful noExternals plane2Attributes := by
  have harray : outputConvertAttributesChecked noExternals arrayAttributes = .ok (.map []) := by
    rfl
  have hplane2 : outputConvertAttributesChecked noExternals plane2Attributes =
      .ok (.map [([0xD800, 0xDC00], .boolean false)]) := by
    rfl
  refine ⟨harray, rfl, ?_, hplane2, ?_⟩
  . intro ⟨m, hm, hvalues, _⟩
    rw [harray] at hm
    cases hm
    have ⟨value, _, hget⟩ := hvalues (cstr "tags", .array [.string (cstr "a")])
      ⟨[], [], rfl, by simp⟩ (by decide)
    cases hget
  . intro ⟨m, hm, hvalues, _⟩
    rw [hplane2] at hm
    cases hm
    have hname : attributeName ([0xF0, 0x90, 0x80, 0x80], .bool true) = [0xD800, 0xDC00] := by
      decide +kernel
    have ⟨value, hvalue, hget⟩ := hvalues ([0xF0, 0x90, 0x80, 0x80], .bool true)
      ⟨[], [([0xF0, 0xA0, 0x80, 0x80], .bool false)], rfl, by decide +kernel⟩ (by decide)
    rw [hname] at hget
    cases hvalue
    cases hget

end Ddwaf
