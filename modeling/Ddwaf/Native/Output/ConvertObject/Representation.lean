import Ddwaf.Native.Output.ConvertObject.Lemmas

/-!
This module contains the proof of when the conversion to Java objects keeps what an object says.
-/

namespace Ddwaf

def belowPlane2 (s : List UInt8) : Bool := (Utf8.decode s).all fun c => c.toNat < 0x20000

mutual

def DdwafObject.isExact : DdwafObject → Bool
  | .unsigned v => v.toNat < 2 ^ 63
  | .string s => belowPlane2 s
  | .array a => isExactArray a
  | .map a => isExactMap a
  | _ => true

def DdwafObject.isExactArray : List DdwafObject → Bool
  | [] => true
  | o :: rest => o.isExact && isExactArray rest

def DdwafObject.isExactMap : List (List UInt8 × DdwafObject) → Bool
  | [] => true
  | (n, o) :: rest =>
    belowPlane2 n && (rest.any (fun e => Utf8.decode e.1 = Utf8.decode n) || o.isExact) &&
      isExactMap rest

end

def entryKey (e : List UInt8 × DdwafObject) : List UInt16 := Utf16.encode (Utf8.decode e.1)

theorem encode_inj {cs ds : List Char} : Utf16.encode cs = Utf16.encode ds ↔ cs = ds := by
  constructor
  . intro h
    rw [← Utf16.decode_encode cs, h, Utf16.decode_encode]
  . intro h
    rw [h]

theorem isLast_cons {α K : Type} (key : α → K) (a b : α) (as : List α) :
    LinkedMap.IsLast key (a :: as) b ↔
      (b = a ∧ ∀ c ∈ as, key c ≠ key a) ∨ LinkedMap.IsLast key as b := by
  constructor
  . rintro ⟨p, r, heq, hr⟩
    cases p with
    | nil =>
      rw [List.nil_append, List.cons.injEq] at heq
      left
      rw [heq.1, heq.2]
      exact ⟨rfl, hr⟩
    | cons c p =>
      rw [List.cons_append, List.cons.injEq] at heq
      right
      exact ⟨p, r, heq.2, hr⟩
  . rintro (⟨rfl, h⟩ | ⟨p, r, rfl, hr⟩)
    . exact ⟨[], as, rfl, h⟩
    . exact ⟨a :: p, r, rfl, hr⟩

theorem isExactArray_iff (a : List DdwafObject) :
    DdwafObject.isExactArray a = true ↔ ∀ o ∈ a, o.isExact = true := by
  induction a with
  | nil => simp [DdwafObject.isExactArray]
  | cons o rest ih => rw [DdwafObject.isExactArray, Bool.and_eq_true, ih, List.forall_mem_cons]

theorem isExactMap_iff (a : List (List UInt8 × DdwafObject)) :
    DdwafObject.isExactMap a = true ↔
      (∀ e ∈ a, belowPlane2 e.1 = true) ∧
        ∀ e, LinkedMap.IsLast entryKey a e → e.2.isExact = true := by
  induction a with
  | nil => simp [DdwafObject.isExactMap, LinkedMap.IsLast]
  | cons e rest ih =>
    have hany : (rest.any fun e' => Utf8.decode e'.1 = Utf8.decode e.1) = true ↔
        ¬ ∀ e' ∈ rest, entryKey e' ≠ entryKey e := by
      simp [entryKey, encode_inj]
    rw [DdwafObject.isExactMap, Bool.and_eq_true, Bool.and_eq_true, Bool.or_eq_true, ih, hany,
      List.forall_mem_cons]
    constructor
    . rintro ⟨⟨hname, he⟩, hnames, hrest⟩
      refine ⟨⟨hname, hnames⟩, ?_⟩
      intro e' he'
      rw [isLast_cons] at he'
      rcases he' with ⟨rfl, hlast⟩ | he'
      . rcases he with he | he
        . contradiction
        . exact he
      . exact hrest e' he'
    . rintro ⟨⟨hname, hnames⟩, hlast⟩
      refine ⟨⟨hname, ?_⟩, hnames, ?_⟩
      . by_cases h : ∀ e' ∈ rest, entryKey e' ≠ entryKey e
        . right
          apply hlast
          rw [isLast_cons]
          exact Or.inl ⟨rfl, h⟩
        . exact Or.inl h
      . intro e' he'
        apply hlast
        rw [isLast_cons]
        exact Or.inr he'

section Plane

theorem writeUtf16Codeunits_belowPlane2 (c : Char) :
    ∀ u ∈ writeUtf16Codeunits c.toNat, leadBeyondPlane1 u = false := by
  intro u hu
  have hvalid : c.toNat.isValidChar := c.valid
  unfold Nat.isValidChar at hvalid
  simp only [leadBeyondPlane1, Bool.and_eq_false_iff, decide_eq_false_iff_not,
    UInt16.le_iff_toNat_le, UInt16.reduceToNat]
  by_cases hlt : c.toNat < 0x10000
  . rw [writeUtf16Codeunits.eq_of_lt hlt, List.mem_singleton] at hu
    rw [hu, Utf16.toNat_ofNat_of_lt hlt]
    omega
  . rw [writeUtf16Codeunits.eq_of_le (by omega)] at hu
    simp only [List.mem_cons, List.not_mem_nil, or_false] at hu
    rcases hu with hu | hu
    . rw [hu, Utf16.toNat_ofNat_of_lt (by omega)]
      omega
    . rw [hu, Utf16.toNat_ofNat_of_lt (by omega)]
      omega

theorem belowPlane2_iff (s : List UInt8) :
    belowPlane2 s = true ↔ jstringOf s = Utf16.encode (Utf8.decode s) := by
  rw [jstringOf, jstringUnits_eq_encode_iff]
  simp [belowPlane2]

theorem encode_ne_jstringOf {cs : List Char} (n : List UInt8)
    (h : ¬ ∀ c ∈ cs, c.toNat < 0x20000) : Utf16.encode cs ≠ jstringOf n := by
  intro heq
  apply h
  rw [← Utf16.decode_encode cs, decode_lt_iff (Utf16.wellFormed_encode cs), heq]
  intro u hu
  rw [jstringOf, jstringUnits, List.mem_flatMap] at hu
  obtain ⟨c, -, hu⟩ := hu
  exact writeUtf16Codeunits_belowPlane2 c u hu

end Plane

theorem ofEntries_jstringOf_eq_iff {β : Type u} {V : Type v} (es : List (List UInt8 × β))
    {f g : List UInt8 × β → V} :
    LinkedMap.ofEntries (es.map fun e => (jstringOf e.1, f e)) =
        LinkedMap.ofEntries (es.map fun e => (Utf16.encode (Utf8.decode e.1), g e))
      ↔
    (∀ e ∈ es, belowPlane2 e.1 = true) ∧
      ∀ e, LinkedMap.IsLast (fun e => Utf16.encode (Utf8.decode e.1)) es e → f e = g e := by
  by_cases hnames : ∀ e ∈ es, belowPlane2 e.1 = true
  . have hkeys : (es.map fun e => (jstringOf e.1, f e)) =
        es.map fun e => (Utf16.encode (Utf8.decode e.1), f e) := by
      apply List.map_congr_left
      intro e he
      rw [(belowPlane2_iff e.1).mp (hnames e he)]
    rw [and_iff_right hnames, hkeys]
    exact LinkedMap.ofEntries_eq_iff (fun e => Utf16.encode (Utf8.decode e.1)) f g es
  . constructor
    . intro h
      exfalso
      apply hnames
      intro e he
      by_contra hname
      have hmem : Utf16.encode (Utf8.decode e.1) ∈ LinkedMap.keys (LinkedMap.ofEntries
          (es.map fun e => (Utf16.encode (Utf8.decode e.1), g e))) := by
        rw [LinkedMap.mem_keys_ofEntries, LinkedMap.keys, List.map_map, List.mem_map]
        exact ⟨e, he, rfl⟩
      rw [← h, LinkedMap.mem_keys_ofEntries, LinkedMap.keys, List.map_map, List.mem_map] at hmem
      obtain ⟨e', _, heq⟩ := hmem
      apply encode_ne_jstringOf e'.1 _ heq.symm
      intro hall
      apply hname
      simpa [belowPlane2] using hall
    . intro h
      exact absurd h.1 hnames

theorem toInt_toInt64 (v : UInt64) : v.toInt64.toInt = v.toNat ↔ v.toNat < 2 ^ 63 := by
  have hlt := v.toNat_lt
  have heq : v.toInt64.toInt = (v.toNat : Int).bmod (2 ^ 64) :=
    BitVec.toInt_eq_toNat_bmod v.toBitVec
  rw [heq, Int.bmod]
  split <;> omega

theorem converted_eq_iff (o : DdwafObject) :
    converted o = representation o ↔ o.isExact = true := by
  induction o using DdwafObject.ind with
  | invalid => simp [converted, representation, toJobject, DdwafObject.isExact]
  | null => simp [converted, representation, toJobject, DdwafObject.isExact]
  | signed v => simp [converted, representation, toJobject, DdwafObject.isExact]
  | float v => simp [converted, representation, toJobject, DdwafObject.isExact]
  | bool b => simp [converted, representation, toJobject, DdwafObject.isExact]
  | unsigned v =>
    rw [converted, representation, toJobject, toJobject, JObject.long.injEq, toInt_toInt64,
      DdwafObject.isExact, decide_eq_true_eq]
  | string s =>
    rw [converted, representation, toJobject, toJobject, JObject.string.injEq, DdwafObject.isExact,
      belowPlane2_iff]
    rfl
  | array a ih =>
    rw [converted, representation, toJobject, toJobject, JObject.list.injEq, toJobjects_eq,
      toJobjects_eq, List.map_inj_left, DdwafObject.isExact, isExactArray_iff]
    exact forall₂_congr ih
  | map a ih =>
    rw [converted, representation, toJobject, toJobject, JObject.map.injEq, toEntries_eq,
      toEntries_eq, DdwafObject.isExact, isExactMap_iff]
    apply (ofEntries_jstringOf_eq_iff a).trans
    apply and_congr Iff.rfl
    apply forall_congr'
    intro e
    constructor
    . intro h hlast
      obtain ⟨p, r, heq, _⟩ := id hlast
      rw [← ih e (by simp [heq])]
      exact h hlast
    . intro h hlast
      obtain ⟨p, r, heq, _⟩ := id hlast
      exact (ih e (by simp [heq])).mpr (h hlast)

/--
Of maps with a name that comes up more than once, the last value counts.
-/
theorem convert_eq_representation_iff (o : DdwafObject) :
    convertDdwafObjectToJobject o = .ok (representation o)
      ↔
    o.all DdwafObject.convertible = true ∧ o.isExact = true := by
  rw [convert_eq_ok_iff, eq_comm (a := representation o), converted_eq_iff]

theorem convert_null :
    convertDdwafObjectToJobject (.array [.null]) =
      .error (.thrown ⟨.runtimeException, "Unknown ddwaf object type"⟩) ∧
    convertDdwafObjectToJobject (.array [.null]) ≠ .ok (representation (.array [.null])) := by
  constructor
  . rfl
  . intro h
    contradiction

end Ddwaf
