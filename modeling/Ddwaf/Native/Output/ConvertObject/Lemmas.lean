import Ddwaf.Native.Output.ConvertObject.Impl
import Ddwaf.Native.Utf16Utf8.Ascii
import Ddwaf.Native.Utf16Utf8.RoundTrip

namespace Ddwaf

section ToJobject

variable (units : List Char → List UInt16) (ofU64 : UInt64 → Int)

mutual

/-- The Java value of an object, up to how characters and unsigned numbers are represented. -/
def toJobject : DdwafObject → JObject
  | .signed v => .long v.toInt
  | .unsigned v => .long (ofU64 v)
  | .float v => .double v
  | .bool b => .boolean b
  | .string s => .string (units (Utf8.decode s))
  | .array a => .list (toJobjects a)
  | .map a => .map (LinkedMap.ofEntries (toEntries a))
  | .invalid | .null => .null

def toJobjects : List DdwafObject → List JObject
  | [] => []
  | o :: rest => toJobject o :: toJobjects rest

def toEntries : List (List UInt8 × DdwafObject) → List (List UInt16 × JObject)
  | [] => []
  | (n, o) :: rest => (units (Utf8.decode n), toJobject o) :: toEntries rest

end

theorem toJobjects_eq (a : List DdwafObject) :
    toJobjects units ofU64 a = a.map (toJobject units ofU64) := by
  induction a with
  | nil => rfl
  | cons o rest ih => rw [toJobjects, ih, List.map_cons]

theorem toEntries_eq (a : List (List UInt8 × DdwafObject)) :
    toEntries units ofU64 a =
      a.map fun e => (units (Utf8.decode e.1), toJobject units ofU64 e.2) := by
  induction a with
  | nil => rfl
  | cons e rest ih => rw [toEntries, ih, List.map_cons]

end ToJobject

/--
The Java value that represents an object: of the entries of a map with the same name it has the last
one.
-/
def representation (o : DdwafObject) : JObject := toJobject Utf16.encode (fun v => v.toNat) o

def converted (o : DdwafObject) : JObject := toJobject jstringUnits (fun v => v.toInt64.toInt) o

def fitsJstring (s : List UInt8) : Bool :=
  s.length ≤ sizeMax / 2 - 1 && (jstringOf s).length ≤ intMax

def DdwafObject.convertible : DdwafObject → Bool
  | .invalid | .null => false
  | .string s => fitsJstring s
  | .array a => a.length ≤ intMax
  | .map a => a.all fun e => fitsJstring e.1
  | _ => true

theorem javaUtf8ToJstringChecked_eq_ok_iff (s : List UInt8) {u : List UInt16} :
    javaUtf8ToJstringChecked .total s = .ok u ↔ fitsJstring s = true ∧ u = jstringOf s := by
  constructor
  . intro h
    have hconv := javaUtf8ToJstringChecked_ok h
    have hunits := hconv.units_le
    rw [hconv.eq] at hunits
    refine ⟨?_, hconv.eq⟩
    simp only [fitsJstring, Bool.and_eq_true, decide_eq_true_eq]
    exact ⟨hconv.length_le, hunits⟩
  . rintro ⟨h, rfl⟩
    simp only [fitsJstring, Bool.and_eq_true, decide_eq_true_eq] at h
    exact javaUtf8ToJstringChecked_of_converted h.1 h.2

theorem bind_eq_ok_iff {x : Native α} {f : α → Native β} {b : β} :
    (x >>= f) = .ok b ↔ ∃ a, x = .ok a ∧ f a = .ok b := by
  cases x with
  | error e => simp
  | ok a => simp

theorem bind_eq_ok_iff_of {x : Native α} {p : Prop} {a : α} (hx : ∀ r, x = .ok r ↔ p ∧ r = a)
    {f : α → Native β} {b : β} : (x >>= f) = .ok b ↔ p ∧ f a = .ok b := by
  rw [bind_eq_ok_iff]
  constructor
  . intro ⟨r, hr, hf⟩
    have ⟨hp, heq⟩ := (hx r).mp hr
    rw [heq] at hf
    exact ⟨hp, hf⟩
  . intro ⟨hp, hf⟩
    exact ⟨a, (hx a).mpr ⟨hp, rfl⟩, hf⟩

theorem convertElements_eq_ok_iff {array : List DdwafObject} {ret js : List JObject}
    (ih : ∀ o ∈ array, ∀ j, convertDdwafObjectToJobject o = .ok j ↔
      o.all DdwafObject.convertible = true ∧ j = converted o) :
    convertElements array ret = .ok js ↔
      (∀ o ∈ array, o.all DdwafObject.convertible = true) ∧ js = ret ++ array.map converted := by
  induction array generalizing ret with
  | nil =>
    rw [convertElements, Except.ok.injEq, eq_comm]
    simp
  | cons o rest ihRest =>
    rw [List.forall_mem_cons] at ih
    rw [convertElements, bind_eq_ok_iff, List.forall_mem_cons]
    constructor
    . rintro ⟨j, ho, hrest⟩
      rw [ih.1] at ho
      rw [ihRest ih.2] at hrest
      refine ⟨⟨ho.1, hrest.1⟩, ?_⟩
      rw [hrest.2, ho.2, List.append_assoc]
      rfl
    . rintro ⟨⟨ho, hrest⟩, rfl⟩
      refine ⟨converted o, (ih.1 _).mpr ⟨ho, rfl⟩, ?_⟩
      rw [ihRest ih.2, List.append_assoc]
      exact ⟨hrest, rfl⟩

theorem convertEntries_eq_ok_iff {array : List (List UInt8 × DdwafObject)}
    {ret js : List (List UInt16 × JObject)}
    (ih : ∀ e ∈ array, ∀ j, convertDdwafObjectToJobject e.2 = .ok j ↔
      e.2.all DdwafObject.convertible = true ∧ j = converted e.2) :
    convertEntries array ret = .ok js ↔
      (∀ e ∈ array, fitsJstring e.1 = true ∧ e.2.all DdwafObject.convertible = true) ∧
        js = (array.map fun e => (jstringOf e.1, converted e.2)).foldl
          (fun m e => LinkedMap.put m e.1 e.2) ret := by
  induction array generalizing ret with
  | nil =>
    rw [convertEntries, Except.ok.injEq, eq_comm]
    simp
  | cons e rest ihRest =>
    rw [List.forall_mem_cons] at ih
    rw [convertEntries, bind_eq_ok_iff, List.forall_mem_cons]
    constructor
    . rintro ⟨k, hk, h⟩
      rw [javaUtf8ToJstringChecked_eq_ok_iff] at hk
      rw [bind_eq_ok_iff] at h
      obtain ⟨j, ho, hrest⟩ := h
      rw [ih.1] at ho
      rw [ihRest ih.2] at hrest
      refine ⟨⟨⟨hk.1, ho.1⟩, hrest.1⟩, ?_⟩
      rw [hrest.2, ho.2, hk.2]
      rfl
    . rintro ⟨⟨⟨hk, ho⟩, hrest⟩, rfl⟩
      refine ⟨jstringOf e.1, (javaUtf8ToJstringChecked_eq_ok_iff _).mpr ⟨hk, rfl⟩, ?_⟩
      rw [bind_eq_ok_iff]
      refine ⟨converted e.2, (ih.1 _).mpr ⟨ho, rfl⟩, ?_⟩
      rw [ihRest ih.2]
      exact ⟨hrest, rfl⟩

theorem convert_eq_ok_iff (o : DdwafObject) (j : JObject) :
    convertDdwafObjectToJobject o = .ok j ↔
      o.all DdwafObject.convertible = true ∧ j = converted o := by
  induction o using DdwafObject.ind generalizing j with
  | invalid => simp [convertDdwafObjectToJobject, throwRte, DdwafObject.all, DdwafObject.convertible]
  | null => simp [convertDdwafObjectToJobject, throwRte, DdwafObject.all, DdwafObject.convertible]
  | signed v =>
    simp [convertDdwafObjectToJobject, DdwafObject.all, DdwafObject.convertible, converted,
      toJobject, eq_comm]
  | unsigned v =>
    simp [convertDdwafObjectToJobject, DdwafObject.all, DdwafObject.convertible, converted,
      toJobject, eq_comm]
  | float v =>
    simp [convertDdwafObjectToJobject, DdwafObject.all, DdwafObject.convertible, converted,
      toJobject, eq_comm]
  | bool b =>
    simp [convertDdwafObjectToJobject, DdwafObject.all, DdwafObject.convertible, converted,
      toJobject, eq_comm]
  | string s =>
    simp only [convertDdwafObjectToJobject, bind_eq_ok_iff, javaUtf8ToJstringChecked_eq_ok_iff,
      DdwafObject.all, DdwafObject.convertible, converted, toJobject]
    constructor
    . rintro ⟨u, ⟨hfits, rfl⟩, h⟩
      exact ⟨hfits, (Except.ok.inj h).symm⟩
    . rintro ⟨hfits, rfl⟩
      exact ⟨jstringOf s, ⟨hfits, rfl⟩, rfl⟩
  | array a ih =>
    simp only [convertDdwafObjectToJobject, DdwafObject.all, DdwafObject.convertible,
      DdwafObject.allArray_eq, Bool.and_eq_true, decide_eq_true_eq, List.all_eq_true, converted,
      toJobject, toJobjects_eq]
    split
    . next hlen =>
      constructor
      . intro h
        contradiction
      . intro h
        omega
    . next hlen =>
      simp only [bind_eq_ok_iff, convertElements_eq_ok_iff ih]
      constructor
      . rintro ⟨js, ⟨hall, rfl⟩, h⟩
        exact ⟨⟨by omega, hall⟩, (Except.ok.inj h).symm⟩
      . rintro ⟨⟨-, hall⟩, rfl⟩
        exact ⟨_, ⟨hall, rfl⟩, rfl⟩
  | map a ih =>
    simp only [convertDdwafObjectToJobject, DdwafObject.all, DdwafObject.convertible,
      DdwafObject.allMap_eq, Bool.and_eq_true, List.all_eq_true, converted, toJobject,
      toEntries_eq, bind_eq_ok_iff, convertEntries_eq_ok_iff ih]
    constructor
    . rintro ⟨js, ⟨hall, rfl⟩, h⟩
      refine ⟨⟨?_, ?_⟩, (Except.ok.inj h).symm⟩
      . intro e he
        exact (hall e he).1
      . intro e he
        exact (hall e he).2
    . rintro ⟨⟨hnames, hall⟩, rfl⟩
      exact ⟨_, ⟨fun e he => ⟨hnames e he, hall e he⟩, rfl⟩, rfl⟩

end Ddwaf
