import Ddwaf.Native.DebugHelpers.Lemmas
import Ddwaf.Native.DebugHelpers.Readable

/-!
This module contains what `_hstring_write_pwargs` writes for an object, as a list of pieces of text,
and that reading the object stays within the memory that the object is on.
-/

namespace Ddwaf

namespace DebugHelpers

open Memory

section Fields

variable {mem : Mapped} {m : Memory}

theorem loadBytes_eq {a n : Nat} (h : ∀ x, a ≤ x → x < a + n → mem x = some (m x)) :
    loadBytes mem a n = .ok (read m a n) := by
  induction n generalizing a with
  | zero => rfl
  | succ n ih =>
    rw [loadBytes, h a (by omega) (by omega), ih, Memory.read]
    . rfl
    . intro x hge hlt
      exact h x (by omega) (by omega)

structure HasFields (pwargs : Fields) (r : Record) : Prop where
  parameterName : parameterName pwargs = .ok r.parameterName
  parameterNameLength : parameterNameLength pwargs = .ok r.parameterNameLength
  union : union pwargs = .ok r.union
  boolean : boolean pwargs = .ok (r.union % 256)
  nbEntries : nbEntries pwargs = .ok r.nbEntries
  type : type pwargs = .ok r.type

theorem readLe_one (m : Memory) (a : Nat) : readLe m a 1 = readLe m a 8 % 256 := by
  have hlt := (m a).toNat_lt
  simp only [readLe, Memory.read, leValue]
  omega

theorem hasFields_of_readLe {pwargs : Fields} {A : Nat}
    (h : ∀ offset n, offset + n ≤ 36 → pwargs offset n = .ok (readLe m (A + offset) n)) :
    HasFields pwargs (readRecord m A) := by
  constructor
  . exact h 0 8 (by decide)
  . exact h 8 8 (by decide)
  . exact h 16 8 (by decide)
  . rw [boolean, h 16 1 (by decide), readLe_one]
    rfl
  . exact h 24 8 (by decide)
  . exact h 32 4 (by decide)

theorem hasFields_ofPointer {A : Nat} (h : ∀ x ∈ recordRange A, mem x = some (m x)) :
    HasFields (ofPointer mem A) (readRecord m A) := by
  apply hasFields_of_readLe
  intro offset n hle
  rw [ofPointer, loadBytes_eq (m := m)]
  . rfl
  . intro x hge hlt
    exact h x ⟨by omega, by omega⟩

theorem read_drop_take (m : Memory) (a : Nat) {offset n size : Nat} (h : offset + n ≤ size) :
    ((read m a size).drop offset).take n = read m (a + offset) n := by
  obtain ⟨rest, rfl⟩ := Nat.exists_eq_add_of_le h
  rw [Nat.add_assoc, read_append, read_append, List.drop_left' (length_read ..),
    List.take_left' (length_read ..)]

theorem hasFields_ofCopy (m : Memory) (A : Nat) :
    HasFields (ofCopy (read m A sizeofPwargs)) (readRecord m A) := by
  apply hasFields_of_readLe
  intro offset n hle
  have hsize : offset + n ≤ sizeofPwargs := Nat.le_trans hle (by decide)
  rw [ofCopy, loadRange_of_le (by rw [length_read]; exact hsize), read_drop_take m A hsize]
  rfl

end Fields

section Shows

def namePieces : Option (List UInt8) → List (List UInt8)
  | none => []
  | some name => [name, cstr ": "]

/-- What is shown of a number, given the size of the buffer that the source prints it into. -/
abbrev Shown := Nat → List UInt8 → List (List UInt8)

def whole : Shown := fun _ text => [text]

def valuePieces (shown : Shown) : PWArgs → List (List UInt8)
  | .invalid => [cstr "<INVALID>\n"]
  | .signed intValue => cstr "<SIGNED> " :: (shown 21 (formatI64 intValue) ++ [cstr "\n"])
  | .unsigned uintValue => cstr "<UNSIGNED> " :: (shown 21 (formatU64 uintValue) ++ [cstr "\n"])
  | .string stringValue => [cstr "<STRING> ", stringValue, cstr "\n"]
  | .array _ => [cstr "<ARRAY>\n"]
  | .map _ => [cstr "<MAP>\n"]
  | .bool boolean => [cstr "<BOOL> ", cstr (if boolean then "true\n" else "false\n")]
  | .float f64 => cstr "<FLOAT> " :: (shown 26 (formatE18 f64) ++ [cstr "\n"])
  | .null => [cstr "<NULL>\n"]

def pieces (shown : Shown) : Nat → Option (List UInt8) → PWArgs → List (List UInt8)
  | 0, _, _ => []
  | n + 1, name, o =>
    List.replicate ((maxDepth - n) * 2) 0x20 :: (namePieces name ++
      (valuePieces shown o ++ o.parts.flatMap fun part => pieces shown n part.1 part.2))

/-- The buffer for a `FLOAT` is too small for a text of 26 characters. -/
def FloatsFit : Nat → PWArgs → Prop
  | 0, _ => True
  | n + 1, o =>
    (∀ f64, o = .float f64 → (formatE18 f64).length < 26) ∧ ∀ part ∈ o.parts, FloatsFit n part.2

-- `-1e100`
example : ¬FloatsFit 1 (.float 0xD4B249AD2594C37D) := by
  intro h
  exact absurd (h.1 _ rfl) (by decide +kernel)

section Sublist

variable {α β : Type} {xs xs' ys ys' : List α}

theorem sublist_append_eq_iff (hx : xs.Sublist xs') (hy : ys.Sublist ys') :
    xs ++ ys = xs' ++ ys' ↔ xs = xs' ∧ ys = ys' := by
  constructor
  . intro h
    have hlength := congrArg List.length h
    rw [List.length_append, List.length_append] at hlength
    have hxle := hx.length_le
    have hyle := hy.length_le
    exact ⟨hx.eq_of_length (by omega), hy.eq_of_length (by omega)⟩
  . rintro ⟨rfl, rfl⟩
    rfl

theorem sublist_flatMap {f g : β → List α} (l : List β) (h : ∀ b ∈ l, (f b).Sublist (g b)) :
    (l.flatMap f).Sublist (l.flatMap g) := by
  induction l with
  | nil => exact List.Sublist.refl _
  | cons b l ih =>
    obtain ⟨hb, hl⟩ := List.forall_mem_cons.mp h
    rw [List.flatMap_cons, List.flatMap_cons]
    exact hb.append (ih hl)

theorem sublist_flatMap_eq_iff {f g : β → List α} {l : List β} (h : ∀ b ∈ l, (f b).Sublist (g b)) :
    l.flatMap f = l.flatMap g ↔ ∀ b ∈ l, f b = g b := by
  induction l with
  | nil => simp
  | cons b l ih =>
    obtain ⟨hb, hl⟩ := List.forall_mem_cons.mp h
    rw [List.flatMap_cons, List.flatMap_cons, sublist_append_eq_iff hb (sublist_flatMap l hl),
      List.forall_mem_cons, ih hl]

end Sublist

theorem valuePieces_sublist (o : PWArgs) : (valuePieces printed o).Sublist (valuePieces whole o) := by
  have hshown (size : Nat) (text : List UInt8) : (printed size text).Sublist (whole size text) := by
    unfold printed whole
    split
    . exact List.Sublist.refl _
    . exact List.nil_sublist _
  cases o with
  | signed _ | unsigned _ | float _ => exact ((hshown _ _).append (List.Sublist.refl _)).cons_cons _
  | _ => exact List.Sublist.refl _

theorem valuePieces_eq_iff (o : PWArgs) :
    valuePieces printed o = valuePieces whole o ↔
      ∀ f64, o = .float f64 → (formatE18 f64).length < 26 := by
  cases o with
  | signed intValue => simp [valuePieces, printed_formatI64, whole]
  | unsigned uintValue => simp [valuePieces, printed_formatU64, whole]
  | float f64 =>
    simp only [valuePieces, printed, whole, PWArgs.float.injEq, forall_eq']
    split
    . next h => simp [h]
    . next h => simp [h]
  | _ => simp [valuePieces]

theorem pieces_sublist (n : Nat) (name : Option (List UInt8)) (o : PWArgs) :
    (pieces printed n name o).Sublist (pieces whole n name o) := by
  induction n generalizing name o with
  | zero => exact List.Sublist.refl _
  | succ n ih =>
    apply List.Sublist.cons_cons
    apply (List.Sublist.refl _).append
    exact (valuePieces_sublist o).append (sublist_flatMap _ fun part _ => ih part.1 part.2)

theorem pieces_eq_iff (n : Nat) (name : Option (List UInt8)) (o : PWArgs) :
    pieces printed n name o = pieces whole n name o ↔ FloatsFit n o := by
  induction n generalizing name o with
  | zero => simp [pieces, FloatsFit]
  | succ n ih =>
    have hparts := sublist_flatMap_eq_iff (l := o.parts) fun part _ => pieces_sublist n part.1 part.2
    rw [pieces, pieces, List.cons.injEq, and_iff_right rfl, List.append_cancel_left_eq,
      sublist_append_eq_iff (valuePieces_sublist o)
        (sublist_flatMap _ fun part _ => pieces_sublist n part.1 part.2),
      valuePieces_eq_iff, hparts, FloatsFit]
    exact and_congr_right fun _ => forall₂_congr fun part _ => ih part.1 part.2

variable {mem : Mapped} {realloc : Realloc} {m : Memory} {F : Set Nat}

structure Maps (mem : Mapped) (m : Memory) (F : Set Nat) : Prop where
  eq : ∀ x ∈ F, mem x = some (m x)
  lt : ∀ x ∈ F, x < 2 ^ 63

theorem Maps.loadBytes_eq (h : Maps mem m F) {a n : Nat} (hmem : ∀ x, a ≤ x → x < a + n → x ∈ F) :
    loadBytes mem a n = .ok (read m a n) :=
  DebugHelpers.loadBytes_eq fun x hge hlt => h.eq x (hmem x hge hlt)

theorem Maps.length_le (h : Maps mem m F) {a n : Nat} (hmem : ∀ x, a ≤ x → x < a + n → x ∈ F) :
    n ≤ 2 ^ 63 := by
  cases n with
  | zero => exact Nat.zero_le _
  | succ n =>
    have hlt := h.lt (a + n) (hmem (a + n) (by omega) (by omega))
    omega

theorem appends_bytes (h : Maps mem m F) {a n : Nat} (hmem : ∀ x, a ≤ x → x < a + n → x ∈ F) :
    Appends realloc (hstringAppend realloc n (loadBytes mem a n)) [read m a n] := by
  have hlength : (read m a n).length ≤ 2 ^ 63 := by
    rw [length_read]
    exact h.length_le hmem
  have happends : Appends realloc (hstringAppend realloc _ (.ok (read m a n))) [read m a n] :=
    appends_hstringAppend hlength
  rw [length_read] at happends
  rw [h.loadBytes_eq hmem]
  exact happends

theorem appends_writeName (h : Maps mem m F) {pwargs : Fields} {r : Record}
    (hfields : HasFields pwargs r)
    (hmem : r.parameterName ≠ 0 → ∀ x, r.parameterName ≤ x →
      x < r.parameterName + r.parameterNameLength → x ∈ F) :
    Appends realloc (writeName mem realloc pwargs) (namePieces (readName m r)) := by
  by_cases hname : r.parameterName = 0
  . rw [readName, if_pos hname]
    apply Emits.nil.congr
    intro str
    simp [writeName, hfields.parameterName, hname]
  . rw [readName, if_neg hname]
    apply ((appends_bytes h (hmem hname)).bind (appends_hstringAppendConst _ (by decide))).congr
    intro str
    simp [writeName, hfields.parameterName, hfields.parameterNameLength, hname]

theorem appends_writeEach {α : Type} {text : α → List (List UInt8)}
    {write : Fields → HString → Native HString} {pwargs : Fields} {array : Nat}
    (harray : union pwargs = .ok array) (parts : List α) (i : Nat)
    (h : ∀ j part, parts[j]? = some part →
      Appends realloc (write (ofPointer mem (array + (i + j) * sizeofPwargs))) (text part)) :
    Appends realloc (writeEach mem write pwargs i parts.length) (parts.flatMap text) := by
  induction parts generalizing i with
  | nil => exact Emits.nil
  | cons part parts ih =>
    have hrest : ∀ j part, parts[j]? = some part →
        Appends realloc (write (ofPointer mem (array + (i + 1 + j) * sizeofPwargs))) (text part) := by
      intro j part hpart
      have hj := h (j + 1) part (by rw [List.getElem?_cons_succ, hpart])
      rwa [Nat.add_comm j 1, ← Nat.add_assoc] at hj
    apply ((h 0 part rfl).bind (ih (i + 1) hrest)).congr
    intro str
    rw [List.length_cons, writeEach, harray]
    rfl

theorem appends_line (head : String) {x : HString → Native HString} {ps : List (List UInt8)}
    (hhead : (cstr head).length ≤ 2 ^ 63) (hx : Appends realloc x ps) :
    Appends realloc (fun str => do
      let str ← hstringAppendConst realloc head str
      let str ← x str
      hstringAppendConst realloc "\n" str) (cstr head :: (ps ++ [cstr "\n"])) :=
  (appends_hstringAppendConst head hhead).bind (hx.bind (appends_hstringAppendConst _ (by decide)))

theorem appends_parts {fuel n : Nat} {o : PWArgs}
    (ih : ∀ A name o, Readable m F fuel A name o →
      Appends realloc (hstringWritePwargs mem realloc n (ofPointer mem A)) (pieces printed n name o))
    {pwargs : Fields} {r : Record} (hfields : HasFields pwargs r) (hparts : ReadableParts m F fuel r o) :
    Appends realloc (writeEach mem (hstringWritePwargs mem realloc n) pwargs 0 r.nbEntries)
      (o.parts.flatMap fun part => pieces printed n part.1 part.2) := by
  rw [hparts.length_eq]
  apply appends_writeEach hfields.union
  intro i part hpart
  rw [Nat.zero_add]
  exact ih _ part.1 part.2 (hparts.part i part hpart)

theorem appends_writeValue (h : Maps mem m F) {fuel n : Nat} {o : PWArgs}
    (ih : ∀ A name o, Readable m F fuel A name o →
      Appends realloc (hstringWritePwargs mem realloc n (ofPointer mem A)) (pieces printed n name o))
    {pwargs : Fields} {r : Record} (hfields : HasFields pwargs r)
    (hvalue : ReadableValue m F fuel r o) :
    Appends realloc (writeValue mem realloc (hstringWritePwargs mem realloc n) pwargs)
      (valuePieces printed o ++ o.parts.flatMap fun part => pieces printed n part.1 part.2) := by
  have htype := hfields.type
  -- Only an array and a map have elements.
  have hleaf {x : HString → Native HString} {ps : List (List UInt8)} (hx : Appends realloc x ps) :
      Appends realloc x (ps ++ []) := by
    rw [List.append_nil]
    exact hx
  cases hvalue with
  | invalid hinvalid =>
    apply hleaf
    apply (appends_hstringAppendConst "<INVALID>\n" (by decide)).congr
    intro str
    simp [writeValue, htype, hinvalid, pwiInvalid, ddwafObjInvalid]
  | signed hsigned =>
    apply hleaf
    apply (appends_line "<SIGNED> " (by decide) (appends_appendPrinted (by decide) _)).congr
    intro str
    simp [writeValue, htype, hsigned, hfields.union, pwiSignedNumber, ddwafObjInvalid, ddwafObjNull,
      ddwafObjSigned]
  | unsigned hunsigned =>
    apply hleaf
    apply (appends_line "<UNSIGNED> " (by decide) (appends_appendPrinted (by decide) _)).congr
    intro str
    simp [writeValue, htype, hunsigned, hfields.union, pwiUnsignedNumber, ddwafObjInvalid, ddwafObjNull,
      ddwafObjSigned, ddwafObjUnsigned]
  | string hstring hmem =>
    apply hleaf
    apply (appends_line "<STRING> " (by decide) (appends_bytes h hmem)).congr
    intro str
    simp [writeValue, htype, hstring, hfields.union, hfields.nbEntries, pwiString, ddwafObjInvalid,
      ddwafObjNull, ddwafObjSigned, ddwafObjUnsigned, ddwafObjFloat, ddwafObjBool, ddwafObjString]
  | array harray hreadable =>
    have hall := appends_parts ih hfields hreadable
    apply ((appends_hstringAppendConst "<ARRAY>\n" (by decide)).bind hall).congr
    intro str
    simp [writeValue, htype, harray, hfields.nbEntries, pwiArray, ddwafObjInvalid, ddwafObjNull,
      ddwafObjSigned, ddwafObjUnsigned, ddwafObjFloat, ddwafObjBool, ddwafObjString, ddwafObjArray]
  | map hmap hreadable =>
    have hall := appends_parts ih hfields hreadable
    apply ((appends_hstringAppendConst "<MAP>\n" (by decide)).bind hall).congr
    intro str
    simp [writeValue, htype, hmap, hfields.nbEntries, pwiMap, ddwafObjInvalid, ddwafObjNull,
      ddwafObjSigned, ddwafObjUnsigned, ddwafObjFloat, ddwafObjBool, ddwafObjString, ddwafObjArray,
      ddwafObjMap]
  | bool hbool =>
    apply hleaf
    rw [valuePieces]
    by_cases hzero : r.union % 256 = 0
    . rw [if_neg (by simp [hzero])]
      apply ((appends_hstringAppendConst "<BOOL> " (by decide)).bind
        (appends_hstringAppendConst "false\n" (by decide))).congr
      intro str
      simp [writeValue, htype, hbool, hfields.boolean, hzero, pwiBool, ddwafObjInvalid, ddwafObjNull,
        ddwafObjSigned, ddwafObjUnsigned, ddwafObjFloat, ddwafObjBool]
    . rw [if_pos (by simp [hzero])]
      apply ((appends_hstringAppendConst "<BOOL> " (by decide)).bind
        (appends_hstringAppendConst "true\n" (by decide))).congr
      intro str
      simp [writeValue, htype, hbool, hfields.boolean, hzero, pwiBool, ddwafObjInvalid, ddwafObjNull,
        ddwafObjSigned, ddwafObjUnsigned, ddwafObjFloat, ddwafObjBool]
  | float hfloat =>
    apply hleaf
    apply (appends_line "<FLOAT> " (by decide) (appends_appendPrinted (by decide) _)).congr
    intro str
    simp [writeValue, htype, hfloat, hfields.union, pwiFloat, ddwafObjInvalid, ddwafObjNull,
      ddwafObjSigned, ddwafObjUnsigned, ddwafObjFloat]
  | null hnull =>
    apply hleaf
    apply (appends_hstringAppendConst "<NULL>\n" (by decide)).congr
    intro str
    simp [writeValue, htype, hnull, pwiNull, ddwafObjInvalid, ddwafObjNull]

theorem appends_hstringWritePwargs (realloc : Realloc) (h : Maps mem m F) (n : Nat) {fuel A : Nat}
    {name : Option (List UInt8)} {o : PWArgs} (hreadable : Readable m F fuel A name o)
    {pwargs : Fields} (hfields : HasFields pwargs (readRecord m A)) :
    Appends realloc (hstringWritePwargs mem realloc n pwargs) (pieces printed n name o) := by
  -- The induction is on the levels that are left, of which there may be fewer than levels of records.
  induction n generalizing fuel A name o pwargs with
  | zero => exact Emits.nil
  | succ n ih =>
    obtain ⟨fuel, rfl⟩ := hreadable.fuel_pos
    have hpointer : ∀ A name o, Readable m F fuel A name o →
        Appends realloc (hstringWritePwargs mem realloc n (ofPointer mem A))
          (pieces printed n name o) := by
      intro A name o hchild
      exact ih hchild (hasFields_ofPointer fun x hx => h.eq x (hchild.recordRange_subset hx))
    have hvalue := appends_writeValue h hpointer hfields hreadable.value
    have hname : Appends realloc (writeName mem realloc pwargs) _ :=
      appends_writeName h hfields fun hname _ => hreadable.name_mem hname
    have hrepeat : Appends realloc (hstringRepeat realloc 0x20 ((maxDepth - n) * 2)) _ :=
      appends_hstringRepeat (by unfold maxDepth; omega)
    rw [hreadable.name_eq] at hname
    exact hrepeat.bind (hname.bind hvalue)

end Shows

end DebugHelpers

end Ddwaf
