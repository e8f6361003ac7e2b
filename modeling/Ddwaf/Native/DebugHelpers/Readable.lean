import Ddwaf.ByteBufferSerializer.Lemmas.Records
import Ddwaf.ByteBufferSerializer.Reference

/-!
This module contains objects in memory that can be read by looking at a given set of addresses only:
whatever is at the other addresses, the same object is decoded. All that a reader follows from the
record of such an object is then in that set.
-/

namespace Ddwaf

open Memory

section Read

variable {m : Memory} {F : Set Nat}

theorem eq_of_read_eq {m' : Memory} {a n : Nat} (h : read m' a n = read m a n) {x : Nat}
    (hge : a ≤ x) (hlt : x < a + n) : m' x = m x := by
  induction n generalizing a with
  | zero => omega
  | succ n ih =>
    rw [Memory.read, Memory.read, List.cons.injEq] at h
    by_cases heq : x = a
    . rw [heq]
      exact h.1
    . exact ih h.2 (by omega) (by omega)

theorem mem_of_read_eq {p n : Nat}
    (h : ∀ m' : Memory, (∀ x ∈ F, m' x = m x) → read m' p n = read m p n) {x : Nat} (hge : p ≤ x)
    (hlt : x < p + n) : x ∈ F := by
  by_contra hx
  have hother : ∀ y ∈ F, Function.update m x (m x + 1) y = m y := by
    intro y hy
    apply Function.update_of_ne
    intro heq
    exact hx (heq ▸ hy)
  have heq := eq_of_read_eq (h _ hother) hge hlt
  rw [Function.update_self] at heq
  simp at heq

end Read

section Decode

variable {m : Memory} {d : Nat → Option NamedPWArgs}

inductive Decoded (m : Memory) (d : Nat → Option NamedPWArgs) (r : Record) : PWArgs → Prop where
  | invalid (htype : r.type = pwiInvalid) : Decoded m d r .invalid
  | signed (htype : r.type = pwiSignedNumber) :
      Decoded m d r (.signed (UInt64.ofNat r.union).toInt64)
  | unsigned (htype : r.type = pwiUnsignedNumber) :
      Decoded m d r (.unsigned (UInt64.ofNat r.union))
  | string (htype : r.type = pwiString) (hread : read m r.union r.nbEntries = s) :
      Decoded m d r (.string s)
  | array (htype : r.type = pwiArray) (hall : decodeAll d r.union r.nbEntries = some ps)
      (hos : unnamed ps = some os) : Decoded m d r (.array os)
  | map (htype : r.type = pwiMap) (hall : decodeAll d r.union r.nbEntries = some es) :
      Decoded m d r (.map es)
  | bool (htype : r.type = pwiBool) : Decoded m d r (.bool (r.union % 256 ≠ 0))
  | float (htype : r.type = pwiFloat) : Decoded m d r (.float (UInt64.ofNat r.union))
  | null (htype : r.type = pwiNull) : Decoded m d r .null

theorem decodeValue_cases {r : Record} {o : PWArgs} (h : decodeValue m d r = some o) :
    Decoded m d r o := by
  unfold decodeValue at h
  split at h
  . next htype =>
    cases h
    exact .invalid htype
  split at h
  . next htype =>
    cases h
    exact .signed htype
  split at h
  . next htype =>
    cases h
    exact .unsigned htype
  split at h
  . next htype =>
    cases h
    exact .string htype rfl
  split at h
  . next htype =>
    obtain ⟨ps, hps, h⟩ := Option.bind_eq_some_iff.mp h
    obtain ⟨os, hos, h⟩ := Option.bind_eq_some_iff.mp h
    cases h
    exact .array htype hps hos
  split at h
  . next htype =>
    obtain ⟨ps, hps, h⟩ := Option.bind_eq_some_iff.mp h
    cases h
    exact .map htype hps
  split at h
  . next htype =>
    cases h
    exact .bool htype
  split at h
  . next htype =>
    cases h
    exact .float htype
  split at h
  . next htype =>
    cases h
    exact .null htype
  . contradiction

theorem decode_succ_eq_some {fuel A : Nat} {name : Option (List UInt8)} {o : PWArgs}
    (h : decode m (fuel + 1) A = some (name, o)) :
    decodeValue m (decode m fuel) (readRecord m A) = some o ∧ readName m (readRecord m A) = name := by
  rw [decode] at h
  cases hvalue : decodeValue m (decode m fuel) (readRecord m A) with
  | none =>
    rw [hvalue] at h
    contradiction
  | some o' =>
    simp only [hvalue, Option.bind_eq_bind, Option.bind_some, Option.pure_def, Option.some.injEq,
      Prod.mk.injEq] at h
    exact ⟨congrArg some h.2, h.1⟩

theorem decodeAll_eq_some {a n : Nat} {ps : List NamedPWArgs}
    (h : decodeAll d a n = some ps) :
    ps.length = n ∧ ∀ i < n, d (a + i * sizeofPwargs) = ps[i]? := by
  induction n generalizing a ps with
  | zero =>
    cases h
    exact ⟨rfl, fun i hi => absurd hi (Nat.not_lt_zero i)⟩
  | succ n ih =>
    rw [decodeAll] at h
    cases hfirst : d a with
    | none =>
      rw [hfirst] at h
      contradiction
    | some p =>
      cases hrest : decodeAll d (a + sizeofPwargs) n with
      | none =>
        rw [hfirst, hrest] at h
        contradiction
      | some qs =>
        rw [hfirst, hrest] at h
        cases h
        obtain ⟨hlength, hall⟩ := ih hrest
        refine ⟨congrArg Nat.succ hlength, ?_⟩
        intro i hi
        cases i with
        | zero =>
          rw [Nat.zero_mul, Nat.add_zero, hfirst]
          rfl
        | succ i =>
          have hadd : a + (i + 1) * sizeofPwargs = a + sizeofPwargs + i * sizeofPwargs := by
            rw [Nat.succ_mul]
            omega
          rw [hadd, hall i (Nat.lt_of_succ_lt_succ hi), List.getElem?_cons_succ]

theorem unnamed_eq_some {ps : List NamedPWArgs} {os : List PWArgs}
    (h : unnamed ps = some os) : ps = os.map fun o => (none, o) := by
  induction ps generalizing os with
  | nil =>
    cases h
    rfl
  | cons p ps ih =>
    obtain ⟨name, o⟩ := p
    cases name with
    | some name => contradiction
    | none =>
      rw [unnamed] at h
      cases hrest : unnamed ps with
      | none =>
        rw [hrest] at h
        contradiction
      | some os' =>
        rw [hrest] at h
        cases h
        rw [ih hrest, List.map_cons]

end Decode

section Readable

def PWArgs.parts : PWArgs → List NamedPWArgs
  | .array a => a.map fun o => (none, o)
  | .map a => a
  | _ => []

theorem Decoded.parts {m : Memory} {d : Nat → Option NamedPWArgs} {r : Record}
    {o : PWArgs} (h : Decoded m d r o) (htype : r.type = pwiArray ∨ r.type = pwiMap) :
    r.nbEntries = o.parts.length ∧ ∀ i part, o.parts[i]? = some part →
      d (r.union + i * sizeofPwargs) = some part := by
  have hentry : ∀ {ps : List NamedPWArgs}, decodeAll d r.union r.nbEntries = some ps →
      r.nbEntries = ps.length ∧ ∀ i part, ps[i]? = some part →
        d (r.union + i * sizeofPwargs) = some part := by
    intro ps hall
    obtain ⟨hlength, hd⟩ := decodeAll_eq_some hall
    refine ⟨hlength.symm, ?_⟩
    intro i part hpart
    have hi := (List.getElem?_eq_some_iff.mp hpart).1
    rw [hd i (by omega), hpart]
  cases h with
  | array _ hall hos =>
    rw [unnamed_eq_some hos] at hall
    exact hentry hall
  | map _ hall => exact hentry hall
  | invalid hother => simp [hother, pwiInvalid, pwiArray, pwiMap] at htype
  | signed hother => simp [hother, pwiSignedNumber, pwiArray, pwiMap] at htype
  | unsigned hother => simp [hother, pwiUnsignedNumber, pwiArray, pwiMap] at htype
  | string hother => simp [hother, pwiString, pwiArray, pwiMap] at htype
  | bool hother => simp [hother, pwiBool, pwiArray, pwiMap] at htype
  | float hother => simp [hother, pwiFloat, pwiArray, pwiMap] at htype
  | null hother => simp [hother, pwiNull, pwiArray, pwiMap] at htype

/-- The object at an address of `m` is on the addresses of `F`. -/
structure Readable (m : Memory) (F : Set Nat) (fuel A : Nat) (name : Option (List UInt8))
    (o : PWArgs) : Prop where
  decode : ∀ m' : Memory, (∀ x ∈ F, m' x = m x) → decode m' fuel A = some (name, o)
  slots : ∀ m' : Memory, (∀ x ∈ F, m' x = m x) → ∀ B ∈ slotsFrom m' fuel A, recordRange B ⊆ F

structure ReadableParts (m : Memory) (F : Set Nat) (fuel : Nat) (r : Record) (o : PWArgs) :
    Prop where
  length_eq : r.nbEntries = o.parts.length
  part : ∀ i part, o.parts[i]? = some part →
    Readable m F fuel (r.union + i * sizeofPwargs) part.1 part.2

inductive ReadableValue (m : Memory) (F : Set Nat) (fuel : Nat) (r : Record) : PWArgs → Prop where
  | invalid (htype : r.type = pwiInvalid) : ReadableValue m F fuel r .invalid
  | signed (htype : r.type = pwiSignedNumber) :
      ReadableValue m F fuel r (.signed (UInt64.ofNat r.union).toInt64)
  | unsigned (htype : r.type = pwiUnsignedNumber) :
      ReadableValue m F fuel r (.unsigned (UInt64.ofNat r.union))
  | string (htype : r.type = pwiString)
      (hmem : ∀ x, r.union ≤ x → x < r.union + r.nbEntries → x ∈ F) :
      ReadableValue m F fuel r (.string (read m r.union r.nbEntries))
  | array (htype : r.type = pwiArray) (hparts : ReadableParts m F fuel r (.array os)) :
      ReadableValue m F fuel r (.array os)
  | map (htype : r.type = pwiMap) (hparts : ReadableParts m F fuel r (.map es)) :
      ReadableValue m F fuel r (.map es)
  | bool (htype : r.type = pwiBool) : ReadableValue m F fuel r (.bool (r.union % 256 ≠ 0))
  | float (htype : r.type = pwiFloat) : ReadableValue m F fuel r (.float (UInt64.ofNat r.union))
  | null (htype : r.type = pwiNull) : ReadableValue m F fuel r .null

variable {m : Memory} {F : Set Nat} {fuel A : Nat} {name : Option (List UInt8)} {o : PWArgs}

theorem mem_slotsFrom (m : Memory) (fuel A : Nat) : A ∈ slotsFrom m (fuel + 1) A := by
  rw [slotsFrom]
  split
  . exact List.mem_cons_self
  . exact List.mem_singleton_self A

theorem Readable.fuel_pos (h : Readable m F fuel A name o) : ∃ n, fuel = n + 1 := by
  cases fuel with
  | zero =>
    have hdecode := h.decode m fun _ _ => rfl
    contradiction
  | succ n => exact ⟨n, rfl⟩

theorem Readable.recordRange_subset (h : Readable m F fuel A name o) : recordRange A ⊆ F := by
  obtain ⟨n, rfl⟩ := h.fuel_pos
  exact h.slots m (fun _ _ => rfl) A (mem_slotsFrom m n A)

theorem Readable.name_eq (h : Readable m F fuel A name o) : readName m (readRecord m A) = name := by
  obtain ⟨n, rfl⟩ := h.fuel_pos
  exact (decode_succ_eq_some (h.decode m fun _ _ => rfl)).2

theorem Readable.readRecord_eq (h : Readable m F fuel A name o) {m' : Memory}
    (hm' : ∀ x ∈ F, m' x = m x) : readRecord m' A = readRecord m A :=
  readRecord_congr fun x hx => hm' x (h.recordRange_subset hx)

theorem Readable.name_mem (h : Readable m F fuel A name o)
    (hname : (readRecord m A).parameterName ≠ 0) {x : Nat}
    (hge : (readRecord m A).parameterName ≤ x)
    (hlt : x < (readRecord m A).parameterName + (readRecord m A).parameterNameLength) : x ∈ F := by
  obtain ⟨n, rfl⟩ := h.fuel_pos
  have hread : ∀ m' : Memory, (∀ x ∈ F, m' x = m x) →
      some (read m' (readRecord m A).parameterName (readRecord m A).parameterNameLength) = name := by
    intro m' hm'
    have hname' := (decode_succ_eq_some (h.decode m' hm')).2
    rw [h.readRecord_eq hm', readName, if_neg hname] at hname'
    exact hname'
  have hread' : ∀ m' : Memory, (∀ x ∈ F, m' x = m x) →
      read m' (readRecord m A).parameterName (readRecord m A).parameterNameLength =
        read m (readRecord m A).parameterName (readRecord m A).parameterNameLength :=
    fun m' hm' => Option.some.inj ((hread m' hm').trans (hread m fun _ _ => rfl).symm)
  exact mem_of_read_eq hread' hge hlt

theorem Readable.decoded (h : Readable m F (fuel + 1) A name o) {m' : Memory}
    (hm' : ∀ x ∈ F, m' x = m x) : Decoded m' (Ddwaf.decode m' fuel) (readRecord m A) o := by
  rw [← h.readRecord_eq hm']
  exact decodeValue_cases (decode_succ_eq_some (h.decode m' hm')).1

theorem Readable.slots_part (h : Readable m F (fuel + 1) A name o)
    (htype : (readRecord m A).type = pwiArray ∨ (readRecord m A).type = pwiMap) {i : Nat}
    (hi : i < (readRecord m A).nbEntries) {m' : Memory} (hm' : ∀ x ∈ F, m' x = m x) :
    ∀ B ∈ slotsFrom m' fuel ((readRecord m A).union + i * sizeofPwargs), recordRange B ⊆ F := by
  intro B hB
  apply h.slots m' hm'
  rw [slotsFrom, h.readRecord_eq hm', if_pos htype]
  exact List.mem_cons_of_mem _ (List.mem_flatMap.mpr ⟨i, List.mem_range.mpr hi, hB⟩)

theorem Readable.parts (h : Readable m F (fuel + 1) A name o)
    (htype : (readRecord m A).type = pwiArray ∨ (readRecord m A).type = pwiMap) :
    ReadableParts m F fuel (readRecord m A) o := by
  have hlength := ((h.decoded fun _ _ => rfl).parts htype).1
  refine ⟨hlength, ?_⟩
  intro i part hpart
  have hi : i < (readRecord m A).nbEntries := by
    rw [hlength]
    exact (List.getElem?_eq_some_iff.mp hpart).1
  constructor
  . intro m' hm'
    exact ((h.decoded hm').parts htype).2 i part hpart
  . exact fun m' hm' => h.slots_part htype hi hm'

theorem Readable.value (h : Readable m F (fuel + 1) A name o) :
    ReadableValue m F fuel (readRecord m A) o := by
  cases h.decoded fun _ _ => rfl with
  | invalid htype => exact .invalid htype
  | signed htype => exact .signed htype
  | unsigned htype => exact .unsigned htype
  | string htype hread =>
    have hread' : ∀ m' : Memory, (∀ x ∈ F, m' x = m x) →
        read m' (readRecord m A).union (readRecord m A).nbEntries =
          read m (readRecord m A).union (readRecord m A).nbEntries := by
      intro m' hm'
      cases h.decoded hm' with
      | string _ hread' => rw [hread, hread']
    rw [← hread]
    exact .string htype fun x hge hlt => mem_of_read_eq hread' hge hlt
  | array htype _ _ => exact .array htype (h.parts (Or.inl htype))
  | map htype _ => exact .map htype (h.parts (Or.inr htype))
  | bool htype => exact .bool htype
  | float htype => exact .float htype
  | null htype => exact .null htype

end Readable

end Ddwaf
