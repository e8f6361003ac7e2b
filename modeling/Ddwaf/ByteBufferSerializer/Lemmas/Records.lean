import Ddwaf.ByteBufferSerializer.Reference
import Ddwaf.ByteBufferSerializer.Lemmas.Strings
import Ddwaf.ByteBufferSerializer.Lemmas.Views

/-!
This module contains what the functions that write a record do: the record and its name can be read
back from memory, and will be for as long as the addresses that they take up are not written to.
-/

namespace Ddwaf

open Memory Program

def recordRange (A : Nat) : Set Nat := { x | A ≤ x ∧ x < A + 36 }

theorem mem_recordRange {A x : Nat} : x ∈ recordRange A ↔ A ≤ x ∧ x < A + 36 := Iff.rfl

theorem recordRange_subset (A : Nat) : recordRange A ⊆ slots A 1 := by
  intro x hx
  simp only [mem_recordRange, mem_slots, sizeofPwargs] at hx ⊢
  omega

theorem readRecord_congr {m m' : Memory} {A : Nat} (h : ∀ x ∈ recordRange A, m' x = m x) :
    readRecord m' A = readRecord m A := by
  have hread : ∀ a n, A ≤ a → a + n ≤ A + 36 → readLe m' a n = readLe m a n := by
    intro a n hge hle
    apply readLe_congr
    intro x hxge hxlt
    apply h
    rw [mem_recordRange]
    omega
  unfold readRecord
  rw [hread A 8 (by omega) (by omega), hread (A + 8) 8 (by omega) (by omega),
    hread (A + 16) 8 (by omega) (by omega), hread (A + 24) 8 (by omega) (by omega),
    hread (A + 32) 4 (by omega) (by omega)]

def recordBytes (p l : Nat) (union : List UInt8) (nbEntries type : Nat) : List UInt8 :=
  leBytes 8 p ++ leBytes 8 l ++ union ++ leBytes 8 nbEntries ++ leBytes 4 type

theorem readRecord_of_read {m : Memory} {A p l nbEntries type : Nat} {union : List UInt8}
    (hp : p < 2 ^ 64) (hl : l < 2 ^ 64) (hunion : union.length = 8) (hentries : nbEntries < 2 ^ 64)
    (htype : type < 2 ^ 32)
    (h : read m A (recordBytes p l union nbEntries type).length =
      recordBytes p l union nbEntries type) :
    readRecord m A = ⟨p, l, leValue union, nbEntries, type⟩ := by
  obtain ⟨h, h5⟩ := read_eq_append h
  obtain ⟨h, h4⟩ := read_eq_append h
  obtain ⟨h, h3⟩ := read_eq_append h
  obtain ⟨h1, h2⟩ := read_eq_append h
  simp only [List.length_append, length_leBytes, hunion] at h1 h2 h3 h4 h5
  rw [readRecord, readLe_of_read hp h1, readLe_of_read hl h2, readLe_of_read hentries h4,
    readLe_of_read htype h5, readLe, h3]

def stringRange (p l : Nat) : Set Nat := { x | p ≤ x ∧ x < p + l }

theorem mem_stringRange {p l x : Nat} : x ∈ stringRange p l ↔ p ≤ x ∧ x < p + l := Iff.rfl

namespace SerializerState

theorem Quiet.writes {s s' : SerializerState} (h : Quiet s s') (W : Set Nat) : Writes W s s' :=
  h.toWrites.mono fun _ _ hx => absurd hx (Set.notMem_empty _)

section Names

variable {s s' s'' : SerializerState} {W : Set Nat}

theorem StringAt.extends {str : WrittenString} {bs : List UInt8} (h : StringAt s s' str bs)
    (hs : Grows W s' s'') (hW : ∀ x ∈ W, s.Used x) : StringAt s s'' str bs := by
  constructor
  . exact h.pos
  . exact h.lt
  . exact h.len
  . rw [read_congr]
    . exact h.read
    . intro x hge hlt
      apply hs.frame x (h.used x hge hlt)
      exact fun hmem => h.new x hge hlt (hW x hmem)
  . exact fun x hge hlt => hs.used x (h.used x hge hlt)
  . exact fun x hge hlt => hs.mono_written (h.written x hge hlt)
  . exact h.new

theorem StringAt.of_quiet {str : WrittenString} {bs : List UInt8} (h : StringAt s s' str bs)
    (hs : Quiet s' s'') : StringAt s s'' str bs :=
  h.extends hs.toGrows fun x hx => absurd hx (Set.notMem_empty x)

def NameAt (s s' : SerializerState) (p l : Nat) : Option (List UInt8) → Prop
  | none => p = 0 ∧ l = 0
  | some bs => StringAt s s' ⟨p, l⟩ bs

variable {p l : Nat} {name : Option (List UInt8)}

theorem NameAt.extends (h : NameAt s s' p l name) (hs : Grows W s' s'')
    (hW : ∀ x ∈ W, s.Used x) : NameAt s s'' p l name := by
  cases name with
  | none => exact h
  | some bs => exact StringAt.extends h hs hW

theorem NameAt.of_quiet (h : NameAt s s' p l name) (hs : Quiet s' s'') : NameAt s s'' p l name :=
  h.extends hs.toGrows fun x hx => absurd hx (Set.notMem_empty x)

theorem NameAt.lt (h : NameAt s s' p l name) : p < 2 ^ 64 ∧ l < 2 ^ 64 := by
  cases name with
  | none =>
    obtain ⟨rfl, rfl⟩ := h
    decide
  | some bs =>
    have hlt := StringAt.lt h
    simp only at hlt
    omega

theorem NameAt.used (h : NameAt s s' p l name) : ∀ x ∈ stringRange p l, s'.Used x := by
  intro x hx
  rw [mem_stringRange] at hx
  cases name with
  | none =>
    have := h.2
    omega
  | some bs => exact StringAt.used h x hx.1 hx.2

theorem NameAt.written (h : NameAt s s' p l name) : ∀ x ∈ stringRange p l, s'.Written x := by
  intro x hx
  rw [mem_stringRange] at hx
  cases name with
  | none =>
    have := h.2
    omega
  | some bs => exact StringAt.written h x hx.1 hx.2

theorem NameAt.new (h : NameAt s s' p l name) : ∀ x ∈ stringRange p l, ¬s.Used x := by
  intro x hx
  rw [mem_stringRange] at hx
  cases name with
  | none =>
    have := h.2
    omega
  | some bs => exact StringAt.new h x hx.1 hx.2

theorem NameAt.readName (h : NameAt s s' p l name) {m : Memory}
    (hm : ∀ x ∈ stringRange p l, m x = s'.memory x) (u n t : Nat) :
    readName m ⟨p, l, u, n, t⟩ = name := by
  unfold Ddwaf.readName
  cases name with
  | none => exact if_pos h.1
  | some bs =>
    have hpos := StringAt.pos h
    have hread := StringAt.read h
    rw [if_neg (Nat.ne_of_gt hpos), read_congr (m := s'.memory)]
    . exact congrArg some hread
    . exact fun x hge hlt => hm x ⟨hge, hlt⟩

end Names

section Record

/--
The record at `A` and its name are in `s'` as given, on the addresses of `G`. These have been
written to, and of them only those of the record itself were in use in `s`.
-/
structure HasRecord (s s' : SerializerState) (A : Nat) (G : Set Nat) (name : Option (List UInt8))
    (r : Record) : Prop where
  used : ∀ x ∈ G, s'.Used x
  written : ∀ x ∈ G, s'.Written x
  new : ∀ x ∈ G, s.Used x → x ∈ slots A 1
  slot : recordRange A ⊆ G
  record : ∀ m : Memory, (∀ x ∈ G, m x = s'.memory x) → readRecord m A = r ∧ readName m r = name

variable {s s' s'' : SerializerState} {A : Nat} {G : Set Nat} {name : Option (List UInt8)}
  {r : Record}

theorem HasRecord.extends {W : Set Nat} (h : HasRecord s s' A G name r) (hs : Grows W s' s'')
    (hW : ∀ x ∈ G, x ∉ W) : HasRecord s s'' A G name r := by
  constructor
  . exact fun x hx => hs.used x (h.used x hx)
  . exact fun x hx => hs.mono_written (h.written x hx)
  . exact h.new
  . exact h.slot
  . intro m hm
    apply h.record
    intro x hx
    rw [hm x hx]
    exact hs.frame x (h.used x hx) (hW x hx)

theorem HasRecord.of_slot {v p l nbEntries type : Nat} {union : List UInt8}
    (hslot : SlotHas s' v A (recordBytes p l union nbEntries type)) (hname : NameAt s s' p l name)
    (hunion : union.length = 8) (hentries : nbEntries < 2 ^ 64) (htype : type < 2 ^ 32) :
    HasRecord s s' A (recordRange A ∪ stringRange p l) name
      ⟨p, l, leValue union, nbEntries, type⟩ := by
  obtain ⟨hp, hl⟩ := hname.lt
  have hlength : (recordBytes p l union nbEntries type).length = 36 := by
    simp [recordBytes, hunion]
  constructor
  . rintro x (hx | hx)
    . exact hslot.used x (recordRange_subset A hx)
    . exact hname.used x hx
  . rintro x (hx | hx)
    . apply hslot.written x hx.1
      rw [hlength]
      exact hx.2
    . exact hname.written x hx
  . rintro x (hx | hx) hused
    . exact recordRange_subset A hx
    . exact absurd hused (hname.new x hx)
  . exact fun x hx => Or.inl hx
  . intro m hm
    constructor
    . rw [readRecord_congr (m := s'.memory) fun x hx => hm x (Or.inl hx)]
      exact readRecord_of_read hp hl hunion hentries htype hslot.read
    . exact hname.readName (fun x hx => hm x (Or.inr hx)) _ _ _

end Record

section Write

variable {alloc : Allocator} {s : SerializerState} {v A : Nat}

theorem keeps_release (h : WF s) (str : WrittenString) :
    Keeps WF Quiet CannotAllocate (Arena.release str) s (fun _ _ => True) := by
  apply Keeps.modify
  . exact h.setArena rfl rfl h.curPWArgs h.curStrings
  . exact Quiet.setArena rfl rfl
  . trivial

theorem Keeps.ofQuiet {x : SerializerM α} {E : Stop → Prop} {Q : α → SerializerState → Prop}
    (W : Set Nat) (h : Keeps WF Quiet E x s Q) :
    Keeps WF (Writes W) E x s (fun a s' => Quiet s s' ∧ Q a s') :=
  h.mono (fun _ hs => hs.writes W) (fun _ _ _ hs hQ => ⟨hs, hQ⟩)

theorem nameFits_none : nameFits none := by
  intro name h
  contradiction

theorem nameFits_some {name : List UInt16} : nameFits (some name) ↔ fits name := by
  simp [nameFits]

theorem keeps_writeName (alloc : Allocator) (h : WF s) (name : List UInt16) :
    Keeps WF Quiet CannotAllocate (Arena.writeStringUnlimited alloc ⟨name, none⟩) s (fun r s' =>
      match r with
      | none => ¬fits name
      | some written => fits name ∧ StringAt s s' written (utf8 name)) := by
  apply ((keeps_writeStringUnlimited alloc h ⟨name, none⟩).mono_error ?_).mono
  . exact fun _ hs => hs
  . intro r s' _ _ hr
    cases r with
    | none => exact hr
    | some written =>
      obtain ⟨hstr, hwritten⟩ := hr
      refine ⟨?_, hwritten⟩
      by_contra hfits
      rw [refString, if_neg hfits] at hstr
      contradiction
  . rintro e (he | ⟨hfits, he⟩)
    . exact he
    . rw [refString, if_pos hfits] at he
      contradiction

theorem keeps_putParameterName (h : WF s) (hslot : SlotHas s v A [])
    (parameterName : Option (List UInt16)) :
    Keeps WF (Writes (slots A 1)) CannotAllocate
      (PWArgsBuffer.putParameterName alloc v parameterName) s (fun ok s' =>
        (ok = true → nameFits parameterName ∧ ∃ p l, SlotHas s' v A (leBytes 8 p ++ leBytes 8 l) ∧
          NameAt s s' p l (parameterName.map utf8)) ∧
        (ok ≠ true → ¬nameFits parameterName)) := by
  unfold PWArgsBuffer.putParameterName
  cases parameterName with
  | none =>
    apply Keeps.bind (keeps_put h hslot (by simp [sizeofPwargs]))
    intro _ s1 h1 _ hslot1
    apply Keeps.bind (keeps_put h1 hslot1 (by simp [sizeofPwargs]))
    intro _ s2 h2 _ hslot2
    apply Keeps.pure h2
    exact ⟨fun _ => ⟨nameFits_none, 0, 0, hslot2, rfl, rfl⟩, fun hr => absurd rfl hr⟩
  | some name =>
    rw [nameFits_some]
    apply Keeps.bind (Keeps.ofQuiet _ (keeps_writeName alloc h name))
    rintro r s1 h1 _ ⟨hquiet1, hr⟩
    cases r with
    | none => exact Keeps.pure h1 ⟨fun hok => absurd hok (by decide), fun _ => hr⟩
    | some str =>
      obtain ⟨hfits, hstring⟩ := hr
      have hslot1 := hslot.of_quiet hquiet1
      apply Keeps.bind (keeps_put h1 hslot1 (by simp [sizeofPwargs]))
      intro _ s2 h2 hs2 hslot2
      apply Keeps.bind (keeps_put h2 hslot2 (by simp [sizeofPwargs]))
      intro _ s3 h3 hs3 hslot3
      apply Keeps.bind (Keeps.ofQuiet _ (keeps_release h3 str))
      rintro _ s4 h4 _ ⟨hquiet4, -⟩
      apply Keeps.pure h4
      refine ⟨fun _ => ⟨hfits, str.ptr, str.utf8len, hslot3.of_quiet hquiet4, ?_⟩,
        fun hok => absurd rfl hok⟩
      have hs := trans_of (Grows (slots A 1)) hs2.toGrows
        (trans_of (Grows (slots A 1)) hs3.toGrows (hquiet4.writes _).toGrows)
      exact hstring.extends hs hslot.used

theorem keeps_putValue (h : WF s) {p l : Nat} (hslot : SlotHas s v A (leBytes 8 p ++ leBytes 8 l))
    {union : List UInt8} (hunion : union.length = 8) (nbEntries type : Nat) :
    Keeps WF (Writes (slots A 1)) CannotAllocate (PWArgsBuffer.putValue v union nbEntries type) s
      (fun _ s' => SlotHas s' v A (recordBytes p l union nbEntries type)) := by
  unfold PWArgsBuffer.putValue
  apply Keeps.bind (keeps_put h hslot (by simp [sizeofPwargs, hunion]))
  intro _ s1 h1 _ hslot1
  apply Keeps.bind (keeps_put h1 hslot1 (by simp [sizeofPwargs, hunion]))
  intro _ s2 h2 _ hslot2
  exact keeps_put h2 hslot2 (by simp [sizeofPwargs, hunion])

theorem keeps_writeScalar (h : WF s) (hslot : SlotHas s v A []) (parameterName : Option (List UInt16))
    {union : List UInt8} (hunion : union.length = 8) {type : Nat} (htype : type < 2 ^ 32) :
    Keeps WF (Writes (slots A 1)) CannotAllocate
      (PWArgsBuffer.writeScalar alloc v parameterName union type) s (fun ok s' =>
        (ok = true → nameFits parameterName ∧ ∃ G p l,
          HasRecord s s' A G (parameterName.map utf8) ⟨p, l, leValue union, 0, type⟩) ∧
        (ok ≠ true → ¬nameFits parameterName)) := by
  unfold PWArgsBuffer.writeScalar
  apply Keeps.bind (keeps_putParameterName h hslot parameterName)
  rintro ok s1 h1 _ ⟨hname, hlarge⟩
  split
  . next hok =>
    obtain ⟨hfits, p, l, hslot1, hname1⟩ := hname hok
    apply Keeps.bind (keeps_putValue h1 hslot1 hunion 0 type)
    intro _ s2 h2 hs2 hslot2
    apply Keeps.pure h2
    have hname2 := hname1.extends hs2.toGrows hslot.used
    exact ⟨fun _ => ⟨hfits, _, p, l, HasRecord.of_slot hslot2 hname2 hunion (by decide) htype⟩,
      fun hr => absurd rfl hr⟩
  . next hok => exact Keeps.pure h1 ⟨fun hr => absurd hr (by decide), fun _ => hlarge hok⟩

theorem keeps_writeString (h : WF s) (hslot : SlotHas s v A []) (parameterName : Option (List UInt16))
    (value : CharSeq) :
    Keeps WF (Writes (slots A 1))
      (fun e => CannotAllocate e ∨
        (nameFits parameterName ∧ fits value.units ∧ refString value = .error e))
      (PWArgsBuffer.writeString alloc v parameterName value) s (fun ok s' =>
        (ok = true → nameFits parameterName ∧ refString value = .ok (utf8 value.units) ∧
          ∃ G p l str, StringAt s s' str (utf8 value.units) ∧
            HasRecord s s' A G (parameterName.map utf8) ⟨p, l, str.ptr, str.utf8len, pwiString⟩) ∧
        (ok ≠ true → nameFits parameterName → ¬fits value.units)) := by
  unfold PWArgsBuffer.writeString
  apply Keeps.bind ((keeps_putParameterName h hslot parameterName).mono_error fun _ => Or.inl)
  rintro ok s1 h1 hs1 ⟨hname, hlarge⟩
  split
  . next hok =>
    obtain ⟨hfits, p, l, hslot1, hname1⟩ := hname hok
    apply Keeps.bind ((Keeps.ofQuiet _ (keeps_writeStringUnlimited alloc h1 value)).mono_error
      fun _ he => he.imp_right fun hr => ⟨hfits, hr⟩)
    rintro r s2 h2 _ ⟨hquiet2, hr⟩
    cases r with
    | none => exact Keeps.pure h2 ⟨fun hok => absurd hok (by decide), fun _ _ => hr⟩
    | some str =>
      obtain ⟨hstr, hstring⟩ := hr
      have hslot2 := hslot1.of_quiet hquiet2
      apply Keeps.bind ((keeps_putValue h2 hslot2 (length_leBytes 8 str.ptr) str.utf8len
        pwiString).mono_error fun _ => Or.inl)
      intro _ s3 h3 hs3 hslot3
      have hname3 := (hname1.of_quiet hquiet2).extends hs3.toGrows hslot.used
      have hstring3 := hstring.extends hs3.toGrows hslot1.used
      apply Keeps.bind ((Keeps.ofQuiet _ (keeps_release h3 str)).mono_error fun _ => Or.inl)
      rintro _ s4 h4 _ ⟨hquiet4, -⟩
      apply Keeps.pure h4
      refine ⟨fun _ => ⟨hfits, hstr, ?_⟩, fun hok => absurd rfl hok⟩
      have hlt := hstring.lt
      have hrecord := HasRecord.of_slot (hslot3.of_quiet hquiet4) (hname3.of_quiet hquiet4)
        (length_leBytes 8 str.ptr) (by omega) (by decide)
      rw [leValue_leBytes, Nat.mod_eq_of_lt (by omega)] at hrecord
      exact ⟨_, p, l, str, (hstring3.of_quiet hquiet4).of_extends hs1.toExtends, hrecord⟩
  . next hok =>
    exact Keeps.pure h1 ⟨fun hr => absurd hr (by decide), fun _ hfits => absurd hfits (hlarge hok)⟩

structure HasArray (s s' : SerializerState) (A : Nat) (G : Set Nat) (name : Option (List UInt8))
    (a base num type : Nat) : Prop where
  record : ∃ p l, HasRecord s s' A G name ⟨p, l, base, num, type⟩
  array : ArrayAt s' a base num
  used : ∀ x ∈ slots base num, s'.Used x
  new : ∀ x ∈ slots base num, ¬s.Used x
  disjoint : ∀ x ∈ G, x ∉ slots base num

theorem keeps_getAddress (h : WF s) {a base num : Nat} (ha : ArrayAt s a base num) :
    Keeps WF Quiet CannotAllocate (PWArgsArrayBuffer.getAddress (some a)) s
      (fun r s' => s' = s ∧ r = base) :=
  Keeps.get_bind (Keeps.pure h ⟨rfl, ha.address⟩)

theorem keeps_writeArrayOrMap (h : WF s) (hslot : SlotHas s v A [])
    (parameterName : Option (List UInt16)) (numElements : Nat) {type : Nat} (htype : type < 2 ^ 32) :
    Keeps WF (Writes (slots A 1)) CannotAllocate
      (PWArgsBuffer.writeArrayOrMap alloc v parameterName numElements type) s (fun r s' =>
        match r with
        | none => ¬nameFits parameterName
        | some none => nameFits parameterName ∧ numElements = 0 ∧ ∃ G p l,
          HasRecord s s' A G (parameterName.map utf8) ⟨p, l, 0, 0, type⟩
        | some (some a) => nameFits parameterName ∧ numElements ≠ 0 ∧ ∃ G base,
          HasArray s s' A G (parameterName.map utf8) a base numElements type) := by
  unfold PWArgsBuffer.writeArrayOrMap
  apply Keeps.bind (keeps_putParameterName h hslot parameterName)
  rintro ok s1 h1 hs1 ⟨hname, hlarge⟩
  split
  . next hok =>
    obtain ⟨hfits, p, l, hslot1, hname1⟩ := hname hok
    split
    . next hzero =>
      apply Keeps.bind (keeps_putValue h1 hslot1 (length_leBytes 8 0) 0 type)
      intro _ s2 h2 hs2 hslot2
      apply Keeps.pure h2
      have hrecord := HasRecord.of_slot hslot2 (hname1.extends hs2.toGrows hslot.used)
        (length_leBytes 8 0) (by decide) htype
      rw [leValue_leBytes, Nat.zero_mod] at hrecord
      exact ⟨hfits, hzero, _, p, l, hrecord⟩
    . next hpos =>
      apply Keeps.bind (Keeps.ofQuiet _
        (keeps_allocatePWArgsBuffer alloc h1 (Nat.pos_of_ne_zero hpos) false))
      rintro a s2 h2 _ ⟨hquiet2, base, hnew, -⟩
      apply Keeps.bind (Keeps.ofQuiet _ (keeps_getAddress h2 hnew.array))
      rintro _ _ _ _ ⟨-, rfl, rfl⟩
      split
      . next hzero => exact absurd hzero (Nat.ne_of_gt hnew.pos)
      . apply Keeps.bind
          (keeps_putValue h2 (hslot1.of_quiet hquiet2) (length_leBytes 8 _) numElements type)
        intro _ s3 h3 hs3 hslot3
        apply Keeps.pure h3
        have hle := hnew.le
        have hentries : numElements < 2 ^ 64 := by
          simp only [sizeofPwargs] at hle
          omega
        have hrecord := HasRecord.of_slot hslot3
          ((hname1.of_quiet hquiet2).extends hs3.toGrows hslot.used) (length_leBytes 8 _) hentries
          htype
        rw [leValue_leBytes, Nat.mod_eq_of_lt (by omega)] at hrecord
        refine ⟨hfits, hpos, _, _, ⟨p, l, hrecord⟩, hnew.array.extends hs3.toExtends, ?_, ?_, ?_⟩
        . exact fun x hx => hs3.used x (hnew.used x hx.1 hx.2)
        . exact fun x hx hused => hnew.new x hx.1 hx.2 (hs1.used x hused)
        . rintro x (hx | hx) hmem
          . exact hnew.new x hmem.1 hmem.2 (hslot1.used x (recordRange_subset A hx))
          . exact hnew.new x hmem.1 hmem.2 (hname1.used x hx)
  . next hok => exact Keeps.pure h1 (hlarge hok)

end Write

end SerializerState

end Ddwaf
