import Ddwaf.ByteBufferSerializer.Lemmas.Records
import Mathlib.Data.List.Forall2

/-!
This module contains what serializing a value does: the object at its slot is the one that the value
stands for, and nothing that was in use before is written to but the slot.
-/

namespace Ddwaf

open Memory Program

namespace SerializerState

/--
The object at `A` is in `s'` as given, on the addresses of `F`. These have been written to, and of
them only those of the record at `A` were in use in `s`.
-/
structure Serialized (s s' : SerializerState) (F : Set Nat) (A fuel : Nat)
    (name : Option (List UInt8)) (o : PWArgs) : Prop where
  used : ∀ x ∈ F, s'.Used x
  written : ∀ x ∈ F, s'.Written x
  new : ∀ x ∈ F, s.Used x → x ∈ slots A 1
  decode : ∀ m : Memory, (∀ x ∈ F, m x = s'.memory x) → decode m fuel A = some (name, o)
  slots : ∀ m : Memory, (∀ x ∈ F, m x = s'.memory x) → ∀ B ∈ slotsFrom m fuel A, recordRange B ⊆ F

structure AllSerialized (s s' : SerializerState) (F : Set Nat) (base i num fuel : Nat)
    (ps : List NamedPWArgs) : Prop where
  used : ∀ x ∈ F, s'.Used x
  written : ∀ x ∈ F, s'.Written x
  new : ∀ x ∈ F, s.Used x → x ∈ Ddwaf.slots (base + i * sizeofPwargs) num
  decode : ∀ m : Memory, (∀ x ∈ F, m x = s'.memory x) →
    decodeAll (decode m fuel) (base + i * sizeofPwargs) num = some ps
  slots : ∀ m : Memory, (∀ x ∈ F, m x = s'.memory x) → ∀ j, i ≤ j → j < i + num →
    ∀ B ∈ slotsFrom m fuel (base + j * sizeofPwargs), recordRange B ⊆ F

section Serialized

variable {s s' s'' : SerializerState} {F : Set Nat} {A fuel : Nat} {name : Option (List UInt8)}
  {o : PWArgs}

theorem Serialized.of_used {s₀ : SerializerState} (h : Serialized s s' F A fuel name o)
    (hs : ∀ x, s₀.Used x → s.Used x) : Serialized s₀ s' F A fuel name o :=
  ⟨h.used, h.written, fun x hx hused => h.new x hx (hs x hused), h.decode, h.slots⟩

theorem Serialized.extends {W : Set Nat} (h : Serialized s s' F A fuel name o)
    (hs : Grows W s' s'') (hW : ∀ x ∈ F, x ∉ W) : Serialized s s'' F A fuel name o := by
  have hF : ∀ m : Memory, (∀ x ∈ F, m x = s''.memory x) → ∀ x ∈ F, m x = s'.memory x := by
    intro m hm x hx
    rw [hm x hx]
    exact hs.frame x (h.used x hx) (hW x hx)
  constructor
  . exact fun x hx => hs.used x (h.used x hx)
  . exact fun x hx => hs.mono_written (h.written x hx)
  . exact h.new
  . exact fun m hm => h.decode m (hF m hm)
  . exact fun m hm => h.slots m (hF m hm)

theorem decode_succ {m : Memory} {r : Record} (hrecord : readRecord m A = r)
    (hvalue : decodeValue m (Ddwaf.decode m fuel) r = some o) :
    Ddwaf.decode m (fuel + 1) A = some (readName m r, o) := by
  rw [Ddwaf.decode]
  simp only [hrecord, hvalue]
  rfl

theorem mem_slotsFrom_succ {m : Memory} {r : Record} (hrecord : readRecord m A = r) {B : Nat}
    (hB : B ∈ slotsFrom m (fuel + 1) A) :
    B = A ∨ (r.type = pwiArray ∨ r.type = pwiMap) ∧ ∃ i < r.nbEntries,
      B ∈ slotsFrom m fuel (r.union + i * sizeofPwargs) := by
  rw [slotsFrom, hrecord] at hB
  split at hB
  . next htype =>
    rcases List.mem_cons.mp hB with hB | hB
    . exact Or.inl hB
    . obtain ⟨i, hi, hB⟩ := List.mem_flatMap.mp hB
      exact Or.inr ⟨htype, i, List.mem_range.mp hi, hB⟩
  . exact Or.inl (List.mem_singleton.mp hB)

theorem Serialized.of_record {G : Set Nat} {r : Record} (hrecord : HasRecord s s' A G name r)
    (hused : ∀ x ∈ F, s'.Used x) (hwritten : ∀ x ∈ F, s'.Written x)
    (hnew : ∀ x ∈ F, s.Used x → x ∈ Ddwaf.slots A 1)
    (hvalue : ∀ m : Memory, (∀ x ∈ F, m x = s'.memory x) →
      decodeValue m (Ddwaf.decode m fuel) r = some o)
    (hslots : ∀ m : Memory, (∀ x ∈ F, m x = s'.memory x) → r.type = pwiArray ∨ r.type = pwiMap →
      ∀ i < r.nbEntries, ∀ B ∈ slotsFrom m fuel (r.union + i * sizeofPwargs), recordRange B ⊆ F) :
    Serialized s s' (G ∪ F) A (fuel + 1) name o := by
  constructor
  . rintro x (hx | hx)
    . exact hrecord.used x hx
    . exact hused x hx
  . rintro x (hx | hx)
    . exact hrecord.written x hx
    . exact hwritten x hx
  . rintro x (hx | hx)
    . exact hrecord.new x hx
    . exact hnew x hx
  . intro m hm
    obtain ⟨hr, hname⟩ := hrecord.record m fun x hx => hm x (Or.inl hx)
    rw [decode_succ hr (hvalue m fun x hx => hm x (Or.inr hx)), hname]
  . intro m hm B hB x hx
    obtain ⟨hr, -⟩ := hrecord.record m fun x hx => hm x (Or.inl hx)
    rcases mem_slotsFrom_succ hr hB with rfl | ⟨htype, i, hi, hB⟩
    . exact Or.inl (hrecord.slot hx)
    . exact Or.inr (hslots m (fun x hx => hm x (Or.inr hx)) htype i hi B hB hx)

theorem Serialized.of_scalar {G : Set Nat} {r : Record} (hrecord : HasRecord s s' A G name r)
    (hentries : r.nbEntries = 0)
    (hvalue : ∀ m : Memory, decodeValue m (Ddwaf.decode m fuel) r = some o) :
    Serialized s s' (G ∪ ∅) A (fuel + 1) name o := by
  apply Serialized.of_record hrecord
  . exact fun x hx => absurd hx (Set.notMem_empty x)
  . exact fun x hx => absurd hx (Set.notMem_empty x)
  . exact fun x hx => absurd hx (Set.notMem_empty x)
  . exact fun m _ => hvalue m
  . intro m _ _ i hi
    rw [hentries] at hi
    exact absurd hi (Nat.not_lt_zero i)

theorem AllSerialized.nil (s : SerializerState) (base i fuel : Nat) :
    AllSerialized s s ∅ base i 0 fuel [] := by
  constructor
  . exact fun x hx => absurd hx (Set.notMem_empty x)
  . exact fun x hx => absurd hx (Set.notMem_empty x)
  . exact fun x hx => absurd hx (Set.notMem_empty x)
  . exact fun _ _ => rfl
  . intro m _ j hge hlt
    omega

theorem AllSerialized.cons {F' W : Set Nat} {base i num : Nat}
    {ps : List NamedPWArgs}
    (h : Serialized s s' F (base + i * sizeofPwargs) fuel name o)
    (hrest : AllSerialized s' s'' F' base (i + 1) num fuel ps) (hused : ∀ x, s.Used x → s'.Used x)
    (hs : Grows W s' s'') (hW : ∀ x ∈ F, x ∉ W) :
    AllSerialized s s'' (F ∪ F') base i (num + 1) fuel ((name, o) :: ps) := by
  have h' := h.extends hs hW
  have hnext : base + (i + 1) * sizeofPwargs = base + i * sizeofPwargs + sizeofPwargs := by
    simp only [sizeofPwargs]
    omega
  constructor
  . rintro x (hx | hx)
    . exact h'.used x hx
    . exact hrest.used x hx
  . rintro x (hx | hx)
    . exact h'.written x hx
    . exact hrest.written x hx
  . rintro x (hx | hx) hx'
    . have hmem := h.new x hx hx'
      simp only [mem_slots, sizeofPwargs] at hmem ⊢
      omega
    . have hmem := hrest.new x hx (hused x hx')
      simp only [mem_slots, sizeofPwargs] at hmem ⊢
      omega
  . intro m hm
    have hhead := h'.decode m fun x hx => hm x (Or.inl hx)
    have htail := hrest.decode m fun x hx => hm x (Or.inr hx)
    rw [hnext] at htail
    simp only [decodeAll, hhead, htail]
    rfl
  . intro m hm j hge hlt B hB x hx
    by_cases heq : j = i
    . subst heq
      exact Or.inl (h'.slots m (fun x hx => hm x (Or.inl hx)) B hB hx)
    . exact Or.inr (hrest.slots m (fun x hx => hm x (Or.inr hx)) j (by omega) (by omega) B hB hx)

end Serialized

def Outcome (r : Except Stop β) (e : Stop) : Prop := CannotAllocate e ∨ r = .error e

theorem Outcome.of_error {r : Except Stop β} {e : Stop} (h : r = .error e) : Outcome r e := Or.inr h

theorem Outcome.cannot {r : Except Stop β} {e : Stop} (h : CannotAllocate e) : Outcome r e := Or.inl h

theorem Outcome.imp {r : Except Stop β} {r' : Except Stop γ} {e : Stop} (h : Outcome r e)
    (hr : r = .error e → r' = .error e) : Outcome r' e :=
  Or.imp_right hr h

theorem Outcome.bind {r : Except Stop β} {e : Stop} (h : Outcome r e) (f : β → Except Stop γ) :
    Outcome (r >>= f) e := by
  apply h.imp
  intro hr
  rw [hr]
  rfl

section Loop

variable {α β : Type} {item : α → Counters → Except Stop (β × Counters)}
  {R : β → NamedPWArgs → Prop} {body : Nat → α → SerializerM Unit}
  {a base num fuel : Nat}

def Serializes (body : Nat → α → SerializerM Unit)
    (item : α → Counters → Except Stop (β × Counters))
    (R : β → NamedPWArgs → Prop) (a base num fuel : Nat) : Prop :=
  ∀ i x s, i < num → WF s → ArrayAt s a base num → (∀ x ∈ slots base num, s.Used x) →
    Keeps WF (Grows (slot base i)) (Outcome (item x s.counters)) (body i x) s (fun _ s' =>
      ∃ F b p, item x s.counters = .ok (b, s'.counters) ∧ R b p ∧
        Serialized s s' F (base + i * sizeofPwargs) fuel p.1 p.2)

theorem slots_succ (base i n : Nat) :
    slots (base + (i + 1) * sizeofPwargs) n ⊆ slots (base + i * sizeofPwargs) (n + 1) := by
  intro x hx
  simp only [mem_slots, sizeofPwargs] at hx ⊢
  omega

theorem slot_subset (base i n : Nat) : slot base i ⊆ slots (base + i * sizeofPwargs) (n + 1) := by
  intro x hx
  simp only [slot, mem_slots, sizeofPwargs] at hx ⊢
  omega

theorem keeps_forEach (iterator : Nat → IterStep α)
    (hbody : Serializes body item R a base num fuel) (size n : Nat) {i : Nat} {s : SerializerState}
    (h : WF s) (ha : ArrayAt s a base num) (hused : ∀ x ∈ slots base num, s.Used x)
    (hn : i + n ≤ num) :
    Keeps WF (Grows (slots (base + i * sizeofPwargs) n))
      (Outcome (refElements item iterator size i n s.counters))
      (ByteBufferSerializer.forEach iterator body i n) s (fun j s' =>
        (j = i + n → ∃ F os ps,
          refElements item iterator size i n s.counters = .ok (os, s'.counters) ∧
          List.Forall₂ R os ps ∧ AllSerialized s s' F base i n fuel ps) ∧
        (j ≠ i + n → refElements item iterator size i n s.counters =
          .error (.thrown ⟨.concurrentModificationException, s!"i={j}, size={size}"⟩))) := by
  induction n generalizing i s with
  | zero =>
    unfold ByteBufferSerializer.forEach
    split
    . next exc hi =>
      apply Keeps.throw h
      apply Outcome.of_error
      rw [refElements, hi]
    . next hi =>
      apply Keeps.pure h
      refine ⟨fun _ => ⟨∅, [], [], ?_, .nil, AllSerialized.nil s base i fuel⟩,
        fun hne => absurd rfl hne⟩
      rw [refElements]
      split
      . next exc hexc => exact absurd hexc (hi exc)
      . rfl
  | succ n ih =>
    unfold ByteBufferSerializer.forEach
    split
    . next hi =>
      apply Keeps.pure h
      refine ⟨fun heq => by omega, fun _ => ?_⟩
      rw [refElements, hi]
    . next exc hi =>
      apply Keeps.throw h
      apply Outcome.of_error
      rw [refElements, hi]
    . next exc hi =>
      apply Keeps.throw h
      apply Outcome.of_error
      rw [refElements, hi]
    . next x hx =>
      have hbind : refElements item iterator size i (n + 1) s.counters = (do
          let (o, c) ← item x s.counters
          let (os, c) ← refElements item iterator size (i + 1) n c
          return (o :: os, c)) := by
        rw [refElements, hx]
      rw [hbind]
      apply Keeps.bind (((hbody i x s (by omega) h ha hused).mono_error ?_).mono
        (fun _ hs => hs.mono fun y _ hy => slot_subset base i n hy)
        (fun _ _ _ hs hQ => And.intro hs hQ))
      . rintro _ s1 h1 _ ⟨hs1, F, b, p, hitem, hR, hserialized⟩
        have hused1 : ∀ y ∈ slots base num, s1.Used y := fun y hy => hs1.used y (hused y hy)
        rw [hitem]
        apply ((ih h1 (ha.extends hs1.toExtends) hused1 (by omega)).mono_error ?_).mono
        . intro s2 hs2
          exact hs2.mono fun y _ hy => slots_succ base i n hy
        . rintro j s2 _ hs2 ⟨hall, hnone⟩
          constructor
          . intro hj
            obtain ⟨F', os, ps, hos, hforall, hrest⟩ := hall (by omega)
            refine ⟨F ∪ F', b :: os, p :: ps, ?_, .cons hR hforall, ?_⟩
            . show (refElements item iterator size (i + 1) n s1.counters >>= _) = _
              rw [hos]
              rfl
            . apply AllSerialized.cons hserialized hrest hs1.used hs2
              intro y hy hmem
              have hin : y ∈ slots base num := by
                simp only [mem_slots, sizeofPwargs] at hmem ⊢
                omega
              have hslot := hserialized.new y hy (hused y hin)
              simp only [mem_slots, sizeofPwargs] at hmem hslot
              omega
          . intro hj
            show (refElements item iterator size (i + 1) n s1.counters >>= _) = _
            rw [hnone (by omega)]
            rfl
        . intro e he
          apply he.imp
          intro hr
          show (refElements item iterator size (i + 1) n s1.counters >>= _) = _
          rw [hr]
          rfl
      . intro e he
        apply he.imp
        intro hr
        rw [hr]
        rfl

end Loop

section Container

variable {alloc : Allocator} {limits : WafLimits} {ρ : Type} {v A fuel : Nat} {s : SerializerState}
  {rec : Nat → Option (List UInt16) → ρ → SerializerM Unit} {item : RefItem ρ}

def SerializesAs (limits : WafLimits) (rec : Nat → Option (List UInt16) → ρ → SerializerM Unit)
    (item : RefItem ρ) (fuel : Nat) : Prop :=
  ∀ v A parameterName value s, WF s → SlotHas s v A [] →
    Keeps WF (Grows (slots A 1)) (Outcome (item parameterName value s.counters))
      (rec v parameterName value) s (fun _ s' =>
        ∃ F o, item parameterName value s.counters = .ok (o, s'.counters) ∧
          Serialized s s' F A fuel ((refName limits parameterName).map utf8) o)

theorem serializes_element (hrec : SerializesAs limits rec item fuel) {a base num : Nat} :
    Serializes
      (fun i newObj => do
        let newSlot ← PWArgsArrayBuffer.getView (some a) i
        rec newSlot none newObj)
      (item none) (fun o p => p = (none, o)) a base num fuel := by
  intro i x s hi h ha hused
  apply Keeps.bind (((keeps_getView h ha hused hi).mono_error fun _ => Outcome.cannot).mono
    (fun _ hs => hs.toGrows.mono fun y _ hy => absurd hy (Set.notMem_empty y))
    (fun _ _ _ hs hQ => And.intro hs hQ))
  rintro newSlot s1 h1 _ ⟨hs1, hslot, -⟩
  rw [← hs1.counters]
  apply (hrec newSlot _ none x s1 h1 hslot).mono
  . exact fun _ hs => hs
  . rintro _ s2 _ _ ⟨F, o, hitem, hserialized⟩
    exact ⟨F, o, (none, o), hitem, rfl, hserialized.of_used hs1.used⟩

theorem keeps_keyToString (h : WF s) (key : JavaKey) :
    Keeps WF Quiet (Outcome (refKey key)) (ByteBufferSerializer.keyToString key) s
      (fun name s' => s' = s ∧ refKey key = .ok name) := by
  cases key with
  | null => exact Keeps.pure h ⟨rfl, rfl⟩
  | toString name => exact Keeps.pure h ⟨rfl, rfl⟩
  | throwing exc => exact Keeps.throw h (Outcome.of_error rfl)

theorem serializes_entry (hrec : SerializesAs limits rec item fuel) {a base num : Nat} :
    Serializes
      (fun i (entry : JavaKey × ρ) => do
        let newSlot ← PWArgsArrayBuffer.getView (some a) i
        let key ← ByteBufferSerializer.keyToString entry.1
        rec newSlot key entry.2)
      (refEntry limits item) Eq a base num fuel := by
  intro i x s hi h ha hused
  apply Keeps.bind (((keeps_getView h ha hused hi).mono_error fun _ => Outcome.cannot).mono
    (fun _ hs => hs.toGrows.mono fun y _ hy => absurd hy (Set.notMem_empty y))
    (fun _ _ _ hs hQ => And.intro hs hQ))
  rintro newSlot s1 h1 _ ⟨hs1, hslot, -⟩
  rw [← hs1.counters]
  apply Keeps.bind (((keeps_keyToString h1 x.1).mono_error ?_).mono
    (fun _ hs => (hs.writes _).toGrows) (fun _ _ _ _ hQ => hQ))
  . rintro key _ _ _ ⟨rfl, hkey⟩
    apply ((hrec newSlot _ key x.2 _ h1 hslot).mono_error ?_).mono
    . exact fun _ hs => hs
    . rintro _ s2 _ _ ⟨F, o, hitem, hserialized⟩
      refine ⟨F, ((refName limits key).map utf8, o), _, ?_, rfl, hserialized.of_used hs1.used⟩
      rw [refEntry, hkey]
      show (item key x.2 _ >>= _) = _
      rw [hitem]
      rfl
    . intro e he
      apply he.imp
      intro hr
      rw [refEntry, hkey]
      show (item key x.2 _ >>= _) = _
      rw [hr]
      rfl
  . intro e he
    apply he.imp
    intro hr
    rw [refEntry, hr]
    rfl

theorem unnamed_of_forall {os : List PWArgs} {ps : List NamedPWArgs}
    (h : List.Forall₂ (fun o p => p = (none, o)) os ps) : unnamed ps = some os := by
  induction h with
  | nil => rfl
  | cons hp _ ih => rw [hp, unnamed, ih, Option.map_some]

theorem decodeValue_array {m : Memory} {d : Nat → Option NamedPWArgs}
    {p l base num : Nat} {ps : List NamedPWArgs} {os : List PWArgs}
    (hall : decodeAll d base num = some ps) (hps : unnamed ps = some os) :
    decodeValue m d ⟨p, l, base, num, pwiArray⟩ = some (.array os) := by
  simp [decodeValue, pwiInvalid, pwiArray, pwiSignedNumber, pwiUnsignedNumber, pwiString, hall, hps]

theorem decodeValue_map {m : Memory} {d : Nat → Option NamedPWArgs} {p l base num : Nat}
    {ps : List NamedPWArgs} (hall : decodeAll d base num = some ps) :
    decodeValue m d ⟨p, l, base, num, pwiMap⟩ = some (.map ps) := by
  simp [decodeValue, pwiInvalid, pwiMap, pwiArray, pwiSignedNumber, pwiUnsignedNumber, pwiString, hall]

theorem checkName_of_fits {parameterName : Option (List UInt16)} (h : nameFits parameterName)
    (msg : String) : checkName parameterName msg = .ok () := if_pos h

theorem checkName_of_not {parameterName : Option (List UInt16)} (h : ¬nameFits parameterName)
    (msg : String) : checkName parameterName msg = .error (runtimeException msg) := if_neg h

structure HasEntries {α β : Type} (s s' : SerializerState) (A size type fuel : Nat)
    (name : Option (List UInt8)) (item : α → Counters → Except Stop (β × Counters))
    (R : β → NamedPWArgs → Prop) (iterator : Nat → IterStep α)
    (os : List β) : Prop where
  elements : refElements item iterator size 0 size s.counters = .ok (os, s'.counters)
  serialized : ∀ o, (∀ m : Memory, ∀ d p l base ps, List.Forall₂ R os ps →
      decodeAll d base size = some ps → decodeValue m d ⟨p, l, base, size, type⟩ = some o) →
    ∃ F, Serialized s s' F A (fuel + 1) name o

theorem keeps_entries {α β : Type} {iterator : Nat → IterStep α}
    {item : α → Counters → Except Stop (β × Counters)}
    {R : β → NamedPWArgs → Prop} (body : Option Nat → Nat → α → SerializerM Unit)
    (hbody : ∀ a base num, Serializes (body (some a)) item R a base num fuel) (size type : Nat)
    (htype : type < 2 ^ 32) (msg : String) (h : WF s) (hslot : SlotHas s v A [])
    (parameterName : Option (List UInt16)) :
    Keeps WF (Grows (slots A 1))
      (Outcome (checkName parameterName msg >>= fun _ =>
        refElements item iterator size 0 size s.counters))
      (do
        match ← PWArgsBuffer.writeArrayOrMap alloc v parameterName size type with
        | none => throwJava .runtimeException msg
        | some pwArgsArrayBuffer => do
          let i ← ByteBufferSerializer.forEach iterator (body pwArgsArrayBuffer) 0 size
          ByteBufferSerializer.checkSize i size)
      s
      (fun _ s' => nameFits parameterName ∧ ∃ os,
        HasEntries s s' A size type fuel (parameterName.map utf8) item R iterator os) := by
  have hmain : Keeps WF (Grows (slots A 1 ∪ { x | ¬s.Used x }))
      (Outcome (checkName parameterName msg >>= fun _ =>
        refElements item iterator size 0 size s.counters))
      (do
        match ← PWArgsBuffer.writeArrayOrMap alloc v parameterName size type with
        | none => throwJava .runtimeException msg
        | some pwArgsArrayBuffer => do
          let i ← ByteBufferSerializer.forEach iterator (body pwArgsArrayBuffer) 0 size
          ByteBufferSerializer.checkSize i size)
      s
      (fun _ s' => nameFits parameterName ∧ ∃ os,
        HasEntries s s' A size type fuel (parameterName.map utf8) item R iterator os) := by
    apply Keeps.bind (((keeps_writeArrayOrMap h hslot parameterName size htype).mono_error
      fun _ => Outcome.cannot).mono
      (fun _ hs => hs.toGrows.mono fun _ _ hx => Set.mem_union_left _ hx)
      (fun _ _ _ hs hQ => And.intro hs hQ))
    rintro r s1 h1 _ ⟨hs1, hr⟩
    cases r with
    | none =>
      apply Keeps.throw h1
      apply Outcome.of_error
      rw [checkName_of_not hr]
      rfl
    | some array =>
      cases array with
      | none =>
        obtain ⟨hfits, rfl, G, p, l, hrecord⟩ := hr
        rw [checkName_of_fits hfits]
        show Keeps WF _ (Outcome (refElements item iterator 0 0 0 s.counters)) _ s1 _
        apply Keeps.bind (Q := fun j s' => j = 0 ∧ s' = s1 ∧
          refElements item iterator 0 0 0 s.counters = .ok ([], s.counters))
        . unfold ByteBufferSerializer.forEach
          split
          . next exc hi =>
            apply Keeps.throw h1
            apply Outcome.of_error
            rw [refElements, hi]
          . next hi =>
            apply Keeps.pure h1
            refine ⟨rfl, rfl, ?_⟩
            rw [refElements]
            split
            . next exc hexc => exact absurd hexc (hi exc)
            . rfl
        . rintro _ _ _ _ ⟨rfl, rfl, helements⟩
          apply Keeps.pure h1
          refine ⟨hfits, [], ?_, ?_⟩
          . rw [hs1.counters]
            exact helements
          . intro o ho
            exact ⟨_, Serialized.of_scalar hrecord rfl fun m => ho m _ p l 0 [] .nil rfl⟩
      | some a =>
        obtain ⟨hfits, hsize, G, base, harray⟩ := hr
        obtain ⟨p, l, hrecord⟩ := harray.record
        rw [checkName_of_fits hfits]
        show Keeps WF _ (Outcome (refElements item iterator size 0 size s.counters)) _ s1 _
        have hloop := keeps_forEach iterator (hbody a base size) size size (i := 0) h1 harray.array
          harray.used (Nat.le_of_eq (Nat.zero_add size))
        rw [Nat.zero_mul, Nat.add_zero, Nat.zero_add, hs1.counters] at hloop
        apply Keeps.bind (hloop.mono
          (fun _ hs => hs.mono fun x _ hx => Set.mem_union_right _ (harray.new x hx))
          (fun _ _ _ hs hQ => And.intro hs hQ))
        rintro j s2 h2 _ ⟨hs2, hall, hearly⟩
        unfold ByteBufferSerializer.checkSize
        split
        . next hj =>
          apply Keeps.throw h2
          exact Outcome.of_error (hearly hj)
        . next hj =>
          obtain ⟨F, os, ps, hos, hR, hall⟩ := hall (not_not.mp hj)
          apply Keeps.pure h2
          refine ⟨hfits, os, hos, ?_⟩
          intro o ho
          have hbase : base + 0 * sizeofPwargs = base := by
            rw [Nat.zero_mul, Nat.add_zero]
          refine ⟨_, Serialized.of_record (hrecord.extends hs2 harray.disjoint) hall.used
            hall.written ?_ ?_ ?_⟩
          . intro x hx hused
            have hmem := hall.new x hx (hs1.used x hused)
            rw [hbase] at hmem
            exact absurd hused (harray.new x hmem)
          . intro m hm
            have hdecode := hall.decode m hm
            rw [hbase] at hdecode
            exact ho m _ p l base ps hR hdecode
          . intro m hm _ i hi
            exact hall.slots m hm i (Nat.zero_le i) (by rw [Nat.zero_add]; exact hi)
  apply hmain.mono
  . intro s' hs
    apply hs.mono
    rintro x hused (hx | hx)
    . exact hx
    . exact absurd hused hx
  . exact fun _ _ _ _ hQ => hQ

theorem keeps_serializeIterable (hrec : SerializesAs limits rec item fuel) (h : WF s)
    (hslot : SlotHas s v A []) (parameterName : Option (List UInt16)) (iterator : Nat → IterStep ρ)
    (size : Nat) :
    Keeps WF (Grows (slots A 1))
      (Outcome (checkName parameterName "Error serializing iterable" >>= fun _ =>
        refIterable item iterator size s.counters))
      (ByteBufferSerializer.serializeIterable alloc rec v parameterName iterator size) s (fun _ s' =>
        nameFits parameterName ∧ ∃ F o, refIterable item iterator size s.counters = .ok (o, s'.counters) ∧
          Serialized s s' F A (fuel + 1) (parameterName.map utf8) o) := by
  apply ((keeps_entries _ (fun a base num => serializes_element hrec) size pwiArray (by decide)
    "Error serializing iterable" h hslot parameterName).mono_error ?_).mono
  . exact fun _ hs => hs
  . rintro _ s' _ _ ⟨hfits, os, hentries⟩
    obtain ⟨F, hserialized⟩ := hentries.serialized (.array os) fun m d p l base ps hR hall =>
      decodeValue_array hall (unnamed_of_forall hR)
    refine ⟨hfits, F, .array os, ?_, hserialized⟩
    rw [refIterable, hentries.elements]
    rfl
  . intro e he
    unfold refIterable
    rw [← bind_assoc]
    exact he.bind _

theorem keeps_serializeMap (hrec : SerializesAs limits rec item fuel) (h : WF s)
    (hslot : SlotHas s v A []) (parameterName : Option (List UInt16))
    (iterator : Nat → IterStep (JavaKey × ρ)) (size : Nat) :
    Keeps WF (Grows (slots A 1))
      (Outcome (checkName parameterName "Could not write map" >>= fun _ =>
        refMap limits item iterator size s.counters))
      (ByteBufferSerializer.serializeMap alloc rec v parameterName iterator size) s (fun _ s' =>
        nameFits parameterName ∧ ∃ F o, refMap limits item iterator size s.counters =
          .ok (o, s'.counters) ∧ Serialized s s' F A (fuel + 1) (parameterName.map utf8) o) := by
  apply ((keeps_entries _ (fun a base num => serializes_entry hrec) size pwiMap (by decide)
    "Could not write map" h hslot parameterName).mono_error ?_).mono
  . exact fun _ hs => hs
  . rintro _ s' _ _ ⟨hfits, os, hentries⟩
    obtain ⟨F, hserialized⟩ := hentries.serialized (.map os) fun m d p l base ps hR hall => by
      rw [List.forall₂_eq_eq_eq] at hR
      rw [decodeValue_map hall, hR]
    refine ⟨hfits, F, .map os, ?_, hserialized⟩
    rw [refMap, hentries.elements]
    rfl
  . intro e he
    unfold refMap
    rw [← bind_assoc]
    exact he.bind _

end Container

section Value

variable {alloc : Allocator} {limits : WafLimits} {ρ : Type} {v A fuel : Nat} {s : SerializerState}

theorem SlotHas.setCounters (h : SlotHas s v A []) (c : Counters) :
    SlotHas (s.setCounters c) v A [] :=
  ⟨h.known, h.position, h.limit, h.room, h.used, h.read, h.written⟩

theorem keeps_scalar (h : WF s) (hslot : SlotHas s v A []) (parameterName : Option (List UInt16))
    {union : List UInt8} (hunion : union.length = 8) {type : Nat} (htype : type < 2 ^ 32)
    {o : PWArgs} (ho : ∀ m d p l, decodeValue m d ⟨p, l, leValue union, 0, type⟩ = some o)
    (msg : String) :
    Keeps WF (Grows (slots A 1))
      (Outcome (do checkName parameterName msg; return (o, s.counters)))
      (ByteBufferSerializer.orThrow msg
        (PWArgsBuffer.writeScalar alloc v parameterName union type)) s
      (fun _ s' => ∃ F o', (do checkName parameterName msg; return (o, s.counters)) =
          Except.ok (o', s'.counters) ∧
        Serialized s s' F A (fuel + 1) (parameterName.map utf8) o') := by
  apply Keeps.bind (((keeps_writeScalar h hslot parameterName hunion htype).mono_error
    fun _ => Outcome.cannot).mono (fun _ hs => hs.toGrows) (fun _ _ _ hs hQ => And.intro hs hQ))
  rintro ok s1 h1 _ ⟨hs1, hok, hlarge⟩
  split
  . next hr =>
    obtain ⟨hfits, G, p, l, hrecord⟩ := hok hr
    apply Keeps.pure h1
    refine ⟨_, o, ?_, Serialized.of_scalar hrecord rfl fun m => ho m _ p l⟩
    rw [checkName_of_fits hfits, hs1.counters]
    rfl
  . next hr =>
    apply Keeps.throw h1
    apply Outcome.of_error
    rw [checkName_of_not (hlarge hr)]
    rfl

theorem keeps_string (h : WF s) (hslot : SlotHas s v A []) (parameterName : Option (List UInt16))
    (value : CharSeq) :
    Keeps WF (Grows (slots A 1))
      (Outcome (do checkName parameterName "Could not write string"; refString value))
      (ByteBufferSerializer.orThrow "Could not write string"
        (PWArgsBuffer.writeString alloc v parameterName value)) s
      (fun _ s' => s'.counters = s.counters ∧ ∃ F bs,
        (do checkName parameterName "Could not write string"; refString value) = Except.ok bs ∧
        Serialized s s' F A (fuel + 1) (parameterName.map utf8) (.string bs)) := by
  apply Keeps.bind (((keeps_writeString h hslot parameterName value).mono_error ?_).mono
    (fun _ hs => hs.toGrows) (fun _ _ _ hs hQ => And.intro hs hQ))
  . rintro ok s1 h1 _ ⟨hs1, hok, hlarge⟩
    split
    . next hr =>
      obtain ⟨hfits, hstr, G, p, l, str, hstring, hrecord⟩ := hok hr
      apply Keeps.pure h1
      refine ⟨hs1.counters, G ∪ stringRange str.ptr str.utf8len, utf8 value.units, ?_,
        Serialized.of_record hrecord ?_ ?_ ?_ ?_ ?_⟩
      . rw [checkName_of_fits hfits]
        exact hstr
      . exact fun x hx => hstring.used x hx.1 hx.2
      . exact fun x hx => hstring.written x hx.1 hx.2
      . exact fun x hx hused => absurd hused (hstring.new x hx.1 hx.2)
      . intro m hm
        have hread : read m str.ptr str.utf8len = utf8 value.units := by
          rw [read_congr (m := s1.memory) fun x hge hlt => hm x ⟨hge, hlt⟩]
          exact hstring.read
        simp [decodeValue, pwiInvalid, pwiString, pwiSignedNumber, pwiUnsignedNumber, hread]
      . intro m _ htype
        exact absurd htype (show ¬(pwiString = pwiArray ∨ pwiString = pwiMap) by decide)
    . next hr =>
      apply Keeps.throw h1
      apply Outcome.of_error
      by_cases hfits : nameFits parameterName
      . rw [checkName_of_fits hfits]
        show refString value = _
        rw [refString, if_neg (hlarge hr hfits)]
        rfl
      . rw [checkName_of_not hfits]
        rfl
  . rintro e (he | ⟨hfits, -, he⟩)
    . exact Outcome.cannot he
    . apply Outcome.of_error
      rw [checkName_of_fits hfits]
      exact he

theorem decodeValue_null (m : Memory) (d : Nat → Option NamedPWArgs)
    (p l : Nat) : decodeValue m d ⟨p, l, leValue (leBytes 8 0), 0, pwiNull⟩ = some .null := by
  rfl

theorem decodeValue_bool (b : Bool) (m : Memory)
    (d : Nat → Option NamedPWArgs) (p l : Nat) :
    decodeValue m d ⟨p, l, leValue (if b then PWArgsBuffer.boolTrueRepr else
      PWArgsBuffer.boolFalseRepr), 0, pwiBool⟩ = some (.bool b) := by
  cases b with
  | false => rfl
  | true => rfl

theorem decodeValue_long (value : Int64) (m : Memory)
    (d : Nat → Option NamedPWArgs) (p l : Nat) :
    decodeValue m d ⟨p, l, leValue (leBytes 8 value.toUInt64.toNat), 0, pwiSignedNumber⟩ =
      some (.signed value) := by
  have hlt := value.toUInt64.toNat_lt
  rw [leValue_leBytes, Nat.mod_eq_of_lt (by omega)]
  simp [decodeValue, pwiInvalid, pwiSignedNumber]

theorem decodeValue_double (value : UInt64) (m : Memory)
    (d : Nat → Option NamedPWArgs) (p l : Nat) :
    decodeValue m d ⟨p, l, leValue (leBytes 8 value.toNat), 0, pwiFloat⟩ = some (.float value) := by
  have hlt := value.toNat_lt
  rw [leValue_leBytes, Nat.mod_eq_of_lt (by omega)]
  simp [decodeValue, pwiInvalid, pwiFloat, pwiSignedNumber, pwiUnsignedNumber, pwiString, pwiArray, pwiMap,
    pwiBool]

theorem keeps_setCounters {x : SerializerM α} {a : α} {c : Counters} {E : Stop → Prop} (W : Set Nat)
    (h : WF s) (hexec : exec x s = (.ok a, s.setCounters c)) :
    Keeps WF (Grows W) E x s (fun r s' => r = a ∧ s' = s.setCounters c) :=
  Keeps.of_ok a _ hexec (h.setCounters c) (Grows.setCounters s W c) ⟨rfl, rfl⟩

theorem exec_truncate (limits : WafLimits) (units : List UInt16) :
    exec (ByteBufferSerializer.truncate limits units) s = (.ok (units.take limits.maxStringSize),
      s.setCounters (countTruncated limits units s.counters)) := by
  unfold ByteBufferSerializer.truncate countTruncated
  split
  . rfl
  . next hle =>
    rw [exec_pure, List.take_of_length_le (Nat.not_lt.mp hle)]
    rfl

theorem exec_truncateParameterName (parameterName : Option (List UInt16)) :
    exec (ByteBufferSerializer.truncateParameterName limits parameterName) s =
      (.ok (refName limits parameterName),
        s.setCounters (countTruncatedName limits parameterName s.counters)) := by
  cases parameterName with
  | none => rfl
  | some name =>
    simp only [ByteBufferSerializer.truncateParameterName, exec_bind, exec_truncate, exec_pure]
    rfl

theorem exec_decrementRemainingElements :
    exec ByteBufferSerializer.decrementRemainingElements s =
      (.ok (), s.setCounters
        { s.counters with remaining := toInt32 (s.counters.remaining - 1) }) := by
  rfl

theorem exec_countCutOff :
    exec ByteBufferSerializer.countCutOff s = (.ok (), s.setCounters (countCutOff s.counters)) := by
  simp only [ByteBufferSerializer.countCutOff, exec_bind, exec_get]
  unfold Ddwaf.countCutOff
  split
  . next hneg =>
    rw [if_pos (show s.counters.remaining < 0 from hneg)]
    rfl
  . next hneg =>
    rw [if_neg (show ¬s.counters.remaining < 0 from hneg)]
    rfl

theorem keeps_countElements {ρ : Type} (h : WF s) (iterator : Nat → IterStep ρ) (size n : Nat) :
    Keeps WF Quiet (Outcome (refCount iterator size n))
      (ByteBufferSerializer.countElements iterator size n) s
      (fun r s' => s' = s ∧ ∃ k, refCount iterator size n = .ok k ∧ r = size + k) := by
  induction n generalizing size with
  | zero =>
    unfold ByteBufferSerializer.countElements
    split
    . next exc hi =>
      apply Keeps.throw h
      apply Outcome.of_error
      rw [refCount, hi]
    . next hi =>
      apply Keeps.pure h
      refine ⟨rfl, 0, ?_, rfl⟩
      rw [refCount]
      split
      . next exc hexc => exact absurd hexc (hi exc)
      . rfl
  | succ n ih =>
    unfold ByteBufferSerializer.countElements
    split
    . next hi =>
      apply Keeps.pure h
      refine ⟨rfl, 0, ?_, rfl⟩
      rw [refCount, hi]
    . next exc hi =>
      apply Keeps.throw h
      apply Outcome.of_error
      rw [refCount, hi]
    . next exc hi =>
      apply Keeps.throw h
      apply Outcome.of_error
      rw [refCount, hi]
    . next x hi =>
      have hbind : refCount iterator size (n + 1) = (do
          let k ← refCount iterator (size + 1) n
          return k + 1) := by
        rw [refCount, hi]
      rw [hbind]
      apply ((ih (size + 1)).mono_error fun e he => he.bind _).mono
      . exact fun _ hs => hs
      . rintro r s' _ _ ⟨hs, k, hk, hr⟩
        refine ⟨hs, k + 1, ?_, by omega⟩
        rw [hk]
        rfl

theorem keeps_serializeValue {rec : Nat → Option (List UInt16) → ρ → SerializerM Unit}
    {item : RefItem ρ} (hrec : SerializesAs limits rec item fuel) (h : WF s)
    (hslot : SlotHas s v A []) (parameterName : Option (List UInt16)) (value : JavaValue ρ) :
    Keeps WF (Grows (slots A 1)) (Outcome (refValue limits item parameterName value s.counters))
      (ByteBufferSerializer.serializeValue alloc limits rec v parameterName value) s (fun _ s' =>
        ∃ F o, refValue limits item parameterName value s.counters = .ok (o, s'.counters) ∧
          Serialized s s' F A (fuel + 1) (parameterName.map utf8) o) := by
  have hiterable : ∀ iterator size,
      Keeps WF (Grows (slots A 1))
        (Outcome (do
          checkName parameterName "Error serializing iterable"
          refIterable item iterator size s.counters))
        (ByteBufferSerializer.serializeIterable alloc rec v parameterName iterator size) s
        (fun _ s' => ∃ F o, (do
            checkName parameterName "Error serializing iterable"
            refIterable item iterator size s.counters) = Except.ok (o, s'.counters) ∧
          Serialized s s' F A (fuel + 1) (parameterName.map utf8) o) := by
    intro iterator size
    apply (keeps_serializeIterable hrec h hslot parameterName iterator size).mono
    . exact fun _ hs => hs
    . rintro _ s' _ _ ⟨hfits, F, o, ho, hserialized⟩
      refine ⟨F, o, ?_, hserialized⟩
      rw [checkName_of_fits hfits]
      exact ho
  cases value with
  | null =>
    exact keeps_scalar h hslot parameterName (length_leBytes 8 0) (by decide) decodeValue_null _
  | charSequence str =>
    have htruncate := keeps_setCounters (slots A 1) h (exec_truncate limits str.units)
      (E := Outcome (refValue limits item parameterName (.charSequence str) s.counters))
    apply Keeps.bind htruncate
    rintro _ _ h1 _ ⟨rfl, rfl⟩
    apply ((keeps_string h1 (hslot.setCounters _) parameterName _).mono_error ?_).mono
    . exact fun _ hs => hs
    . rintro _ s' _ _ ⟨hcounters, F, bs, hbs, hserialized⟩
      refine ⟨F, .string bs, ?_, hserialized.of_used fun _ hx => hx⟩
      simp only [refValue]
      rw [← bind_assoc, hbs, hcounters]
      rfl
    . intro e he
      simp only [refValue]
      rw [← bind_assoc]
      exact he.bind _
  | floating value =>
    exact keeps_scalar h hslot parameterName (length_leBytes 8 _) (by decide)
      (decodeValue_double value) _
  | number value =>
    exact keeps_scalar h hslot parameterName (length_leBytes 8 _) (by decide)
      (decodeValue_long value) _
  | collection size iterator => exact Keeps.get_bind (hiterable iterator _)
  | array elements => exact Keeps.get_bind (hiterable _ _)
  | iterable first second =>
    apply Keeps.get_bind
    apply Keeps.bind (((keeps_countElements h first 0 _).mono_error ?_).mono
      (fun _ hs => (hs.writes _).toGrows) (fun _ _ _ _ hQ => hQ))
    . rintro _ s1 _ _ ⟨hs1, k, hk, rfl⟩
      rw [hs1, Nat.zero_add]
      simp only [refValue]
      rw [show refCount first 0 s.counters.remaining.toNat = .ok k from hk]
      exact hiterable second k
    . intro e he
      exact he.bind _
  | map size iterator =>
    apply Keeps.get_bind
    apply (keeps_serializeMap hrec h hslot parameterName iterator _).mono
    . exact fun _ hs => hs
    . rintro _ s' _ _ ⟨hfits, F, o, ho, hserialized⟩
      refine ⟨F, o, ?_, hserialized⟩
      simp only [refValue]
      rw [checkName_of_fits hfits]
      exact ho
  | boolean value =>
    have hunion : (if value then PWArgsBuffer.boolTrueRepr else
        PWArgsBuffer.boolFalseRepr).length = 8 := by
      cases value with
      | false => rfl
      | true => rfl
    exact keeps_scalar h hslot parameterName hunion (by decide) (decodeValue_bool value) _
  | other =>
    exact keeps_scalar h hslot parameterName (length_leBytes 8 0) (by decide) decodeValue_null _
  | throwing exc => exact Keeps.throw h (Outcome.of_error rfl)

end Value

section DoSerialize

variable {alloc : Allocator} {limits : WafLimits} {ρ : Type} {v A : Nat} {s : SerializerState}
  {heap : ρ → JavaValue ρ}

theorem keeps_writeCutOff (h : WF s) (hslot : SlotHas s v A []) (parameterName : Option (List UInt16))
    (fuel : Nat) :
    Keeps WF (Grows (slots A 1)) (Outcome (refCutOff parameterName s.counters))
      (ByteBufferSerializer.writeCutOff alloc v parameterName) s (fun _ s' =>
        ∃ F o, refCutOff parameterName s.counters = .ok (o, s'.counters) ∧
          Serialized s s' F A (fuel + 1) (parameterName.map utf8) o) := by
  apply Keeps.bind (keeps_setCounters (slots A 1) h exec_countCutOff)
  rintro _ _ h1 _ ⟨-, rfl⟩
  have hmap : pwiMap < 2 ^ 32 := by decide
  apply Keeps.bind (((keeps_writeArrayOrMap h1 (hslot.setCounters _) parameterName 0
    hmap).mono_error fun _ => Outcome.cannot).mono
    (fun _ hs => hs.toGrows) (fun _ _ _ hs hQ => And.intro hs hQ))
  rintro r s2 h2 _ ⟨hs2, hr⟩
  cases r with
  | none =>
    apply Keeps.throw h2
    apply Outcome.of_error
    rw [refCutOff, checkName_of_not hr]
    rfl
  | some array =>
    apply Keeps.pure h2
    cases array with
    | none =>
      obtain ⟨hfits, -, G, p, l, hrecord⟩ := hr
      refine ⟨_, .map [], ?_, (Serialized.of_scalar hrecord rfl fun m => ?_).of_used fun _ hx => hx⟩
      . rw [refCutOff, checkName_of_fits hfits, hs2.counters]
        rfl
      . exact decodeValue_map (show decodeAll _ 0 0 = some [] from rfl)
    | some a => exact absurd rfl hr.2.1

theorem keeps_countElement {f : Option (List UInt16) → SerializerM Unit} {E : Stop → Prop}
    {Q : Unit → SerializerState → Prop} (h : WF s) (parameterName : Option (List UInt16))
    (hf : ∀ s', s' = s.setCounters (countElement limits parameterName s.counters) → WF s' →
      Keeps WF (Grows (slots A 1)) E (f (refName limits parameterName)) s' Q) :
    Keeps WF (Grows (slots A 1)) E
      (do
        let name ← ByteBufferSerializer.truncateParameterName limits parameterName
        ByteBufferSerializer.decrementRemainingElements
        f name)
      s Q := by
  apply Keeps.bind (keeps_setCounters _ h (exec_truncateParameterName parameterName))
  rintro _ _ h1 _ ⟨rfl, rfl⟩
  apply Keeps.bind (keeps_setCounters _ h1 exec_decrementRemainingElements)
  rintro _ _ h2 _ ⟨-, rfl⟩
  exact hf _ rfl h2

theorem serializesAs_doSerialize (alloc : Allocator) (limits : WafLimits) (heap : ρ → JavaValue ρ)
    (depth : Nat) :
    SerializesAs limits (ByteBufferSerializer.doSerialize alloc limits heap depth)
      (refTree limits heap depth) (depth + 1) := by
  -- The induction is on the levels that are left.
  induction depth with
  | zero =>
    intro v A parameterName value s h hslot
    apply keeps_countElement h parameterName
    rintro _ rfl h1
    unfold refTree
    apply (keeps_writeCutOff h1 (hslot.setCounters _) _ 0).mono
    . exact fun _ hs => hs
    . rintro _ s2 _ _ ⟨F, o, ho, hserialized⟩
      exact ⟨F, o, ho, hserialized.of_used fun _ hx => hx⟩
  | succ depth ih =>
    intro v A parameterName value s h hslot
    apply keeps_countElement h parameterName
    rintro _ rfl h1
    apply Keeps.get_bind
    unfold refTree
    split
    . next hneg =>
      rw [if_pos (show (s.setCounters (countElement limits parameterName s.counters)).remainingElements
        < 0 from hneg)]
      apply (keeps_writeCutOff h1 (hslot.setCounters _) _ (depth + 1)).mono
      . exact fun _ hs => hs
      . rintro _ s2 _ _ ⟨F, o, ho, hserialized⟩
        exact ⟨F, o, ho, hserialized.of_used fun _ hx => hx⟩
    . next hneg =>
      rw [if_neg (show ¬(s.setCounters
        (countElement limits parameterName s.counters)).remainingElements < 0 from hneg)]
      apply (keeps_serializeValue ih h1 (hslot.setCounters _) _ (heap value)).mono
      . exact fun _ hs => hs
      . rintro _ s2 _ _ ⟨F, o, ho, hserialized⟩
        exact ⟨F, o, ho, hserialized.of_used fun _ hx => hx⟩

structure Calls (s s' : SerializerState) : Prop extends Extends ∅ s s' where
  only : ∀ x, s.Used x → ¬s'.Written x

theorem keeps_serializeMore (alloc : Allocator) (limits : WafLimits) (heap : ρ → JavaValue ρ)
    (h : WF s) (map : ρ) (metrics : Option WafMetrics) :
    Keeps WF Calls (Outcome (refRoot limits heap map metrics))
      (ByteBufferSerializer.serializeMore alloc limits heap map metrics) s (fun root s' =>
        ∃ F o, refRoot limits heap map metrics = .ok (o, s'.counters) ∧
          Serialized s s' F root.address (limits.maxDepth + 2) none o) := by
  apply Keeps.modify_bind (Grows { x | ¬s.Used x })
  . have h0 : WF
        { s with remainingElements := limits.maxElements, metrics := metrics, written := [] } :=
      ⟨h.curPWArgs, h.curStrings, h.buffers, h.base,
        ⟨h.arrays.known, h.arrays.views, h.arrays.idx, h.arrays.nodup⟩,
        ⟨h.handedOut.pos, h.handedOut.inSegment, h.handedOut.disjoint⟩⟩
    apply Keeps.bind (((keeps_allocatePWArgsBuffer alloc h0 Nat.one_pos true).mono_error
      fun _ => Outcome.cannot).mono
      (fun _ hs => (hs.writes _).toGrows) (fun _ _ _ hs hQ => And.intro hs hQ))
    rintro a s1 h1 _ ⟨hs1, base, hnew, -⟩
    apply Keeps.bind (((keeps_getView h1 hnew.array (fun x hx => hnew.used x hx.1 hx.2)
      Nat.one_pos).mono_error fun _ => Outcome.cannot).mono
      (fun _ hs => hs.toGrows.mono fun x _ hx => absurd hx (Set.notMem_empty x))
      (fun _ _ _ hs hQ => And.intro hs hQ))
    rintro v s2 h2 _ ⟨hs2, hslot, haddress⟩
    rw [(hs2.arrays a hnew.array.inUse).1, hnew.start rfl, Nat.add_zero] at haddress
    rw [Nat.zero_mul, Nat.add_zero] at hslot
    have hfresh : ∀ x ∈ slots base 1, ¬s.Used x := fun x hx hused => hnew.new x hx.1 hx.2 hused
    have hused2 : ∀ x, s.Used x → s2.Used x := fun x hx => hs2.used x (hs1.used x hx)
    have hcounters2 : s2.counters = ⟨limits.maxElements, metrics⟩ := by
      rw [hs2.counters, hs1.counters]
      rfl
    have hserialize := serializesAs_doSerialize alloc limits heap (limits.maxDepth + 1) v base none
      map s2 h2 hslot
    rw [hcounters2] at hserialize
    apply Keeps.bind (hserialize.mono
      (fun _ hs => hs.mono fun x _ hx => show x ∈ { x | ¬s.Used x } from hfresh x hx)
      (fun _ _ _ hs hQ => And.intro hs hQ))
    rintro _ s3 h3 _ ⟨hs3, F, o, ho, hserialized⟩
    apply Keeps.get_bind
    apply Keeps.pure h3
    have hroot : (s3.views v).address = base := by
      rw [← haddress]
      exact congrArg Prod.fst (hs3.viewRange v hslot.known).2
    rw [hroot]
    exact ⟨F, o, ho, hserialized.of_used hused2⟩
  . intro s' hs
    constructor
    . constructor
      . exact hs.used
      . exact fun x hx _ => hs.frame x hx fun hmem => hmem hx
      . exact hs.inUse
      . exact hs.arrays
      . exact hs.handedOut
      . exact hs.viewRange
    . intro x hx hwritten
      obtain ⟨r, hr, -⟩ := hs.only x hx (fun hmem => hmem hx) hwritten
      contradiction

end DoSerialize

end SerializerState

end Ddwaf
