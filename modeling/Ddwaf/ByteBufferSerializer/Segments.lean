import Ddwaf.ByteBufferSerializer.Lease

/-!
This module contains the search for a segment with room for an array of records: it creates at most
one new segment, and that one has room, exactly as long as the size of a new segment does not overflow.
-/

namespace Ddwaf

open Memory Program SerializerState

def newSegmentSize (num : Nat) : Int :=
  let capacity := max pwargsMinSegmentsSize num
  toInt32 (sizeofPwargs * capacity)

theorem toInt32_le (n : Int) : toInt32 n ≤ 2 ^ 31 - 1 := by
  unfold toInt32
  rw [Int.bmod_def]
  split
  . omega
  . omega

theorem newSegmentSize_of_le {num : Nat}
    (h : sizeofPwargs * max pwargsMinSegmentsSize num ≤ intMax) :
    newSegmentSize num = (sizeofPwargs * max pwargsMinSegmentsSize num : Nat) := by
  unfold newSegmentSize toInt32
  unfold intMax at h
  apply Int.bmod_eq_of_le
  . omega
  . omega

theorem newSegmentSize_lt {num : Nat}
    (h : intMax < sizeofPwargs * max pwargsMinSegmentsSize num) :
    newSegmentSize num < (sizeofPwargs * num : Nat) := by
  have hle : newSegmentSize num ≤ 2 ^ 31 - 1 := toInt32_le _
  unfold intMax pwargsMinSegmentsSize sizeofPwargs at *
  omega

section Search

variable (alloc : Allocator) (num : Nat) (getAddressCompatible : Bool)

def tryAllocate : SerializerM (Option Nat) := do
  Arena.allocate (← get).arena.curPWArgsSegment num getAddressCompatible

def changeSegment : SerializerM Unit :=
  Arena.changePWArgsSegment alloc (max pwargsMinSegmentsSize num)

inductive Searches (s : SerializerState) : Nat → SerializerState → Prop where
  | start : Searches s 0 s
  | change (h : Searches s n s') (hnone : exec (tryAllocate num getAddressCompatible) s' = (.ok none, t))
    (hchange : exec (changeSegment alloc num) t = (.ok (), s'')) : Searches s (n + 1) s''

inductive LastTurn (s : SerializerState) : Except Stop Nat → SerializerState → Prop where
  | returns (h : exec (tryAllocate num getAddressCompatible) s = (.ok (some a), t)) :
    LastTurn s (.ok a) t
  | throws (h : exec (tryAllocate num getAddressCompatible) s = (.error e, t)) :
    LastTurn s (.error e) t
  | cannotChange (hnone : exec (tryAllocate num getAddressCompatible) s = (.ok none, t))
    (hchange : exec (changeSegment alloc num) t = (.error e, t')) : LastTurn s (.error e) t'

structure NeedsSegment (s : SerializerState) : Prop where
  none : (exec (tryAllocate num getAddressCompatible) s).1 = .ok none
  last : s.arena.curPWArgsSegment = s.arena.pwargsSegments.length - 1

def segmentsLeft (s : SerializerState) : Nat :=
  s.arena.pwargsSegments.length - s.arena.curPWArgsSegment

def HasRoom (s : SerializerState) (k : Nat) : Prop :=
  ∃ segment, s.arena.pwargsSegments[k]? = some segment ∧ num ≤ segment.left

structure Allocates (s : SerializerState) : Prop where
  ends : ∀ n s', Searches alloc num getAddressCompatible s n s' → n ≤ segmentsLeft s
  size : ∀ n s', Searches alloc num getAddressCompatible s n s' →
    NeedsSegment num getAddressCompatible s' → (sizeofPwargs * num : Nat) ≤ newSegmentSize num
  returns : ∀ a s', exec (Arena.allocatePWArgsBuffer alloc num getAddressCompatible) s = (.ok a, s') →
    ∃ base, ArrayAt s' a base num ∧ InSegment s' base num
  throws : ∀ e, (exec (Arena.allocatePWArgsBuffer alloc num getAddressCompatible) s).1 = .error e →
    CannotAllocate e

end Search

section Turn

variable {alloc : Allocator} {num : Nat} {getAddressCompatible : Bool} {s t : SerializerState}

theorem exec_tryAllocate_of_lt {segment : PWArgsSegment}
    (hsegment : s.arena.pwargsSegments[s.arena.curPWArgsSegment]? = some segment)
    (hleft : segment.left < num) : exec (tryAllocate num getAddressCompatible) s = (.ok none, s) := by
  rw [tryAllocate, exec_bind, exec_get]
  dsimp only
  rw [Arena.allocate, exec_bind, exec_getPWArgsSegment hsegment]
  dsimp only
  rw [if_pos hleft, exec_pure]

theorem tryAllocate_none (h : WF s) (hnum : 0 < num)
    (hnone : exec (tryAllocate num getAddressCompatible) s = (.ok none, t)) :
    t = s ∧ ¬HasRoom num s s.arena.curPWArgsSegment := by
  have hkeeps := keeps_allocate h h.curPWArgs hnum getAddressCompatible
  rw [tryAllocate, exec_bind, exec_get] at hnone
  dsimp only at hnone
  have hpost := hkeeps.post none
  rw [hnone] at hpost
  have ⟨hsame, hroom⟩ := hpost rfl
  refine ⟨hsame, ?_⟩
  intro ⟨segment, hsegment, hle⟩
  have := hroom segment hsegment
  omega

theorem exec_tryAllocate_of_not_hasRoom (h : WF s) (hroom : ¬HasRoom num s s.arena.curPWArgsSegment) :
    exec (tryAllocate num getAddressCompatible) s = (.ok none, s) := by
  have hsegment := List.getElem?_eq_getElem h.curPWArgs
  apply exec_tryAllocate_of_lt hsegment
  apply Nat.lt_of_not_le
  intro hle
  exact hroom ⟨_, hsegment, hle⟩

def moveOn (s : SerializerState) (n : Nat) : SerializerState :=
  { s with arena := { s.arena with curPWArgsSegment := s.arena.curPWArgsSegment + n } }

theorem moveOn_wf (h : WF s) {n : Nat}
    (hn : s.arena.curPWArgsSegment + n < s.arena.pwargsSegments.length) : WF (moveOn s n) :=
  h.setArena rfl rfl hn h.curStrings

theorem exec_changeSegment_of_lt
    (hlast : s.arena.curPWArgsSegment ≠ s.arena.pwargsSegments.length - 1) :
    exec (changeSegment alloc num) s = (.ok (), moveOn s 1) := by
  rw [changeSegment, Arena.changePWArgsSegment, exec_bind, exec_get]
  dsimp only
  rw [if_neg hlast, modifyArena, exec_modify]
  rfl

theorem allocateDirect_nonneg {capacity : Int} {b : ByteBuffer}
    (h : exec (allocateDirect alloc capacity) s = (.ok b, t)) : 0 ≤ capacity := by
  unfold allocateDirect at h
  split at h
  . cases h
  . next hnonneg => exact Int.not_lt.mp hnonneg

def withSegment (s : SerializerState) (address capacity : Nat) : SerializerState :=
  (s.withRegion address capacity).addPWArgs ⟨address, capacity, capacity, 0⟩

theorem changeSegment_last (hlast : s.arena.curPWArgsSegment = s.arena.pwargsSegments.length - 1)
    (h : exec (changeSegment alloc num) s = (.ok (), t)) :
    0 ≤ newSegmentSize num ∧ ∃ address, t = withSegment s address (newSegmentSize num).toNat := by
  rw [changeSegment, Arena.changePWArgsSegment, exec_bind, exec_get] at h
  dsimp only at h
  rw [if_pos hlast] at h
  have ⟨segment, s₁, hsegment, hmodify⟩ := bind_ok h
  have ⟨b, s₂, hb, hreturn⟩ := bind_ok hsegment
  have hnonneg := allocateDirect_nonneg hb
  have ⟨address, _, hbuffer, hs₂⟩ := allocateDirect_ok hb
  cases hreturn
  cases hmodify
  refine ⟨hnonneg, address, ?_⟩
  rw [hs₂, hbuffer]
  rfl

theorem newSegment_eq {capacity : Nat} {size : Int}
    (hsize : toInt32 (sizeofPwargs * capacity) = size) :
    PWArgsSegment.new alloc capacity = (do
      let buffer ← allocateDirect alloc size
      return ⟨buffer, [], 0⟩) := by
  unfold PWArgsSegment.new
  rw [hsize]

theorem exec_allocateDirect {address : Nat} {size : Int} (hnonneg : 0 ≤ size)
    (haddress : alloc.address s.regions size.toNat = some address) :
    exec (allocateDirect alloc size) s =
      (.ok ⟨address, size.toNat, size.toNat, 0⟩, s.withRegion address size.toNat) := by
  rw [allocateDirect, if_neg (Int.not_lt.mpr hnonneg), exec_bind, exec_get]
  simp only [haddress]
  rw [exec_bind, exec_modify]
  rfl

theorem exec_changePWArgsSegment_last {capacity address : Nat} {size : Int}
    (hsize : toInt32 (sizeofPwargs * capacity) = size) (hnonneg : 0 ≤ size)
    (haddress : alloc.address s.regions size.toNat = some address)
    (hlast : s.arena.curPWArgsSegment = s.arena.pwargsSegments.length - 1) :
    exec (Arena.changePWArgsSegment alloc capacity) s = (.ok (), withSegment s address size.toNat) := by
  rw [Arena.changePWArgsSegment, newSegment_eq hsize, exec_bind, exec_get]
  dsimp only
  rw [if_pos hlast, exec_bind, exec_bind, exec_allocateDirect hnonneg haddress]
  rfl

theorem exec_changeSegment_last {address : Nat}
    (hlast : s.arena.curPWArgsSegment = s.arena.pwargsSegments.length - 1)
    (hnonneg : 0 ≤ newSegmentSize num)
    (haddress : alloc.address s.regions (newSegmentSize num).toNat = some address) :
    exec (changeSegment alloc num) s =
      (.ok (), withSegment s address (newSegmentSize num).toNat) := by
  apply exec_changePWArgsSegment_last _ hnonneg haddress hlast
  rw [newSegmentSize]

theorem withSegment_wf (h : WF s) {address : Nat} (hchange : exec (changeSegment alloc num) s =
      (.ok (), withSegment s address (newSegmentSize num).toNat)) :
    WF (withSegment s address (newSegmentSize num).toNat) := by
  have hinv := (keeps_changePWArgsSegment alloc (max pwargsMinSegmentsSize num) h).inv
  rw [← changeSegment, hchange] at hinv
  exact hinv

theorem hasRoom_withSegment (h : WF s) {address capacity : Nat}
    (hlast : s.arena.curPWArgsSegment = s.arena.pwargsSegments.length - 1) :
    HasRoom num (withSegment s address capacity)
        (withSegment s address capacity).arena.curPWArgsSegment ↔
      sizeofPwargs * num ≤ capacity := by
  have hcur := h.curPWArgs
  have hsegment : (withSegment s address capacity).arena.pwargsSegments[
      (withSegment s address capacity).arena.curPWArgsSegment]? =
        some ⟨⟨address, capacity, capacity, 0⟩, [], 0⟩ := by
    have hlength : s.arena.curPWArgsSegment + 1 = s.arena.pwargsSegments.length := by omega
    simp only [withSegment, addPWArgs, withRegion, hlength]
    exact List.getElem?_concat_length
  unfold HasRoom
  rw [hsegment]
  simp only [Option.some.injEq, exists_eq_left', PWArgsSegment.left, Nat.sub_zero, sizeofPwargs]
  omega

end Turn

section Run

variable {alloc : Allocator} {num : Nat} {getAddressCompatible : Bool} {s s' : SerializerState}

inductive SearchAt (num : Nat) (s : SerializerState) : Nat → SerializerState → Prop where
  | old (n : Nat) (hn : n < segmentsLeft s)
    (hroom : ∀ k, s.arena.curPWArgsSegment ≤ k → k < s.arena.curPWArgsSegment + n →
      ¬HasRoom num s k) : SearchAt num s n (moveOn s n)
  | new (s' : SerializerState) (h : WF s') (hnone : ∀ k, s.arena.curPWArgsSegment ≤ k → ¬HasRoom num s k)
    (hroom : sizeofPwargs * num ≤ (newSegmentSize num).toNat →
      HasRoom num s' s'.arena.curPWArgsSegment) : SearchAt num s (segmentsLeft s) s'

theorem SearchAt.wf (h : WF s) (hat : SearchAt num s n s') : WF s' := by
  cases hat with
  | old n hn _ =>
    unfold segmentsLeft at hn
    exact moveOn_wf h (by omega)
  | new s' h' _ _ => exact h'

theorem SearchAt.le (hat : SearchAt num s n s') : n ≤ segmentsLeft s := by
  cases hat with
  | old n hn _ => exact Nat.le_of_lt hn
  | new s' _ _ _ => exact Nat.le_refl _

theorem not_hasRoom_of_length_le {k : Nat} (h : s.arena.pwargsSegments.length ≤ k) :
    ¬HasRoom num s k := by
  intro ⟨segment, hsegment, _⟩
  rw [List.getElem?_eq_none h] at hsegment
  contradiction

theorem not_hasRoom_of_last
    (hroom : ∀ k, s.arena.curPWArgsSegment ≤ k → k < s.arena.curPWArgsSegment + n → ¬HasRoom num s k)
    (hlast : s.arena.curPWArgsSegment + n = s.arena.pwargsSegments.length - 1)
    (hcur : ¬HasRoom num s (s.arena.curPWArgsSegment + n)) :
    ∀ k, s.arena.curPWArgsSegment ≤ k → ¬HasRoom num s k := by
  intro k hle
  by_cases hlt : k < s.arena.curPWArgsSegment + n
  . exact hroom k hle hlt
  . by_cases heq : k = s.arena.curPWArgsSegment + n
    . rw [heq]
      exact hcur
    . exact not_hasRoom_of_length_le (by omega)

def Accommodates (num : Nat) (s : SerializerState) : Prop :=
  (∃ k, s.arena.curPWArgsSegment ≤ k ∧ HasRoom num s k) ∨
    sizeofPwargs * max pwargsMinSegmentsSize num ≤ intMax

theorem Accommodates.size_le (h : Accommodates num s)
    (hnone : ∀ k, s.arena.curPWArgsSegment ≤ k → ¬HasRoom num s k) :
    sizeofPwargs * num ≤ (newSegmentSize num).toNat ∧
      (sizeofPwargs * num : Nat) ≤ newSegmentSize num := by
  rcases h with ⟨k, hk, hroom⟩ | hsize
  . exact absurd hroom (hnone k hk)
  . rw [newSegmentSize_of_le hsize]
    unfold sizeofPwargs
    omega

theorem SearchAt.change (h : WF s) (hnum : 0 < num) (haccommodates : Accommodates num s)
    {t s'' : SerializerState} (hat : SearchAt num s n s')
    (hnone : exec (tryAllocate num getAddressCompatible) s' = (.ok none, t))
    (hchange : exec (changeSegment alloc num) t = (.ok (), s'')) : SearchAt num s (n + 1) s'' := by
  have hcur := h.curPWArgs
  have hwf := hat.wf h
  have ⟨hsame, hnoRoom⟩ := tryAllocate_none hwf hnum hnone
  rw [hsame] at hchange
  cases hat with
  | new s' _ hnone' hroom => exact absurd (hroom (haccommodates.size_le hnone').1) hnoRoom
  | old n hn hroom =>
    unfold segmentsLeft at hn
    by_cases hlast : s.arena.curPWArgsSegment + n = s.arena.pwargsSegments.length - 1
    . have ⟨_, address, hs''⟩ := changeSegment_last hlast hchange
      rw [hs''] at hchange ⊢
      have hleft : n + 1 = segmentsLeft s := by
        unfold segmentsLeft
        omega
      rw [hleft]
      apply SearchAt.new _ (withSegment_wf hwf hchange)
      . exact not_hasRoom_of_last hroom hlast hnoRoom
      . exact (hasRoom_withSegment hwf hlast).mpr
    . rw [exec_changeSegment_of_lt hlast] at hchange
      cases hchange
      apply SearchAt.old (n + 1)
      . unfold segmentsLeft
        omega
      . intro k hle hlt
        by_cases hk : k < s.arena.curPWArgsSegment + n
        . exact hroom k hle hk
        . have hk' : k = s.arena.curPWArgsSegment + n := by omega
          rw [hk']
          exact hnoRoom

theorem Searches.searchAt (h : WF s) (hnum : 0 < num) (haccommodates : Accommodates num s)
    (hsearch : Searches alloc num getAddressCompatible s n s') : SearchAt num s n s' := by
  induction hsearch with
  | start =>
    have hcur := h.curPWArgs
    apply SearchAt.old 0
    . unfold segmentsLeft
      omega
    . intro k hle hlt
      omega
  | change _ hnone hchange ih => exact ih.change h hnum haccommodates hnone hchange

theorem searches_moveOn (h : WF s) (hroom : ∀ k, s.arena.curPWArgsSegment ≤ k → ¬HasRoom num s k)
    (n : Nat) (hn : n < segmentsLeft s) :
    Searches alloc num getAddressCompatible s n (moveOn s n) := by
  unfold segmentsLeft at hn
  induction n with
  | zero => exact .start
  | succ n ih =>
    have hcur : (moveOn s n).arena.curPWArgsSegment = s.arena.curPWArgsSegment + n := rfl
    have hlength : (moveOn s n).arena.pwargsSegments.length = s.arena.pwargsSegments.length := rfl
    apply Searches.change (ih (by omega)) (t := moveOn s n)
    . apply exec_tryAllocate_of_not_hasRoom (moveOn_wf h (by omega))
      exact hroom _ (Nat.le_add_right _ _)
    . exact exec_changeSegment_of_lt (by omega)

theorem needsSegment_moveOn (h : WF s)
    (hroom : ∀ k, s.arena.curPWArgsSegment ≤ k → ¬HasRoom num s k) :
    NeedsSegment num getAddressCompatible (moveOn s (segmentsLeft s - 1)) := by
  have hcur := h.curPWArgs
  have hlast : s.arena.curPWArgsSegment + (segmentsLeft s - 1) =
      s.arena.pwargsSegments.length - 1 := by
    unfold segmentsLeft
    omega
  constructor
  . rw [exec_tryAllocate_of_not_hasRoom]
    . exact moveOn_wf h (by omega)
    . exact hroom _ (Nat.le_add_right _ _)
  . exact hlast

theorem untilFits_searches (fuel : Nat) {k : Nat} {s₀ t : SerializerState} {r : Except Stop Nat}
    (hsearch : Searches alloc num getAddressCompatible s₀ k s)
    (h : exec (untilFits (tryAllocate num getAddressCompatible) (changeSegment alloc num) fuel) s =
      (r, t)) :
    ∃ n s', Searches alloc num getAddressCompatible s₀ n s' ∧
      (n = k + fuel ∨ LastTurn alloc num getAddressCompatible s' r t) := by
  induction fuel generalizing k s with
  | zero => exact ⟨k, s, hsearch, Or.inl rfl⟩
  | succ fuel ih =>
    rw [untilFits, exec_bind] at h
    cases htry : exec (tryAllocate num getAddressCompatible) s with
    | mk attempt s₁ =>
      rw [htry] at h
      cases attempt with
      | error e =>
        cases h
        exact ⟨k, s, hsearch, Or.inr (.throws htry)⟩
      | ok array =>
        cases array with
        | some a =>
          cases h
          exact ⟨k, s, hsearch, Or.inr (.returns htry)⟩
        | none =>
          dsimp only at h
          rw [exec_bind] at h
          cases hchange : exec (changeSegment alloc num) s₁ with
          | mk changed s₂ =>
            rw [hchange] at h
            cases changed with
            | error e =>
              cases h
              exact ⟨k, s, hsearch, Or.inr (.cannotChange htry hchange)⟩
            | ok _ =>
              have ⟨n, s', hsearch', hend⟩ := ih (hsearch.change htry hchange) h
              refine ⟨n, s', hsearch', ?_⟩
              rw [show k + (fuel + 1) = k + 1 + fuel by omega]
              exact hend

theorem allocatePWArgsBuffer_ends (h : WF s) (hnum : 0 < num) (haccommodates : Accommodates num s)
    (hheap : 0 < alloc.newSegments) :
    ∃ n s' r t, exec (untilFits (tryAllocate num getAddressCompatible) (changeSegment alloc num)
        (segmentsLeft s + alloc.newSegments)) s = (r, t) ∧
      Searches alloc num getAddressCompatible s n s' ∧
      LastTurn alloc num getAddressCompatible s' r t := by
  have ⟨n, s', hsearch, hend⟩ := untilFits_searches (segmentsLeft s + alloc.newSegments) .start
    (Prod.mk.eta (p := exec (untilFits (tryAllocate num getAddressCompatible)
      (changeSegment alloc num) (segmentsLeft s + alloc.newSegments)) s)).symm
  refine ⟨n, s', _, _, rfl, hsearch, ?_⟩
  rcases hend with hn | hlast
  . have hle := (hsearch.searchAt h hnum haccommodates).le
    omega
  . exact hlast

theorem exhausted_change (h : WF s) (hnone : ∀ k, s.arena.curPWArgsSegment ≤ k → ¬HasRoom num s k)
    (hover : intMax < sizeofPwargs * max pwargsMinSegmentsSize num)
    (hnonneg : 0 ≤ newSegmentSize num) :
    alloc.address s.regions (newSegmentSize num).toNat = none ∨
      ∃ s', exec (changeSegment alloc num) s = (.ok (), s') ∧ WF s' ∧
        ∀ k, s'.arena.curPWArgsSegment ≤ k → ¬HasRoom num s' k := by
  have hcur := h.curPWArgs
  by_cases hlast : s.arena.curPWArgsSegment = s.arena.pwargsSegments.length - 1
  . cases haddress : alloc.address s.regions (newSegmentSize num).toNat with
    | none => exact Or.inl rfl
    | some address =>
      have hchange := exec_changeSegment_last hlast hnonneg haddress
      have hlt := newSegmentSize_lt hover
      refine Or.inr ⟨_, hchange, withSegment_wf h hchange, ?_⟩
      intro k hle
      by_cases heq : k = s.arena.curPWArgsSegment + 1
      . rw [heq]
        intro hroom
        have hfits := (hasRoom_withSegment h hlast).mp hroom
        omega
      . apply not_hasRoom_of_length_le
        have hgt : s.arena.curPWArgsSegment + 1 ≤ k := hle
        simp only [withSegment, addPWArgs, withRegion, List.length_append, List.length_singleton]
        omega
  . refine Or.inr ⟨_, exec_changeSegment_of_lt hlast, moveOn_wf h (by omega), ?_⟩
    intro k hle
    exact hnone k (Nat.le_of_succ_le hle)

theorem searches_until_no_memory (h : WF s)
    (hnone : ∀ k, s.arena.curPWArgsSegment ≤ k → ¬HasRoom num s k)
    (hover : intMax < sizeofPwargs * max pwargsMinSegmentsSize num)
    (hnonneg : 0 ≤ newSegmentSize num) (n : Nat) :
    (∃ s', Searches alloc num getAddressCompatible s n s' ∧ WF s' ∧
        ∀ k, s'.arena.curPWArgsSegment ≤ k → ¬HasRoom num s' k) ∨
      ∃ m s', m < n ∧ Searches alloc num getAddressCompatible s m s' ∧
        alloc.address s'.regions (newSegmentSize num).toNat = none := by
  induction n with
  | zero => exact Or.inl ⟨s, .start, h, hnone⟩
  | succ n ih =>
    rcases ih with ⟨s', hsearch, hwf, hnone'⟩ | ⟨m, s', hm, hsearch, hfull⟩
    . have htry : exec (tryAllocate num getAddressCompatible) s' = (.ok none, s') :=
        exec_tryAllocate_of_not_hasRoom hwf (hnone' _ (Nat.le_refl _))
      have hturn : alloc.address s'.regions (newSegmentSize num).toNat = none ∨ _ :=
        exhausted_change hwf hnone' hover hnonneg
      rcases hturn with hfull | ⟨s'', hchange, hrest⟩
      . exact Or.inr ⟨n, s', Nat.lt_succ_self n, hsearch, hfull⟩
      . exact Or.inl ⟨s'', hsearch.change htry hchange, hrest⟩
    . exact Or.inr ⟨m, s', Nat.lt_succ_of_lt hm, hsearch, hfull⟩

theorem allocatePWArgsBuffer_iff (alloc : Allocator) (getAddressCompatible : Bool)
    {s : SerializerState} (h : WF s) {num : Nat} (hnum : 0 < num) :
    Allocates alloc num getAddressCompatible s ↔ Accommodates num s := by
  have hcur := h.curPWArgs
  constructor
  . intro hallocates
    by_cases hroom : ∃ k, s.arena.curPWArgsSegment ≤ k ∧ HasRoom num s k
    . exact Or.inl hroom
    . right
      have hnone : ∀ k, s.arena.curPWArgsSegment ≤ k → ¬HasRoom num s k :=
        fun k hle hk => hroom ⟨k, hle, hk⟩
      apply Nat.le_of_not_lt
      intro hover
      have hle := hallocates.size _ _
        (searches_moveOn h hnone (segmentsLeft s - 1) (by unfold segmentsLeft; omega))
        (needsSegment_moveOn h hnone)
      have hlt := newSegmentSize_lt hover
      omega
  . intro haccommodates
    have hkeeps := keeps_allocatePWArgsBuffer alloc h hnum getAddressCompatible
    constructor
    . intro n s' hsearch
      exact (hsearch.searchAt h hnum haccommodates).le
    . intro n s' hsearch hneeds
      have hat := hsearch.searchAt h hnum haccommodates
      have ⟨_, hnoRoom⟩ := tryAllocate_none (hat.wf h) hnum (Prod.ext hneeds.none rfl)
      apply (haccommodates.size_le _).2
      cases hat with
      | new s' _ hnone _ => exact hnone
      | old n _ hroom =>
        have hlast : s.arena.curPWArgsSegment + n = s.arena.pwargsSegments.length - 1 := hneeds.last
        exact not_hasRoom_of_last hroom hlast hnoRoom
    . intro a s' hexec
      have hpost := hkeeps.post a
      rw [hexec] at hpost
      have ⟨base, hnew, hsegment⟩ := hpost rfl
      exact ⟨base, hnew.array, hsegment⟩
    . exact hkeeps.err

theorem freshState_needsSegment (h : 512 < num) : NeedsSegment num false freshState := by
  constructor
  . have hsegment : freshState.arena.pwargsSegments[0]? = some ⟨⟨1, 20480, 20480, 0⟩, [], 0⟩ := rfl
    rw [exec_tryAllocate_of_lt hsegment h]
  . rfl

theorem allocatePWArgsBuffer_new_segment :
    NeedsSegment 600 false freshState ∧ Allocates bumpAllocator 600 false freshState := by
  refine ⟨freshState_needsSegment (by decide), ?_⟩
  apply (allocatePWArgsBuffer_iff bumpAllocator false freshState_fresh.wf (by decide)).mpr
  right
  decide

theorem allocatePWArgsBuffer_wraps :
    WF freshState ∧ ¬Allocates bumpAllocator 107374183 false freshState := by
  refine ⟨freshState_fresh.wf, ?_⟩
  intro hallocates
  have hsize := hallocates.size 0 freshState .start (freshState_needsSegment (by decide))
  revert hsize
  decide

end Run

end Ddwaf
