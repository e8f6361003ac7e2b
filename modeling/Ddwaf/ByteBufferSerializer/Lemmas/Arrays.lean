import Ddwaf.ByteBufferSerializer.Lemmas.Alloc
import Mathlib.Data.List.Flatten

/-!
This module contains what the allocation of records in an arena does.
-/

namespace Ddwaf

open Memory Program

theorem exists_append_of_getElem? {l : List α} {k : Nat} {x : α} (h : l[k]? = some x) :
    ∃ l₁ l₂, l = l₁ ++ x :: l₂ ∧ ∀ y, l.set k y = l₁ ++ y :: l₂ := by
  obtain ⟨hlt, hget⟩ := List.getElem?_eq_some_iff.mp h
  refine ⟨l.take k, l.drop (k + 1), ?_, ?_⟩
  . rw [← hget, ← List.drop_eq_getElem_cons hlt, List.take_append_drop]
  . intro y
    exact List.set_eq_take_append_cons_drop.trans (if_pos hlt)

theorem not_mem_of_nodup_flatMap {l : List α} {f : α → List β} {k : Nat} {x x' : α} {b : β}
    {r : List β} (hnodup : (l.flatMap f).Nodup) (hk : l[k]? = some x) (hx : f x = b :: r)
    (hx' : f x' = r) : ∀ y ∈ l.set k x', b ∉ f y := by
  obtain ⟨l₁, l₂, rfl, hset⟩ := exists_append_of_getElem? hk
  rw [hset]
  rw [List.flatMap_append, List.flatMap_cons, hx, List.cons_append] at hnodup
  have hb := (List.nodup_cons.mp (List.perm_middle.nodup_iff.mp hnodup)).1
  intro y hy hmem
  apply hb
  simp only [List.mem_append, List.mem_flatMap]
  rcases List.mem_append.mp hy with hy | hy
  . left
    exact ⟨y, hy, hmem⟩
  . right
    rcases List.mem_cons.mp hy with hy | hy
    . left
      rw [← hx', ← hy]
      exact hmem
    . right
      exact ⟨y, hy, hmem⟩

theorem nodup_flatMap_set {l : List α} {f : α → List β} {k : Nat} {x x' : α}
    (hnodup : (l.flatMap f).Nodup) (hk : l[k]? = some x)
    (hx' : f x' = f x ∨ ∃ b, f x' = f x ++ [b] ∧ ∀ y ∈ l, b ∉ f y) :
    ((l.set k x').flatMap f).Nodup := by
  obtain ⟨l₁, l₂, rfl, hset⟩ := exists_append_of_getElem? hk
  rw [hset]
  rcases hx' with hx' | ⟨b, hx', hb⟩
  . rw [List.flatMap_append, List.flatMap_cons, hx', ← List.flatMap_cons, ← List.flatMap_append]
    exact hnodup
  . have hnot : b ∉ (l₁ ++ x :: l₂).flatMap f := by
      intro hmem
      obtain ⟨y, hy, hby⟩ := List.mem_flatMap.mp hmem
      exact hb y hy hby
    have hperm : ((l₁ ++ x' :: l₂).flatMap f).Perm (b :: (l₁ ++ x :: l₂).flatMap f) := by
      simp only [List.flatMap_append, List.flatMap_cons, hx', List.append_assoc,
        List.singleton_append]
      rw [← List.append_assoc, ← List.append_assoc]
      exact List.perm_middle
    exact hperm.nodup_iff.mpr (List.nodup_cons.mpr ⟨hnot, hnodup⟩)

theorem Arena.getElem?_buffers_pwargs {arena : Arena} {k : Nat} {segment : PWArgsSegment}
    (hk : arena.pwargsSegments[k]? = some segment) : arena.buffers[k]? = some segment.buffer := by
  have hlt := (List.getElem?_eq_some_iff.mp hk).1
  rw [Arena.buffers, List.getElem?_append_left (by simpa using hlt)]
  simp [hk]

namespace SerializerState

theorem ArraysOk.nodup_free {s : SerializerState} (h : ArraysOk s) :
    (s.arena.pwargsSegments.flatMap PWArgsSegment.freeArrays).Nodup :=
  (List.Sublist.flatMap_right _ fun _ _ => List.drop_sublist _ _).nodup h.nodup

section SetSegment

variable {s : SerializerState} {k : Nat} {segment segment' : PWArgsSegment}

theorem WF.of_mem_pwargs (h : WF s) (hk : s.arena.pwargsSegments[k]? = some segment) :
    segment.buffer.Ok := by
  apply h.buffers.ok
  exact List.mem_of_getElem? (Arena.getElem?_buffers_pwargs hk)

theorem WF.not_used_pwargs (h : WF s) (hk : s.arena.pwargsSegments[k]? = some segment) {x : Nat}
    (hge : segment.buffer.address + segment.buffer.position ≤ x)
    (hlt : x < segment.buffer.address + segment.buffer.capacity) : ¬s.Used x :=
  h.buffers.not_usedIn (Arena.getElem?_buffers_pwargs hk) hge hlt

def setPWArgs (s : SerializerState) (k : Nat) (segment : PWArgsSegment) : SerializerState :=
  { s with arena := { s.arena with pwargsSegments := s.arena.pwargsSegments.set k segment } }

theorem getElem?_setPWArgs (hk : s.arena.pwargsSegments[k]? = some segment)
    (segment' : PWArgsSegment) :
    (s.setPWArgs k segment').arena.pwargsSegments[k]? = some segment' := by
  have hlt := (List.getElem?_eq_some_iff.mp hk).1
  simp [setPWArgs, hlt]

theorem buffers_setPWArgs (hk : s.arena.pwargsSegments[k]? = some segment) :
    (s.setPWArgs k segment').arena.buffers = s.arena.buffers.set k segment'.buffer := by
  have hlt := (List.getElem?_eq_some_iff.mp hk).1
  rw [setPWArgs, Arena.buffers, Arena.buffers, List.set_append_left _ _ (by simpa using hlt),
    List.map_set]

structure Follows (s : SerializerState) (segment segment' : PWArgsSegment) : Prop where
  range : segment'.buffer.range = segment.buffer.range
  ok : segment'.buffer.Ok
  position : segment.buffer.position ≤ segment'.buffer.position
  known : ∀ a ∈ segment'.pwargsArrays,
    a < s.nextArray ∧ (s.arrays a).buffer.range = segment'.buffer.range
  idx : segment'.idxOfNextUnusedPWArgsArrayBuffer ≤ segment'.pwargsArrays.length
  free : segment'.freeArrays.Sublist segment.freeArrays
  arrays : segment'.pwargsArrays = segment.pwargsArrays ∨
    ∃ a, segment'.pwargsArrays = segment.pwargsArrays ++ [a] ∧
      ∀ seg ∈ s.arena.pwargsSegments, a ∉ seg.pwargsArrays

theorem Follows.address (h : Follows s segment segment') :
    segment'.buffer.address = segment.buffer.address := congrArg Prod.fst h.range

theorem WF.setPWArgs (h : WF s) (hk : s.arena.pwargsSegments[k]? = some segment)
    (hseg : Follows s segment segment') : WF (s.setPWArgs k segment') := by
  have hi := Arena.getElem?_buffers_pwargs hk
  constructor
  . simp only [SerializerState.setPWArgs, List.length_set]
    exact h.curPWArgs
  . exact h.curStrings
  . rw [buffers_setPWArgs hk]
    exact h.buffers.set hi hseg.range hseg.ok
  . exact h.base
  . constructor
    . intro seg hmem
      rcases List.mem_or_eq_of_mem_set hmem with hmem | rfl
      . exact h.arrays.known seg hmem
      . exact hseg.known
    . exact h.arrays.views
    . intro seg hmem
      rcases List.mem_or_eq_of_mem_set hmem with hmem | rfl
      . exact h.arrays.idx seg hmem
      . exact hseg.idx
    . exact nodup_flatMap_set h.arrays.nodup hk hseg.arrays
  . exact h.handedOut.set (buffers_setPWArgs hk) rfl hi hseg.address hseg.position

theorem Quiet.setPWArgs (hk : s.arena.pwargsSegments[k]? = some segment)
    (hseg : Follows s segment segment') : Quiet s (s.setPWArgs k segment') := by
  have hi := Arena.getElem?_buffers_pwargs hk
  apply Quiet.of_extends
  . constructor
    . intro x hx
      unfold Used
      rw [buffers_setPWArgs hk]
      exact hx.set hi hseg.address hseg.position
    . exact fun _ _ _ => rfl
    . rintro a ⟨hlt, hfree⟩
      refine ⟨hlt, ?_⟩
      intro seg hmem
      rcases List.mem_or_eq_of_mem_set hmem with hmem | rfl
      . exact hfree seg hmem
      . intro ha
        exact hfree segment (List.mem_of_getElem? hk) (hseg.free.subset ha)
    . exact fun _ _ => ⟨rfl, rfl, rfl⟩
    . exact List.suffix_refl _
    . exact fun _ hv => ⟨hv, rfl⟩
  . rfl
  . rfl
  . rfl
  . rfl

theorem exec_getPWArgsSegment (hk : s.arena.pwargsSegments[k]? = some segment) :
    exec (Arena.getPWArgsSegment k) s = (.ok segment, s) := by
  simp only [Arena.getPWArgsSegment, exec_bind, exec_get, hk, exec_pure]

theorem exec_setPWArgsSegment :
    exec (Arena.setPWArgsSegment k segment) s = (.ok (), s.setPWArgs k segment) := by
  rfl

end SetSegment

section Arrays

variable {s : SerializerState}

def addArray (s : SerializerState) (array : PWArgsArrayBuffer) : SerializerState :=
  { s with
    arrays := Function.update s.arrays s.nextArray array
    nextArray := s.nextArray + 1 }

def setArray (s : SerializerState) (a : Nat) (array : PWArgsArrayBuffer) : SerializerState :=
  { s with arrays := Function.update s.arrays a array }

theorem WF.addArray (h : WF s) {array : PWArgsArrayBuffer} (hviews : array.pwArgsBuffers = []) :
    WF (s.addArray array) := by
  constructor
  . exact h.curPWArgs
  . exact h.curStrings
  . exact h.buffers
  . exact h.base
  . constructor
    . intro segment hsegment a ha
      obtain ⟨hlt, hrange⟩ := h.arrays.known segment hsegment a ha
      refine ⟨Nat.lt_succ_of_lt hlt, ?_⟩
      simp only [SerializerState.addArray, Function.update_of_ne (Nat.ne_of_lt hlt)]
      exact hrange
    . intro a ha v hv
      by_cases heq : a = s.nextArray
      . simp [SerializerState.addArray, heq, hviews] at hv
      . have hlt : a < s.nextArray := Nat.lt_of_le_of_ne (Nat.le_of_lt_succ ha) heq
        simp only [SerializerState.addArray, Function.update_of_ne heq] at hv ⊢
        exact h.arrays.views a hlt v hv
    . exact h.arrays.idx
    . exact h.arrays.nodup
  . exact ⟨h.handedOut.pos, h.handedOut.inSegment, h.handedOut.disjoint⟩

theorem Quiet.addArray (s : SerializerState) (array : PWArgsArrayBuffer) :
    Quiet s (s.addArray array) := by
  apply Quiet.of_extends
  . constructor
    . exact fun _ hx => hx
    . exact fun _ _ _ => rfl
    . rintro a ⟨hlt, hfree⟩
      exact ⟨Nat.lt_succ_of_lt hlt, hfree⟩
    . rintro a ⟨hlt, -⟩
      simp [SerializerState.addArray, Function.update_of_ne (Nat.ne_of_lt hlt)]
    . exact List.suffix_refl _
    . exact fun _ hv => ⟨hv, rfl⟩
  . rfl
  . rfl
  . rfl
  . rfl

theorem WF.setArray (h : WF s) {a : Nat} {array : PWArgsArrayBuffer}
    (hrange : array.buffer.range = (s.arrays a).buffer.range)
    (hviews : ∀ v ∈ array.pwArgsBuffers,
      v < s.nextView ∧ (s.views v).range = (s.arrays a).buffer.range) : WF (s.setArray a array) := by
  constructor
  . exact h.curPWArgs
  . exact h.curStrings
  . exact h.buffers
  . exact h.base
  . constructor
    . intro segment hsegment b hb
      obtain ⟨hlt, hknown⟩ := h.arrays.known segment hsegment b hb
      refine ⟨hlt, ?_⟩
      by_cases heq : b = a
      . rw [heq] at hknown ⊢
        simp only [SerializerState.setArray, Function.update_self]
        exact hrange.trans hknown
      . simp only [SerializerState.setArray, Function.update_of_ne heq]
        exact hknown
    . intro b hb v hv
      by_cases heq : b = a
      . rw [heq] at hb hv ⊢
        simp only [SerializerState.setArray, Function.update_self] at hv ⊢
        rw [hrange]
        exact hviews v hv
      . simp only [SerializerState.setArray, Function.update_of_ne heq] at hv ⊢
        exact h.arrays.views b hb v hv
    . exact h.arrays.idx
    . exact h.arrays.nodup
  . exact ⟨h.handedOut.pos, h.handedOut.inSegment, h.handedOut.disjoint⟩

theorem Quiet.setArray {a : Nat} {array : PWArgsArrayBuffer}
    (harray : s.InUse a → array.start = (s.arrays a).start ∧ array.num = (s.arrays a).num ∧
      array.buffer.range = (s.arrays a).buffer.range) : Quiet s (s.setArray a array) := by
  apply Quiet.of_extends
  . constructor
    . exact fun _ hx => hx
    . exact fun _ _ _ => rfl
    . exact fun _ hb => hb
    . intro b hb
      by_cases heq : b = a
      . rw [heq] at hb ⊢
        simp only [SerializerState.setArray, Function.update_self]
        exact harray hb
      . simp [SerializerState.setArray, Function.update_of_ne heq]
    . exact List.suffix_refl _
    . exact fun _ hv => ⟨hv, rfl⟩
  . rfl
  . rfl
  . rfl
  . rfl

theorem exec_newArray {buffer : ByteBuffer} {start num : Nat} (hnum : 0 < num)
    (hfit : start + num * sizeofPwargs ≤ buffer.capacity) :
    exec (PWArgsArrayBuffer.new buffer start num) s =
      (.ok s.nextArray, s.addArray
        ⟨{ buffer with limit := start + num * sizeofPwargs, position := start }, start, num, []⟩) := by
  have hlimit : ¬buffer.capacity < start + num * sizeofPwargs := by omega
  have hposition : ¬start + num * sizeofPwargs < start := by omega
  simp only [PWArgsArrayBuffer.new, Nat.ne_of_gt hnum, if_false, ByteBuffer.setLimit, hlimit,
    ByteBuffer.setPosition, hposition, liftNative, exec_bind, exec_pure, exec_get]
  rfl

theorem exec_resetArray {a start num : Nat}
    (hfit : start + num * sizeofPwargs ≤ (s.arrays a).buffer.capacity) :
    exec (PWArgsArrayBuffer.reset a start num) s =
      (.ok (), s.setArray a
        ⟨{ (s.arrays a).buffer with limit := start + num * sizeofPwargs, position := start },
          start, num, (s.arrays a).pwArgsBuffers⟩) := by
  have hlimit : ¬(s.arrays a).buffer.capacity < start + num * sizeofPwargs := by omega
  have hposition : ¬start + num * sizeofPwargs < start := by omega
  simp only [PWArgsArrayBuffer.reset, PWArgsArrayBuffer.update, exec_bind, exec_modify, exec_get,
    Function.update_self, ByteBuffer.setLimit, hlimit, if_false, liftNative, exec_pure,
    ByteBuffer.setPosition, hposition, Function.update_idem]
  rfl

end Arrays

section Allocate

variable {s : SerializerState}

structure ArrayAt (s : SerializerState) (a base num : Nat) : Prop where
  inUse : s.InUse a
  length : (s.arrays a).num = num
  address : (s.arrays a).buffer.address + (s.arrays a).start = base
  fit : (s.arrays a).start + num * sizeofPwargs ≤ (s.arrays a).buffer.capacity

theorem ArrayAt.extends {W : Set Nat} {s' : SerializerState} {a base num : Nat}
    (h : ArrayAt s a base num) (hs : Extends W s s') : ArrayAt s' a base num := by
  obtain ⟨hstart, hnum, hrange⟩ := hs.arrays a h.inUse
  have haddress := congrArg Prod.fst hrange
  have hcapacity := congrArg Prod.snd hrange
  simp only [ByteBuffer.range] at haddress hcapacity
  constructor
  . exact hs.inUse a h.inUse
  . rw [hnum]
    exact h.length
  . rw [haddress, hstart]
    exact h.address
  . rw [hstart, hcapacity]
    exact h.fit

structure NewArray (s s' : SerializerState) (a base num : Nat) (getAddressCompatible : Bool) :
    Prop where
  array : ArrayAt s' a base num
  start : getAddressCompatible = true → (s'.arrays a).start = 0
  pos : 0 < base
  le : base + num * sizeofPwargs ≤ 2 ^ 63
  used : ∀ x, base ≤ x → x < base + num * sizeofPwargs → s'.Used x
  new : ∀ x, base ≤ x → x < base + num * sizeofPwargs → ¬s.Used x

theorem NewArray.of_quiet {s₀ s' s'' : SerializerState} {a base num : Nat}
    {getAddressCompatible : Bool} (h : NewArray s s' a base num getAddressCompatible)
    (hs : Quiet s₀ s) (hs' : Quiet s' s'') : NewArray s₀ s'' a base num getAddressCompatible := by
  constructor
  . exact h.array.extends hs'.toExtends
  . intro hcompatible
    rw [(hs'.arrays a h.array.inUse).1]
    exact h.start hcompatible
  . exact h.pos
  . exact h.le
  . intro x hge hlt
    exact hs'.used x (h.used x hge hlt)
  . intro x hge hlt hx
    exact h.new x hge hlt (hs.used x hx)

def InSegment (s : SerializerState) (base num : Nat) : Prop :=
  ∃ segment ∈ s.arena.pwargsSegments, segment.buffer.address ≤ base ∧
    base + num * sizeofPwargs ≤ segment.buffer.address + segment.buffer.capacity

variable {k num : Nat} {segment : PWArgsSegment}

theorem keeps_newArray (h : WF s) {buffer : ByteBuffer} {start : Nat} (hnum : 0 < num)
    (hfit : start + num * sizeofPwargs ≤ buffer.capacity) :
    Keeps WF Quiet CannotAllocate (PWArgsArrayBuffer.new buffer start num) s (fun a s' =>
      s'.arena = s.arena ∧ ArrayAt s' a (buffer.address + start) num ∧
        (s'.arrays a).buffer.range = buffer.range ∧ (s'.arrays a).start = start ∧
        ∀ segment ∈ s'.arena.pwargsSegments, a ∉ segment.pwargsArrays) := by
  apply Keeps.of_ok _ _ (exec_newArray hnum hfit)
  . exact h.addArray rfl
  . exact Quiet.addArray s _
  . have hnew : ∀ segment ∈ s.arena.pwargsSegments, s.nextArray ∉ segment.pwargsArrays := by
      intro segment hsegment hmem
      exact Nat.lt_irrefl _ (h.arrays.known segment hsegment _ hmem).1
    refine ⟨rfl, ?_, ?_, ?_, hnew⟩
    . constructor
      . refine ⟨Nat.lt_succ_self _, ?_⟩
        intro segment hsegment hmem
        exact hnew segment hsegment (List.mem_of_mem_drop hmem)
      . simp [addArray]
      . simp [addArray]
      . simpa [addArray] using hfit
    . simp [addArray, ByteBuffer.range]
    . simp [addArray]

theorem follows_append (h : WF s) (hk : s.arena.pwargsSegments[k]? = some segment) {a : Nat}
    (hidx : segment.pwargsArrays.length ≤ segment.idxOfNextUnusedPWArgsArrayBuffer)
    (ha : s.InUse a) (hrange : (s.arrays a).buffer.range = segment.buffer.range)
    (hnew : ∀ seg ∈ s.arena.pwargsSegments, a ∉ seg.pwargsArrays) :
    Follows s segment
      { segment with
        pwargsArrays := segment.pwargsArrays ++ [a]
        idxOfNextUnusedPWArgsArrayBuffer := segment.idxOfNextUnusedPWArgsArrayBuffer + 1 } := by
  have hmem := List.mem_of_getElem? hk
  constructor
  . rfl
  . show segment.buffer.Ok
    exact h.of_mem_pwargs hk
  . exact Nat.le_refl _
  . intro b hb
    rcases List.mem_append.mp hb with hb | hb
    . exact h.arrays.known segment hmem b hb
    . rw [List.mem_singleton] at hb
      rw [hb]
      exact ⟨ha.1, hrange⟩
  . have := h.arrays.idx segment hmem
    simp only [List.length_append, List.length_singleton]
    omega
  . rw [PWArgsSegment.freeArrays, List.drop_eq_nil_of_le (by simp; omega)]
    exact List.nil_sublist _
  . right
    exact ⟨a, rfl, hnew⟩

theorem freeArrays_eq_cons {a : Nat}
    (ha : segment.pwargsArrays[segment.idxOfNextUnusedPWArgsArrayBuffer]? = some a) :
    segment.freeArrays = a ::
      { segment with
        idxOfNextUnusedPWArgsArrayBuffer :=
          segment.idxOfNextUnusedPWArgsArrayBuffer + 1 }.freeArrays := by
  obtain ⟨hlt, hget⟩ := List.getElem?_eq_some_iff.mp ha
  rw [PWArgsSegment.freeArrays, List.drop_eq_getElem_cons hlt, hget]
  rfl

theorem follows_next (h : WF s) (hk : s.arena.pwargsSegments[k]? = some segment) {a : Nat}
    (ha : segment.pwargsArrays[segment.idxOfNextUnusedPWArgsArrayBuffer]? = some a) :
    Follows s segment
      { segment with
        idxOfNextUnusedPWArgsArrayBuffer := segment.idxOfNextUnusedPWArgsArrayBuffer + 1 } := by
  constructor
  . rfl
  . show segment.buffer.Ok
    exact h.of_mem_pwargs hk
  . exact Nat.le_refl _
  . exact h.arrays.known segment (List.mem_of_getElem? hk)
  . exact (List.getElem?_eq_some_iff.mp ha).1
  . rw [freeArrays_eq_cons ha]
    exact List.sublist_cons_self _ _
  . left
    rfl

theorem follows_position (h : WF s) (hk : s.arena.pwargsSegments[k]? = some segment)
    {position : Nat} (hge : segment.buffer.position ≤ position)
    (hle : position ≤ segment.buffer.capacity) :
    Follows s segment
      { segment with buffer := { segment.buffer with position := position } } := by
  have hmem := List.mem_of_getElem? hk
  have hok := h.of_mem_pwargs hk
  constructor
  . rfl
  . exact ⟨hok.pos, hok.le, hok.limit, hle⟩
  . exact hge
  . exact h.arrays.known segment hmem
  . exact h.arrays.idx segment hmem
  . exact List.Sublist.refl _
  . left
    rfl

theorem keeps_setPWArgsSegment {segment' : PWArgsSegment} (h : WF s)
    (hk : s.arena.pwargsSegments[k]? = some segment) (hseg : Follows s segment segment') :
    Keeps WF Quiet CannotAllocate (Arena.setPWArgsSegment k segment') s (fun _ s' =>
      s' = s.setPWArgs k segment') := by
  exact Keeps.of_ok _ _ exec_setPWArgsSegment (h.setPWArgs hk hseg) (Quiet.setPWArgs hk hseg) rfl

theorem keeps_reuseArray (h : WF s) (hk : s.arena.pwargsSegments[k]? = some segment) {a : Nat}
    (ha : segment.pwargsArrays[segment.idxOfNextUnusedPWArgsArrayBuffer]? = some a)
    (hfit : segment.buffer.position + num * sizeofPwargs ≤ segment.buffer.capacity) :
    Keeps WF Quiet CannotAllocate
      (do
        PWArgsArrayBuffer.reset a segment.buffer.position num
        Arena.setPWArgsSegment k
          { segment with
            idxOfNextUnusedPWArgsArrayBuffer := segment.idxOfNextUnusedPWArgsArrayBuffer + 1 }
        return a)
      s
      (fun a s' => ∃ segment', s'.arena.pwargsSegments[k]? = some segment' ∧
        segment'.buffer = segment.buffer ∧
        ArrayAt s' a (segment.buffer.address + segment.buffer.position) num) := by
  have hmem := List.mem_of_getElem? hk
  have hfree := freeArrays_eq_cons ha
  obtain ⟨hlt, hrange⟩ := h.arrays.known segment hmem a (List.mem_of_getElem? ha)
  have haddress := congrArg Prod.fst hrange
  have hcapacity := congrArg Prod.snd hrange
  simp only [ByteBuffer.range] at haddress hcapacity
  have hnot : ¬s.InUse a := by
    rintro ⟨-, hnone⟩
    apply hnone segment hmem
    rw [hfree]
    exact List.mem_cons_self ..
  have hfit' : segment.buffer.position + num * sizeofPwargs ≤ (s.arrays a).buffer.capacity := by
    rw [hcapacity]
    exact hfit
  apply Keeps.bind (Keeps.of_ok _ _ (exec_resetArray hfit')
    (h.setArray rfl (h.arrays.views a hlt)) (Quiet.setArray fun huse => absurd huse hnot)
    rfl (Q := fun _ s' => s' = _))
  rintro _ _ h1 _ rfl
  apply Keeps.bind (keeps_setPWArgsSegment h1 hk (follows_next h1 hk ha))
  rintro _ _ h2 _ rfl
  apply Keeps.pure h2
  refine ⟨_, getElem?_setPWArgs hk _, rfl, ?_⟩
  constructor
  . exact ⟨hlt, not_mem_of_nodup_flatMap h.arrays.nodup_free hk hfree rfl⟩
  . simp [setPWArgs, setArray]
  . simp [setPWArgs, setArray, haddress]
  . simpa [setPWArgs, setArray] using hfit'

theorem keeps_arrayBuffer (h : WF s) (hk : s.arena.pwargsSegments[k]? = some segment)
    (hnum : 0 < num)
    (hfit : segment.buffer.position + num * sizeofPwargs ≤ segment.buffer.capacity)
    (getAddressCompatible : Bool) :
    Keeps WF Quiet CannotAllocate (Arena.arrayBuffer k segment num getAddressCompatible) s (fun a s' =>
      (∃ segment', s'.arena.pwargsSegments[k]? = some segment' ∧
        segment'.buffer = segment.buffer) ∧
        ArrayAt s' a (segment.buffer.address + segment.buffer.position) num ∧
        (getAddressCompatible = true → (s'.arrays a).start = 0)) := by
  have hok := h.of_mem_pwargs hk
  unfold Arena.arrayBuffer
  dsimp only
  split
  . have hslice : 0 + num * sizeofPwargs ≤ segment.buffer.slice.capacity := by
      have := hok.limit
      simp only [ByteBuffer.slice]
      omega
    apply (keeps_newArray h hnum hslice).mono
    . exact fun _ hs => hs
    . rintro a s' _ _ ⟨harena, hat, -, hstart, -⟩
      refine ⟨⟨segment, ?_, rfl⟩, hat, fun _ => hstart⟩
      rw [harena]
      exact hk
  . next hcompatible =>
    split
    . next hidx =>
      apply Keeps.bind (keeps_newArray h hnum hfit)
      rintro a s1 h1 hquiet1 ⟨harena, hat, hrange, -, hnew⟩
      have hk1 : s1.arena.pwargsSegments[k]? = some segment := by
        rw [harena]
        exact hk
      have hseg := follows_append h1 hk1 (List.getElem?_eq_none_iff.mp hidx) hat.inUse hrange hnew
      apply Keeps.bind (keeps_setPWArgsSegment h1 hk1 hseg)
      rintro _ _ h2 hquiet2 rfl
      apply Keeps.pure h2
      exact ⟨⟨_, getElem?_setPWArgs hk1 _, rfl⟩, hat.extends hquiet2.toExtends,
        fun hr => absurd hr hcompatible⟩
    . next a ha =>
      apply (keeps_reuseArray h hk ha hfit).mono
      . exact fun _ hs => hs
      . rintro _ _ _ _ ⟨segment', hk', hbuffer, hat⟩
        exact ⟨⟨segment', hk', hbuffer⟩, hat, fun hr => absurd hr hcompatible⟩

theorem keeps_getPWArgsSegment (h : WF s) (hk : k < s.arena.pwargsSegments.length) :
    Keeps WF Quiet CannotAllocate (Arena.getPWArgsSegment k) s
      (fun segment s' => s' = s ∧ s.arena.pwargsSegments[k]? = some segment) := by
  have hget := List.getElem?_eq_getElem hk
  exact Keeps.of_ok _ _ (exec_getPWArgsSegment hget) h (refl_of Quiet s) ⟨rfl, hget⟩

theorem keeps_moveOn (h : WF s) (hk : s.arena.pwargsSegments[k]? = some segment) (hnum : 0 < num)
    (hfit : segment.buffer.position + num * sizeofPwargs ≤ segment.buffer.capacity) {a : Nat}
    (ha : ArrayAt s a (segment.buffer.address + segment.buffer.position) num)
    {getAddressCompatible : Bool}
    (hstart : getAddressCompatible = true → (s.arrays a).start = 0) :
    Keeps WF Quiet CannotAllocate
      (do
        let segment' ← Arena.getPWArgsSegment k
        let buffer ←
          liftNative (segment'.buffer.setPosition (segment.buffer.position + num * sizeofPwargs))
        Arena.setPWArgsSegment k { segment' with buffer := buffer }
        handOut (buffer.address + segment.buffer.position) (num * sizeofPwargs)
        return some a)
      s
      (fun r s' => r = some a ∧
        NewArray s s' a (segment.buffer.address + segment.buffer.position) num
          getAddressCompatible ∧
        InSegment s' (segment.buffer.address + segment.buffer.position) num) := by
  have hok := h.of_mem_pwargs hk
  have hpos := hok.pos
  have hle := hok.le
  have hlimit := hok.limit
  have hlength : 0 < num * sizeofPwargs := Nat.mul_pos hnum (by decide)
  have hnew : ∀ x, segment.buffer.address + segment.buffer.position ≤ x →
      x < segment.buffer.address + segment.buffer.position + num * sizeofPwargs → ¬s.Used x := by
    intro x hge hlt
    exact h.not_used_pwargs hk hge (by omega)
  have hset : segment.buffer.setPosition (segment.buffer.position + num * sizeofPwargs) =
      .ok { segment.buffer with position := segment.buffer.position + num * sizeofPwargs } := by
    unfold ByteBuffer.setPosition
    rw [if_neg (by omega)]
  have hseg := follows_position h hk (Nat.le_add_right _ (num * sizeofPwargs)) hfit
  have hk' := getElem?_setPWArgs hk
    { segment with
      buffer := { segment.buffer with position := segment.buffer.position + num * sizeofPwargs } }
  have hquiet := trans_of Quiet (Quiet.setPWArgs hk hseg)
    (Quiet.handOut _ (segment.buffer.address + segment.buffer.position, num * sizeofPwargs))
  have hmem := List.mem_of_getElem? (Arena.getElem?_buffers_pwargs hk')
  refine Keeps.of_ok (some a) _ ?_ ?_ hquiet ?_
  . simp only [exec_bind, exec_getPWArgsSegment hk, hset, liftNative, exec_pure,
      exec_setPWArgsSegment, exec_handOut]
  . apply (h.setPWArgs hk hseg).handOut
    . refine ⟨_, hmem, Nat.le_add_right _ _, ?_⟩
      simp only
      omega
    . intro r hr
      exact h.handedOut.disjoint_of_not_used hnew hlength hr
    . exact hlength
  . refine ⟨rfl, ?_, ?_⟩
    . constructor
      . exact ha.extends hquiet.toExtends
      . exact hstart
      . omega
      . omega
      . intro x hge hlt
        refine ⟨_, hmem, ?_⟩
        simp only [ByteBuffer.Uses]
        omega
      . exact hnew
    . refine ⟨_, List.mem_of_getElem? hk', Nat.le_add_right _ _, ?_⟩
      dsimp only
      omega

theorem keeps_allocate (h : WF s) (hk : k < s.arena.pwargsSegments.length) (hnum : 0 < num)
    (getAddressCompatible : Bool) :
    Keeps WF Quiet CannotAllocate (Arena.allocate k num getAddressCompatible) s (fun r s' =>
      match r with
      | none => s' = s ∧
        ∀ segment, s.arena.pwargsSegments[k]? = some segment → segment.left < num
      | some a => ∃ base, NewArray s s' a base num getAddressCompatible ∧ InSegment s' base num) := by
  unfold Arena.allocate
  apply Keeps.bind (keeps_getPWArgsSegment h hk)
  rintro segment _ _ _ ⟨rfl, hk⟩
  split
  . next hleft =>
    apply Keeps.pure h
    refine ⟨rfl, ?_⟩
    intro segment' hk'
    rw [hk, Option.some.injEq] at hk'
    rw [← hk']
    exact hleft
  . next hleft =>
    have hfit : segment.buffer.position + num * sizeofPwargs ≤ segment.buffer.capacity := by
      have := (h.of_mem_pwargs hk).position
      simp only [PWArgsSegment.left, sizeofPwargs] at hleft ⊢
      omega
    dsimp only
    apply Keeps.bind (keeps_arrayBuffer h hk hnum hfit getAddressCompatible)
    rintro a s1 h1 hquiet1 ⟨⟨segment1, hk1, hbuffer⟩, hat, hstart⟩
    rw [← hbuffer] at hfit hat ⊢
    apply (keeps_moveOn h1 hk1 hnum hfit hat hstart).mono
    . exact fun _ hs => hs
    . rintro _ s2 _ _ ⟨rfl, hnew, hsegment⟩
      exact ⟨_, hnew.of_quiet hquiet1 (refl_of Quiet s2), hsegment⟩

end Allocate

section ChangeSegment

variable {s : SerializerState} {b : ByteBuffer}

def addPWArgs (s : SerializerState) (b : ByteBuffer) : SerializerState :=
  { s with
    arena := { s.arena with
      pwargsSegments := s.arena.pwargsSegments ++ [⟨b, [], 0⟩]
      curPWArgsSegment := s.arena.curPWArgsSegment + 1 } }

theorem buffers_addPWArgs : (s.addPWArgs b).arena.buffers.Perm (b :: s.arena.buffers) := by
  simp only [addPWArgs, Arena.buffers, List.map_append, List.map_singleton, List.append_assoc,
    List.singleton_append]
  exact List.perm_middle

theorem WF.addPWArgs (h : WF s) (hbuffers : BuffersOk (b :: s.arena.buffers) s.regions) :
    WF (s.addPWArgs b) := by
  constructor
  . have := h.curPWArgs
    simp only [SerializerState.addPWArgs, List.length_append, List.length_singleton]
    omega
  . exact h.curStrings
  . exact hbuffers.perm buffers_addPWArgs
  . exact h.base
  . constructor
    . intro segment hsegment
      rcases List.mem_append.mp hsegment with hsegment | hsegment
      . exact h.arrays.known segment hsegment
      . rw [List.mem_singleton] at hsegment
        simp [hsegment]
    . exact h.arrays.views
    . intro segment hsegment
      rcases List.mem_append.mp hsegment with hsegment | hsegment
      . exact h.arrays.idx segment hsegment
      . rw [List.mem_singleton] at hsegment
        simp [hsegment]
    . simpa [SerializerState.addPWArgs] using h.arrays.nodup
  . apply h.handedOut.of_buffers
    . intro c hc
      exact buffers_addPWArgs.mem_iff.mpr (List.mem_cons_of_mem _ hc)
    . rfl

theorem Quiet.addPWArgs (s : SerializerState) (b : ByteBuffer) : Quiet s (s.addPWArgs b) := by
  apply Quiet.of_extends
  . constructor
    . rintro x ⟨c, hc, huses⟩
      exact ⟨c, buffers_addPWArgs.mem_iff.mpr (List.mem_cons_of_mem _ hc), huses⟩
    . exact fun _ _ _ => rfl
    . rintro a ⟨hlt, hfree⟩
      refine ⟨hlt, ?_⟩
      intro segment hsegment
      rcases List.mem_append.mp hsegment with hsegment | hsegment
      . exact hfree segment hsegment
      . rw [List.mem_singleton] at hsegment
        simp [hsegment, PWArgsSegment.freeArrays]
    . exact fun _ _ => ⟨rfl, rfl, rfl⟩
    . exact List.suffix_refl _
    . exact fun _ hv => ⟨hv, rfl⟩
  . rfl
  . rfl
  . rfl
  . rfl

theorem keeps_changePWArgsSegment (alloc : Allocator) (capacity : Nat) (h : WF s) :
    Keeps WF Quiet CannotAllocate (Arena.changePWArgsSegment alloc capacity) s (fun _ _ => True) := by
  unfold Arena.changePWArgsSegment PWArgsSegment.new
  apply Keeps.get_bind
  dsimp only
  split
  . apply Keeps.bind (Q := fun segment s' => ∃ b, segment = PWArgsSegment.mk b [] 0 ∧
      BuffersOk (b :: s'.arena.buffers) s'.regions)
    . apply Keeps.bind (keeps_allocateDirect alloc _ h)
      rintro b s1 h1 _ ⟨_, -, -, -, hbuffers⟩
      exact Keeps.pure h1 ⟨b, rfl, hbuffers⟩
    . rintro _ s1 h1 _ ⟨b, rfl, hbuffers⟩
      exact Keeps.modify (h1.addPWArgs hbuffers) (Quiet.addPWArgs s1 b) trivial
  . next hcur =>
    have := h.curPWArgs
    apply Keeps.modify
    . exact h.setArena rfl rfl (by simp only; omega) h.curStrings
    . exact Quiet.setArena rfl rfl
    . trivial

end ChangeSegment

theorem keeps_setFirstUsed {s : SerializerState} (h : WF s) :
    Keeps WF Quiet CannotAllocate Arena.setFirstUsed s (fun _ s' =>
      s'.arena.pwargsSegments = s.arena.pwargsSegments) := by
  apply Keeps.modify
  . dsimp only
    split
    . exact h.setArena rfl rfl h.curPWArgs h.curStrings
    . exact h
  . dsimp only
    split
    . exact Quiet.setArena rfl rfl
    . exact refl_of Quiet s
  . dsimp only
    split
    . rfl
    . rfl

theorem keeps_allocatePWArgsBuffer (alloc : Allocator) {s : SerializerState} (h : WF s) {num : Nat}
    (hnum : 0 < num) (getAddressCompatible : Bool) :
    Keeps WF Quiet CannotAllocate (Arena.allocatePWArgsBuffer alloc num getAddressCompatible) s
      (fun a s' =>
        ∃ base, NewArray s s' a base num getAddressCompatible ∧ InSegment s' base num) := by
  unfold Arena.allocatePWArgsBuffer
  apply Keeps.get_bind
  dsimp only
  apply Keeps.bind (Q := fun a s' =>
    ∃ base, NewArray s s' a base num getAddressCompatible ∧ InSegment s' base num)
  . apply keeps_untilFits (J := Quiet s)
    . intro s1 h1 hquiet1
      apply Keeps.get_bind
      apply (keeps_allocate h1 h1.curPWArgs hnum getAddressCompatible).mono
      . exact fun _ hs => hs
      . intro r s2 _ _ hr
        cases r with
        | none =>
          rw [show s2 = s1 from hr.1]
          exact hquiet1
        | some a =>
          obtain ⟨base, hnew, hsegment⟩ := hr
          exact ⟨base, hnew.of_quiet hquiet1 (refl_of Quiet s2), hsegment⟩
    . intro s1 h1 hquiet1
      apply (keeps_changePWArgsSegment alloc _ h1).mono
      . exact fun _ hs => hs
      . intro _ s2 _ hquiet2 _
        exact trans_of Quiet hquiet1 hquiet2
    . exact fun _ he => he
    . exact h
    . exact refl_of Quiet s
  . rintro a s1 h1 _ ⟨base, hnew, hsegment⟩
    apply Keeps.bind (keeps_setFirstUsed h1)
    intro _ s2 h2 hquiet2 hsegments
    apply Keeps.pure h2
    refine ⟨base, hnew.of_quiet (refl_of Quiet s) hquiet2, ?_⟩
    unfold InSegment
    rw [hsegments]
    exact hsegment

end SerializerState

end Ddwaf
