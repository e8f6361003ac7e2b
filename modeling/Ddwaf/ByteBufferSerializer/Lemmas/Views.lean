import Ddwaf.ByteBufferSerializer.Lemmas.Arrays

/-!
This module contains what the views of single records do: a view is set to the slot of its record, and
the bytes that are put go behind the ones that the slot has got so far.
-/

namespace Ddwaf

open Memory Program

def slots (base num : Nat) : Set Nat := { x | base ≤ x ∧ x < base + num * sizeofPwargs }

def slot (base i : Nat) : Set Nat := slots (base + i * sizeofPwargs) 1

theorem mem_slots {base num x : Nat} :
    x ∈ slots base num ↔ base ≤ x ∧ x < base + num * sizeofPwargs := Iff.rfl

theorem slot_subset_slots {base num i : Nat} (hi : i < num) : slot base i ⊆ slots base num := by
  intro x hx
  simp only [slot, mem_slots, sizeofPwargs] at hx ⊢
  omega

namespace SerializerState

variable {s : SerializerState}

section SetView

def addView (s : SerializerState) (buffer : ByteBuffer) : SerializerState :=
  { s with views := Function.update s.views s.nextView buffer, nextView := s.nextView + 1 }

def setView (s : SerializerState) (v : Nat) (buffer : ByteBuffer) : SerializerState :=
  { s with views := Function.update s.views v buffer }

theorem WF.addView (h : WF s) (buffer : ByteBuffer) : WF (s.addView buffer) := by
  constructor
  . exact h.curPWArgs
  . exact h.curStrings
  . exact h.buffers
  . exact h.base
  . constructor
    . exact h.arrays.known
    . intro a ha v hv
      obtain ⟨hlt, hrange⟩ := h.arrays.views a ha v hv
      refine ⟨Nat.lt_succ_of_lt hlt, ?_⟩
      simp only [SerializerState.addView, Function.update_of_ne (Nat.ne_of_lt hlt)]
      exact hrange
    . exact h.arrays.idx
    . exact h.arrays.nodup
  . exact ⟨h.handedOut.pos, h.handedOut.inSegment, h.handedOut.disjoint⟩

theorem Writes.addView (s : SerializerState) (buffer : ByteBuffer) :
    Writes ∅ s (s.addView buffer) := by
  apply Writes.of_extends
  . constructor
    . exact fun _ hx => hx
    . exact fun _ _ _ => rfl
    . exact fun _ ha => ha
    . exact fun _ _ => ⟨rfl, rfl, rfl⟩
    . exact List.suffix_refl _
    . intro v hv
      refine ⟨Nat.lt_succ_of_lt hv, ?_⟩
      simp only [SerializerState.addView, Function.update_of_ne (Nat.ne_of_lt hv)]
  . rfl
  . rfl

theorem range_setView {v : Nat} {buffer : ByteBuffer} (hrange : buffer.range = (s.views v).range)
    (w : Nat) : ((s.setView v buffer).views w).range = (s.views w).range := by
  by_cases heq : w = v
  . simp only [setView, heq, Function.update_self, hrange]
  . simp only [setView, Function.update_of_ne heq]

theorem WF.setView (h : WF s) {v : Nat} {buffer : ByteBuffer}
    (hrange : buffer.range = (s.views v).range) : WF (s.setView v buffer) := by
  constructor
  . exact h.curPWArgs
  . exact h.curStrings
  . exact h.buffers
  . exact h.base
  . constructor
    . exact h.arrays.known
    . intro a ha w hw
      obtain ⟨hlt, hknown⟩ := h.arrays.views a ha w hw
      exact ⟨hlt, (range_setView hrange w).trans hknown⟩
    . exact h.arrays.idx
    . exact h.arrays.nodup
  . exact ⟨h.handedOut.pos, h.handedOut.inSegment, h.handedOut.disjoint⟩

theorem Writes.setView {v : Nat} {buffer : ByteBuffer} (hrange : buffer.range = (s.views v).range) :
    Writes ∅ s (s.setView v buffer) := by
  apply Writes.of_extends
  . constructor
    . exact fun _ hx => hx
    . exact fun _ _ _ => rfl
    . exact fun _ ha => ha
    . exact fun _ _ => ⟨rfl, rfl, rfl⟩
    . exact List.suffix_refl _
    . exact fun w hw => ⟨hw, range_setView hrange w⟩
  . rfl
  . rfl

theorem exec_newView {buffer : ByteBuffer} {start : Nat} (hfit : start + sizeofPwargs ≤ buffer.capacity) :
    exec (PWArgsBuffer.new buffer start) s =
      (.ok s.nextView,
        s.addView { buffer with limit := start + sizeofPwargs, position := start }) := by
  have hlimit : ¬buffer.capacity < start + sizeofPwargs := by omega
  have hposition : ¬start + sizeofPwargs < start := by omega
  simp only [PWArgsBuffer.new, ByteBuffer.setLimit, hlimit, if_false, ByteBuffer.setPosition,
    hposition, liftNative, exec_bind, exec_pure, exec_get]
  rfl

theorem exec_resetView {v start : Nat} (hfit : start + sizeofPwargs ≤ (s.views v).capacity) :
    exec (PWArgsBuffer.reset v start) s =
      (.ok (),
        s.setView v { s.views v with limit := start + sizeofPwargs, position := start }) := by
  have hlimit : ¬(s.views v).capacity < start + sizeofPwargs := by omega
  have hposition : ¬start + sizeofPwargs < start := by omega
  simp only [PWArgsBuffer.reset, PWArgsBuffer.setBuffer, exec_bind, exec_modify, exec_get,
    ByteBuffer.setLimit, hlimit, if_false, liftNative, exec_pure, ByteBuffer.setPosition, hposition]
  simp only [setView, Function.update_idem]

end SetView

section Slot

structure SlotHas (s : SerializerState) (v A : Nat) (bs : List UInt8) : Prop where
  known : v < s.nextView
  position : (s.views v).address + (s.views v).position = A + bs.length
  limit : (s.views v).address + (s.views v).limit = A + sizeofPwargs
  room : bs.length ≤ sizeofPwargs
  used : ∀ x ∈ slots A 1, s.Used x
  read : read s.memory A bs.length = bs
  written : ∀ x, A ≤ x → x < A + bs.length → s.Written x

theorem SlotHas.of_quiet {s' : SerializerState} {v A : Nat} {bs : List UInt8} (h : SlotHas s v A bs)
    (hs : Quiet s s') : SlotHas s' v A bs := by
  have hroom := h.room
  constructor
  . rw [hs.nextView]
    exact h.known
  . rw [hs.views]
    exact h.position
  . rw [hs.views]
    exact h.limit
  . exact h.room
  . intro x hx
    exact hs.used x (h.used x hx)
  . rw [read_congr]
    . exact h.read
    . intro x hge hlt
      apply hs.frame'
      apply h.used
      rw [mem_slots]
      omega
  . exact fun x hge hlt => hs.mono_written (h.written x hge hlt)

def putView (s : SerializerState) (v : Nat) (bs : List UInt8) : SerializerState :=
  { s.setView v { s.views v with position := (s.views v).position + bs.length } with
    memory := write s.memory ((s.views v).address + (s.views v).position) bs
    written := ((s.views v).address + (s.views v).position, bs.length) :: s.written }

theorem WF.putView (h : WF s) (v : Nat) (bs : List UInt8) : WF (s.putView v bs) := by
  have hset : WF (s.setView v { s.views v with position := (s.views v).position + bs.length }) :=
    h.setView rfl
  constructor
  . exact hset.curPWArgs
  . exact hset.curStrings
  . exact hset.buffers
  . exact hset.base
  . exact ⟨hset.arrays.known, hset.arrays.views, hset.arrays.idx, hset.arrays.nodup⟩
  . exact ⟨hset.handedOut.pos, hset.handedOut.inSegment, hset.handedOut.disjoint⟩

theorem Writes.putView {v A : Nat} {bs bs' : List UInt8} (hslot : SlotHas s v A bs)
    (hroom : bs.length + bs'.length ≤ sizeofPwargs) : Writes (slots A 1) s (s.putView v bs') := by
  have hset : Writes ∅ s
      (s.setView v { s.views v with position := (s.views v).position + bs'.length }) :=
    Writes.setView rfl
  have hposition := hslot.position
  refine ⟨⟨?_, List.suffix_cons _ _, ?_⟩, rfl⟩
  . constructor
    . exact hset.used
    . intro x _ hmem
      show write s.memory ((s.views v).address + (s.views v).position) bs' x = s.memory x
      rw [hslot.position]
      by_cases hlt : x < A + bs.length
      . exact write_of_lt bs' hlt
      . apply write_of_ge
        by_contra hge
        apply hmem
        rw [mem_slots]
        omega
    . exact hset.inUse
    . exact hset.arrays
    . exact hset.handedOut
    . exact hset.viewRange
  . rintro x _ hmem ⟨r, hr, hge, hlt⟩
    rcases List.mem_cons.mp hr with rfl | hr
    . rw [mem_slots] at hmem
      simp only at hge hlt
      omega
    . exact ⟨r, hr, hge, hlt⟩

theorem SlotHas.putView {v A : Nat} {bs bs' : List UInt8} (h : SlotHas s v A bs)
    (hroom : bs.length + bs'.length ≤ sizeofPwargs) : SlotHas (s.putView v bs') v A (bs ++ bs') := by
  have hposition := h.position
  constructor
  . exact h.known
  . simp only [SerializerState.putView, setView, Function.update_self, List.length_append]
    omega
  . simp only [SerializerState.putView, setView, Function.update_self]
    exact h.limit
  . rw [List.length_append]
    exact hroom
  . exact h.used
  . show Memory.read (write s.memory ((s.views v).address + (s.views v).position) bs') A
      (bs ++ bs').length = bs ++ bs'
    rw [h.position, List.length_append, read_append, read_write,
      read_congr (fun x _ hlt => write_of_lt _ hlt), h.read]
  . intro x hge hlt
    rw [List.length_append] at hlt
    by_cases hbefore : x < A + bs.length
    . obtain ⟨r, hr, hcovers⟩ := h.written x hge hbefore
      exact ⟨r, List.mem_cons_of_mem _ hr, hcovers⟩
    . refine ⟨_, List.mem_cons_self .., ?_⟩
      simp only
      omega

theorem keeps_put (h : WF s) {v A : Nat} {bs : List UInt8} (hslot : SlotHas s v A bs)
    {bs' : List UInt8} (hroom : bs.length + bs'.length ≤ sizeofPwargs) :
    Keeps WF (Writes (slots A 1)) CannotAllocate (PWArgsBuffer.put v bs') s
      (fun _ s' => SlotHas s' v A (bs ++ bs')) := by
  have hposition := hslot.position
  have hlimit := hslot.limit
  have hput : ¬(s.views v).limit < (s.views v).position + bs'.length := by omega
  apply Keeps.of_ok () (s.putView v bs')
  . simp only [PWArgsBuffer.put, putBytes, PWArgsBuffer.setBuffer, exec_bind, exec_get, hput, if_false,
      exec_modify, exec_pure]
    rfl
  . exact h.putView v bs'
  . exact Writes.putView hslot hroom
  . exact hslot.putView hroom

end Slot

section GetView

variable {a base num : Nat}

theorem keeps_newView (h : WF s) {buffer : ByteBuffer} {start : Nat}
    (hfit : start + sizeofPwargs ≤ buffer.capacity) :
    Keeps WF (Writes ∅) CannotAllocate (PWArgsBuffer.new buffer start) s (fun v s' =>
      s'.arrays = s.arrays ∧ v < s'.nextView ∧ (s'.views v).range = buffer.range) := by
  apply Keeps.of_ok _ _ (exec_newView hfit)
  . exact h.addView _
  . exact Writes.addView s _
  . refine ⟨rfl, Nat.lt_succ_self _, ?_⟩
    simp [addView, ByteBuffer.range]

theorem keeps_updateArray (h : WF s) {f : PWArgsArrayBuffer → PWArgsArrayBuffer}
    (hstart : (f (s.arrays a)).start = (s.arrays a).start)
    (hnum : (f (s.arrays a)).num = (s.arrays a).num)
    (hbuffer : (f (s.arrays a)).buffer = (s.arrays a).buffer)
    (hviews : ∀ v ∈ (f (s.arrays a)).pwArgsBuffers,
      v < s.nextView ∧ (s.views v).range = (s.arrays a).buffer.range) :
    Keeps WF (Writes ∅) CannotAllocate (PWArgsArrayBuffer.update a f) s
      (fun _ s' => s'.arrays a = f (s.arrays a)) := by
  have hrange := congrArg ByteBuffer.range hbuffer
  apply Keeps.modify
  . exact h.setArray hrange hviews
  . exact (Quiet.setArray fun _ => ⟨hstart, hnum, hrange⟩).toWrites
  . simp

theorem keeps_addViews (h : WF s) (ha : ArrayAt s a base num) {i : Nat} (hi : i < num) (n : Nat) :
    Keeps WF (Writes ∅) CannotAllocate (PWArgsArrayBuffer.addViews a i n) s (fun _ s' =>
      (s'.arrays a).pwArgsBuffers.length = (s.arrays a).pwArgsBuffers.length + n) := by
  induction n generalizing s with
  | zero => exact Keeps.pure h rfl
  | succ n ih =>
    have hfit : (s.arrays a).start + i * sizeofPwargs + sizeofPwargs ≤
        (s.arrays a).buffer.capacity := by
      have := ha.fit
      simp only [sizeofPwargs] at this ⊢
      omega
    apply Keeps.get_bind
    dsimp only
    apply Keeps.bind (keeps_newView h hfit)
    rintro v s1 h1 hs1 ⟨harrays, hv, hrange⟩
    have ha1 := ha.extends hs1.toExtends
    rw [← harrays] at hrange
    apply Keeps.bind (keeps_updateArray h1 rfl rfl rfl ?_)
    . intro _ s2 h2 hs2 harray2
      apply (ih h2 (ha1.extends hs2.toExtends)).mono
      . exact fun _ hs => hs
      . intro _ s3 _ _ hlength
        rw [hlength, harray2, harrays, List.length_append, List.length_singleton]
        omega
    . intro w hw
      rcases List.mem_append.mp hw with hw | hw
      . exact h1.arrays.views a ha1.inUse.1 w hw
      . rw [List.mem_singleton] at hw
        rw [hw]
        exact ⟨hv, hrange⟩

theorem keeps_resetView (h : WF s) {v : Nat} (hv : v < s.nextView) {start : Nat}
    (hfit : start + sizeofPwargs ≤ (s.views v).capacity)
    (hused : ∀ x ∈ slots ((s.views v).address + start) 1, s.Used x) :
    Keeps WF (Writes ∅) CannotAllocate (PWArgsBuffer.reset v start) s
      (fun _ s' => SlotHas s' v ((s.views v).address + start) []) := by
  apply Keeps.of_ok _ _ (exec_resetView hfit)
  . exact h.setView rfl
  . exact Writes.setView rfl
  . constructor
    . exact hv
    . simp [setView]
    . simp only [setView, Function.update_self]
      omega
    . exact Nat.zero_le _
    . exact hused
    . rfl
    . intro x hge hlt
      rw [List.length_nil] at hlt
      omega

theorem keeps_getView (h : WF s) (ha : ArrayAt s a base num) (hused : ∀ x ∈ slots base num, s.Used x)
    {i : Nat} (hi : i < num) :
    Keeps WF (Writes ∅) CannotAllocate (PWArgsArrayBuffer.getView (some a) i) s (fun v s' =>
      SlotHas s' v (base + i * sizeofPwargs) [] ∧
        (s'.views v).address + (s'.arrays a).start = base) := by
  have hnum : ¬(s.arrays a).num ≤ i := by
    rw [ha.length]
    omega
  unfold PWArgsArrayBuffer.getView
  apply Keeps.get_bind
  rw [if_neg hnum]
  apply Keeps.get_bind
  apply Keeps.bind (keeps_addViews h ha hi _)
  intro _ s1 h1 hs1 hlength
  have ha1 := ha.extends hs1.toExtends
  have hi1 : i < (s1.arrays a).pwArgsBuffers.length := by
    rw [hlength]
    omega
  have hv := List.getElem?_eq_getElem hi1
  apply Keeps.get_bind
  dsimp only
  rw [hv]
  dsimp only
  obtain ⟨hlt, hrange⟩ := h1.arrays.views a ha1.inUse.1 _ (List.mem_of_getElem? hv)
  have haddress := congrArg Prod.fst hrange
  have hcapacity := congrArg Prod.snd hrange
  simp only [ByteBuffer.range] at haddress hcapacity
  have hA : (s1.views (s1.arrays a).pwArgsBuffers[i]).address +
      ((s1.arrays a).start + i * sizeofPwargs) = base + i * sizeofPwargs := by
    rw [haddress, ← ha1.address]
    omega
  have hfit : (s1.arrays a).start + i * sizeofPwargs + sizeofPwargs ≤
      (s1.views (s1.arrays a).pwArgsBuffers[i]).capacity := by
    have := ha1.fit
    simp only [sizeofPwargs] at this ⊢
    omega
  have hused1 : ∀ x ∈ slots ((s1.views (s1.arrays a).pwArgsBuffers[i]).address +
      ((s1.arrays a).start + i * sizeofPwargs)) 1, s1.Used x := by
    rw [hA]
    intro x hx
    exact hs1.used x (hused x (slot_subset_slots hi hx))
  apply Keeps.bind (keeps_resetView h1 hlt hfit hused1)
  intro _ s2 h2 hs2 hslot
  rw [hA] at hslot
  have haddress2 := congrArg Prod.fst (hs2.viewRange _ hlt).2
  simp only [ByteBuffer.range] at haddress2
  refine Keeps.pure h2 ⟨hslot, ?_⟩
  rw [haddress2, haddress, (hs2.arrays a ha1.inUse).1]
  exact ha1.address

end GetView

end SerializerState

end Ddwaf
