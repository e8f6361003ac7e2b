import Ddwaf.ByteBufferSerializer.Lemmas.Buffers
import Ddwaf.ByteBufferSerializer.Reference
import Mathlib.Data.List.Basic

/-!
This module contains the invariant of the serializer's state and the relation between the states before
and after a step: what is handed out stays handed out, and is not written to but for the record that
the step is about.
-/

namespace Ddwaf

open Memory Program

def Arena.buffers (arena : Arena) : List ByteBuffer :=
  arena.pwargsSegments.map PWArgsSegment.buffer ++ arena.stringsSegments.map StringsSegment.buffer

def PWArgsSegment.freeArrays (segment : PWArgsSegment) : List Nat :=
  segment.pwargsArrays.drop segment.idxOfNextUnusedPWArgsArrayBuffer

namespace SerializerState

def Used (s : SerializerState) (x : Nat) : Prop := UsedIn s.arena.buffers x

def Written (s : SerializerState) (x : Nat) : Prop := ∃ r ∈ s.written, r.1 ≤ x ∧ x < r.1 + r.2

def InUse (s : SerializerState) (a : Nat) : Prop :=
  a < s.nextArray ∧ ∀ segment ∈ s.arena.pwargsSegments, a ∉ segment.freeArrays

structure ArraysOk (s : SerializerState) : Prop where
  known : ∀ segment ∈ s.arena.pwargsSegments, ∀ a ∈ segment.pwargsArrays,
    a < s.nextArray ∧ (s.arrays a).buffer.range = segment.buffer.range
  views : ∀ a < s.nextArray, ∀ v ∈ (s.arrays a).pwArgsBuffers,
    v < s.nextView ∧ (s.views v).range = (s.arrays a).buffer.range
  idx : ∀ segment ∈ s.arena.pwargsSegments,
    segment.idxOfNextUnusedPWArgsArrayBuffer ≤ segment.pwargsArrays.length
  nodup : (s.arena.pwargsSegments.flatMap PWArgsSegment.pwargsArrays).Nodup

structure HandedOutOk (s : SerializerState) : Prop where
  pos : ∀ r ∈ s.handedOut, 0 < r.2
  inSegment : ∀ r ∈ s.handedOut, ∃ b ∈ s.arena.buffers,
    b.address ≤ r.1 ∧ r.1 + r.2 ≤ b.address + b.position
  disjoint : s.handedOut.Pairwise Range.Disjoint

theorem HandedOutOk.of_buffers {s s' : SerializerState} (h : HandedOutOk s)
    (hsub : ∀ b ∈ s.arena.buffers, b ∈ s'.arena.buffers) (hhandedOut : s'.handedOut = s.handedOut) :
    HandedOutOk s' := by
  constructor
  . rw [hhandedOut]
    exact h.pos
  . intro r hr
    rw [hhandedOut] at hr
    obtain ⟨b, hb, hle⟩ := h.inSegment r hr
    exact ⟨b, hsub b hb, hle⟩
  . rw [hhandedOut]
    exact h.disjoint

theorem HandedOutOk.set {s s' : SerializerState} {i : Nat} {b b' : ByteBuffer} (h : HandedOutOk s)
    (hbuffers : s'.arena.buffers = s.arena.buffers.set i b')
    (hhandedOut : s'.handedOut = s.handedOut) (hi : s.arena.buffers[i]? = some b)
    (haddress : b'.address = b.address) (hposition : b.position ≤ b'.position) :
    HandedOutOk s' := by
  constructor
  . rw [hhandedOut]
    exact h.pos
  . intro r hr
    rw [hhandedOut] at hr
    rw [hbuffers]
    obtain ⟨c, hc, hle⟩ := h.inSegment r hr
    obtain ⟨j, hj⟩ := List.getElem?_of_mem hc
    by_cases hij : i = j
    . subst hij
      rw [hi, Option.some.injEq] at hj
      have hlt := (List.getElem?_eq_some_iff.mp hi).1
      refine ⟨b', List.mem_set hlt b', ?_⟩
      rw [← hj] at hle
      omega
    . refine ⟨c, ?_, hle⟩
      apply List.mem_of_getElem? (i := j)
      rw [List.getElem?_set_ne hij]
      exact hj
  . rw [hhandedOut]
    exact h.disjoint

structure WF (s : SerializerState) : Prop where
  curPWArgs : s.arena.curPWArgsSegment < s.arena.pwargsSegments.length
  curStrings : s.arena.curStringsSegment < s.arena.stringsSegments.length
  buffers : BuffersOk s.arena.buffers s.regions
  base : ∀ segment ∈ s.arena.stringsSegments, segment.base = segment.buffer.address
  arrays : ArraysOk s
  handedOut : HandedOutOk s

/-- Of what is in use, at most the addresses of `W` are written to. -/
structure Extends (W : Set Nat) (s s' : SerializerState) : Prop where
  used : ∀ x, s.Used x → s'.Used x
  frame : ∀ x, s.Used x → x ∉ W → s'.memory x = s.memory x
  inUse : ∀ a, s.InUse a → s'.InUse a
  arrays : ∀ a, s.InUse a → (s'.arrays a).start = (s.arrays a).start ∧
    (s'.arrays a).num = (s.arrays a).num ∧
    (s'.arrays a).buffer.range = (s.arrays a).buffer.range
  handedOut : s.handedOut <:+ s'.handedOut
  viewRange : ∀ v < s.nextView, v < s'.nextView ∧ (s'.views v).range = (s.views v).range

def counters (s : SerializerState) : Counters := ⟨s.remainingElements, s.metrics⟩

structure Grows (W : Set Nat) (s s' : SerializerState) : Prop extends Extends W s s' where
  written : s.written <:+ s'.written
  only : ∀ x, s.Used x → x ∉ W → s'.Written x → s.Written x

structure Writes (W : Set Nat) (s s' : SerializerState) : Prop extends Grows W s s' where
  counters : s'.counters = s.counters

structure Quiet (s s' : SerializerState) : Prop extends Writes ∅ s s' where
  views : s'.views = s.views
  nextView : s'.nextView = s.nextView

instance (W : Set Nat) : IsPreorder SerializerState (Extends W) where
  refl s := ⟨fun _ h => h, fun _ _ _ => rfl, fun _ h => h, fun _ _ => ⟨rfl, rfl, rfl⟩,
    List.suffix_refl _, fun _ hv => ⟨hv, rfl⟩⟩
  trans s s' s'' h h' := by
    constructor
    . intro x hx
      exact h'.used x (h.used x hx)
    . intro x hx hW
      rw [h'.frame x (h.used x hx) hW, h.frame x hx hW]
    . intro a ha
      exact h'.inUse a (h.inUse a ha)
    . intro a ha
      have h1 := h.arrays a ha
      have h2 := h'.arrays a (h.inUse a ha)
      exact ⟨h2.1.trans h1.1, h2.2.1.trans h1.2.1, h2.2.2.trans h1.2.2⟩
    . exact h.handedOut.trans h'.handedOut
    . intro v hv
      have h1 := h.viewRange v hv
      have h2 := h'.viewRange v h1.1
      exact ⟨h2.1, h2.2.trans h1.2⟩

instance (W : Set Nat) : IsPreorder SerializerState (Grows W) where
  refl s := ⟨refl_of (Extends W) s, List.suffix_refl _, fun _ _ _ h => h⟩
  trans _ _ _ h h' := ⟨trans_of (Extends W) h.toExtends h'.toExtends, h.written.trans h'.written,
    fun x hx hW hwritten => h.only x hx hW (h'.only x (h.used x hx) hW hwritten)⟩

instance (W : Set Nat) : IsPreorder SerializerState (Writes W) where
  refl s := ⟨refl_of (Grows W) s, rfl⟩
  trans _ _ _ h h' := ⟨trans_of (Grows W) h.toGrows h'.toGrows, h'.counters.trans h.counters⟩

instance : IsPreorder SerializerState Quiet where
  refl s := ⟨refl_of (Writes ∅) s, rfl, rfl⟩
  trans _ _ _ h h' := ⟨trans_of (Writes ∅) h.toWrites h'.toWrites, h'.views.trans h.views,
    h'.nextView.trans h.nextView⟩

theorem Extends.mono {W W' : Set Nat} {s s' : SerializerState} (h : Extends W s s')
    (hW : ∀ x, s.Used x → x ∈ W → x ∈ W') : Extends W' s s' := by
  constructor
  . exact h.used
  . intro x hx hx'
    exact h.frame x hx (fun hmem => hx' (hW x hx hmem))
  . exact h.inUse
  . exact h.arrays
  . exact h.handedOut
  . exact h.viewRange

theorem Grows.mono {W W' : Set Nat} {s s' : SerializerState} (h : Grows W s s')
    (hW : ∀ x, s.Used x → x ∈ W → x ∈ W') : Grows W' s s' :=
  ⟨h.toExtends.mono hW, h.written, fun x hx hW' => h.only x hx fun hmem => hW' (hW x hx hmem)⟩

theorem Writes.mono {W W' : Set Nat} {s s' : SerializerState} (h : Writes W s s')
    (hW : ∀ x, s.Used x → x ∈ W → x ∈ W') : Writes W' s s' :=
  ⟨h.toGrows.mono hW, h.counters⟩

theorem Grows.mono_written {W : Set Nat} {s s' : SerializerState} (h : Grows W s s') {x : Nat}
    (hx : s.Written x) : s'.Written x := by
  obtain ⟨r, hr, hle⟩ := hx
  exact ⟨r, h.written.subset hr, hle⟩

theorem Quiet.frame' {s s' : SerializerState} (h : Quiet s s') {x : Nat} (hx : s.Used x) :
    s'.memory x = s.memory x :=
  h.frame x hx (Set.notMem_empty x)

theorem Writes.of_extends {W : Set Nat} {s s' : SerializerState} (h : Extends W s s')
    (hwritten : s'.written = s.written) (hcounters : s'.counters = s.counters) : Writes W s s' := by
  refine ⟨⟨h, ?_, ?_⟩, hcounters⟩
  . exact hwritten.symm ▸ List.suffix_refl s.written
  . intro x _ _ hx
    unfold Written at hx ⊢
    rw [← hwritten]
    exact hx

theorem Quiet.of_extends {s s' : SerializerState} (h : Extends ∅ s s')
    (hwritten : s'.written = s.written) (hcounters : s'.counters = s.counters)
    (hviews : s'.views = s.views) (hnextView : s'.nextView = s.nextView) : Quiet s s' :=
  ⟨Writes.of_extends h hwritten hcounters, hviews, hnextView⟩

section SetCounters

variable {s : SerializerState}

def setCounters (s : SerializerState) (c : Counters) : SerializerState :=
  { s with remainingElements := c.remaining, metrics := c.metrics }

theorem WF.setCounters (h : WF s) (c : Counters) : WF (s.setCounters c) := by
  constructor
  . exact h.curPWArgs
  . exact h.curStrings
  . exact h.buffers
  . exact h.base
  . exact ⟨h.arrays.known, h.arrays.views, h.arrays.idx, h.arrays.nodup⟩
  . exact ⟨h.handedOut.pos, h.handedOut.inSegment, h.handedOut.disjoint⟩

theorem Grows.setCounters (s : SerializerState) (W : Set Nat) (c : Counters) :
    Grows W s (s.setCounters c) := by
  constructor
  . exact ⟨fun _ h => h, fun _ _ _ => rfl, fun _ h => h, fun _ _ => ⟨rfl, rfl, rfl⟩,
      List.suffix_refl _, fun _ hv => ⟨hv, rfl⟩⟩
  . exact List.suffix_refl _
  . exact fun _ _ _ h => h

end SetCounters

section SetArena

variable {s : SerializerState} {arena : Arena}

theorem WF.setArena (h : WF s) (hpwargs : arena.pwargsSegments = s.arena.pwargsSegments)
    (hstrings : arena.stringsSegments = s.arena.stringsSegments)
    (hcurPWArgs : arena.curPWArgsSegment < arena.pwargsSegments.length)
    (hcurStrings : arena.curStringsSegment < arena.stringsSegments.length) :
    WF { s with arena := arena } := by
  have hbuffers : arena.buffers = s.arena.buffers := by
    rw [Arena.buffers, Arena.buffers, hpwargs, hstrings]
  constructor
  . exact hcurPWArgs
  . exact hcurStrings
  . show BuffersOk arena.buffers s.regions
    rw [hbuffers]
    exact h.buffers
  . show ∀ segment ∈ arena.stringsSegments, _
    rw [hstrings]
    exact h.base
  . constructor
    . show ∀ segment ∈ arena.pwargsSegments, _
      rw [hpwargs]
      exact h.arrays.known
    . exact h.arrays.views
    . show ∀ segment ∈ arena.pwargsSegments, _
      rw [hpwargs]
      exact h.arrays.idx
    . show (arena.pwargsSegments.flatMap _).Nodup
      rw [hpwargs]
      exact h.arrays.nodup
  . apply h.handedOut.of_buffers
    . intro b hb
      show b ∈ arena.buffers
      rw [hbuffers]
      exact hb
    . rfl

theorem Quiet.setArena (hpwargs : arena.pwargsSegments = s.arena.pwargsSegments)
    (hstrings : arena.stringsSegments = s.arena.stringsSegments) :
    Quiet s { s with arena := arena } := by
  have hbuffers : arena.buffers = s.arena.buffers := by
    rw [Arena.buffers, Arena.buffers, hpwargs, hstrings]
  apply Quiet.of_extends
  . constructor
    . intro x hx
      show UsedIn arena.buffers x
      rw [hbuffers]
      exact hx
    . exact fun _ _ _ => rfl
    . rintro a ⟨hlt, hfree⟩
      refine ⟨hlt, ?_⟩
      show ∀ segment ∈ arena.pwargsSegments, _
      rw [hpwargs]
      exact hfree
    . exact fun _ _ => ⟨rfl, rfl, rfl⟩
    . exact List.suffix_refl _
    . exact fun _ hv => ⟨hv, rfl⟩
  . rfl
  . rfl
  . rfl
  . rfl

end SetArena

section HandOut

theorem WF.handOut {s : SerializerState} (h : WF s) {address length : Nat}
    (hin : ∃ b ∈ s.arena.buffers, b.address ≤ address ∧ address + length ≤ b.address + b.position)
    (hnew : ∀ r ∈ s.handedOut, Range.Disjoint (address, length) r) (hpos : 0 < length) :
    WF { s with handedOut := (address, length) :: s.handedOut } := by
  constructor
  . exact h.curPWArgs
  . exact h.curStrings
  . exact h.buffers
  . exact h.base
  . exact ⟨h.arrays.known, h.arrays.views, h.arrays.idx, h.arrays.nodup⟩
  . constructor
    . exact List.forall_mem_cons.mpr ⟨hpos, h.handedOut.pos⟩
    . exact List.forall_mem_cons.mpr ⟨hin, h.handedOut.inSegment⟩
    . exact List.pairwise_cons.mpr ⟨hnew, h.handedOut.disjoint⟩

theorem Quiet.handOut (s : SerializerState) (r : Range) :
    Quiet s { s with handedOut := r :: s.handedOut } := by
  apply Quiet.of_extends
  . exact ⟨fun _ h => h, fun _ _ _ => rfl, fun _ h => h, fun _ _ => ⟨rfl, rfl, rfl⟩,
      List.suffix_cons r _, fun _ hv => ⟨hv, rfl⟩⟩
  . rfl
  . rfl
  . rfl
  . rfl

theorem exec_handOut (s : SerializerState) (address length : Nat) :
    exec (handOut address length) s =
      (.ok (), { s with handedOut := (address, length) :: s.handedOut }) := by
  rfl

theorem HandedOutOk.disjoint_of_not_used {s : SerializerState} (h : HandedOutOk s)
    {address length : Nat} (hnew : ∀ x, address ≤ x → x < address + length → ¬s.Used x)
    (hlength : 0 < length) {r : Range} (hr : r ∈ s.handedOut) :
    Range.Disjoint (address, length) r := by
  obtain ⟨b, hb, hle⟩ := h.inSegment r hr
  have hpos := h.pos r hr
  unfold Range.Disjoint
  by_contra hoverlap
  simp only [not_or, Nat.not_le] at hoverlap
  apply hnew (max address r.1)
  . omega
  . omega
  . refine ⟨b, hb, ?_⟩
    unfold ByteBuffer.Uses
    omega

end HandOut

end SerializerState

end Ddwaf
