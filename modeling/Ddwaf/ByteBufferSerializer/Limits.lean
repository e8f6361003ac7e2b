import Ddwaf.ByteBufferSerializer.Lease
import Ddwaf.ByteBufferSerializer.Slots

/-!
This module contains what the limits do to a tree and to the metrics of a call that returns.
-/

namespace Ddwaf

open Memory SerializerState

variable {ρ : Type}

theorem countP_zipIdx (p : Slot → Bool) (S : List Slot) (pos : Nat) :
    (S.zipIdx pos).countP (fun s => p s.1) = S.countP p := by
  induction S generalizing pos with
  | nil => rfl
  | cons slot S ih => rw [List.zipIdx_cons, List.countP_cons, List.countP_cons, ih]

theorem countP_isTooLarge (limits : WafLimits) (S : List Slot) (pos : Nat) :
    (S.zipIdx pos).countP (fun s => isTooLarge limits s.2) =
      S.length - (limits.maxElements - pos) := by
  induction S generalizing pos with
  | nil => simp
  | cons slot S ih =>
    rw [List.zipIdx_cons, List.countP_cons, ih, List.length_cons]
    by_cases h : limits.maxElements ≤ pos
    . simp [isTooLarge, h]
      omega
    . simp [isTooLarge, h]
      omega

theorem countP_not_isTooLarge (limits : WafLimits) (p : Slot → Bool) (S : List Slot) (pos : Nat) :
    (S.zipIdx pos).countP (fun s => !isTooLarge limits s.2 && p s.1) =
      (S.take (limits.maxElements - pos)).countP p := by
  induction S generalizing pos with
  | nil => simp
  | cons slot S ih =>
    rw [List.zipIdx_cons, List.countP_cons, ih]
    by_cases h : limits.maxElements ≤ pos
    . rw [show limits.maxElements - pos = 0 by omega,
        show limits.maxElements - (pos + 1) = 0 by omega]
      simp [isTooLarge, h]
    . rw [show limits.maxElements - pos = limits.maxElements - (pos + 1) + 1 by omega,
        List.take_succ_cons, List.countP_cons]
      simp [isTooLarge, h]

theorem tally_zipIdx (limits : WafLimits) (heap : ρ → JavaValue ρ) (root : ρ) (S : List Slot)
    (m : WafMetrics) :
    tally limits heap root (S.zipIdx 0) m =
      ⟨m.truncatedStringTooLongCount + S.countP (hasCutName limits heap root) +
          (S.take limits.maxElements).countP (fun slot =>
            !isTooDeep limits slot && hasCutString limits heap root slot),
        m.truncatedListMapTooLargeCount + (S.length - limits.maxElements),
        m.truncatedObjectTooDeepCount +
          (S.take limits.maxElements).countP (isTooDeep limits)⟩ := by
  rw [tally, countP_zipIdx, countP_isTooLarge, countP_not_isTooLarge]
  simp only [Bool.and_assoc]
  rw [countP_not_isTooLarge limits fun slot =>
    !isTooDeep limits slot && hasCutString limits heap root slot]
  rfl

namespace Call

variable (call : Call ρ)

theorem at_root : At call.limits call.heap call.map [] none none call.map
    ⟨call.limits.maxElements, call.metrics⟩ 0 := by
  constructor
  . rfl
  . rfl
  . exact Nat.zero_le _
  . simp
  . show -2 ^ 31 < (call.limits.maxElements : Int)
    omega

variable {call}

theorem counted {o : PWArgs} {c : Counters} (h : call.reference = .ok (o, c))
    (hroom : Room (maxSlots (call.limits.maxDepth + 1) call.limits.maxElements)
      ⟨call.limits.maxElements, call.metrics⟩ c) :
    Counted call.limits call.heap call.map 0 ⟨call.limits.maxElements, call.metrics⟩
        (o.slots [] none) c ∧
      (o.slots [] none).length ≤ maxSlots (call.limits.maxDepth + 1) call.limits.maxElements :=
  refTree_counted _ (by simp) call.at_root hroom h

end Call

structure SlotLimited (call : Call ρ) (k : Nat) (slot : Slot) (part : Part ρ) : Prop where
  value : partAt call.heap call.map slot = some part
  key : slot.key = (refName call.limits part.1).map utf8
  depth : slot.path.length ≤ call.limits.maxDepth + 1
  tooDeep : slot.path.length = call.limits.maxDepth + 1 → slot.object = .map []
  tooLarge : call.limits.maxElements ≤ k → slot.object = .map []
  serialized : k < call.limits.maxElements → slot.path.length ≤ call.limits.maxDepth →
    SerializedAs (·.take call.limits.maxStringSize) (call.heap part.2) slot.object ∧
      TakesElements (call.limits.maxElements - 1 - k) (call.heap part.2) slot.object.length

theorem SlotOk.limited {call : Call ρ} {k : Nat} {slot : Slot}
    (h : SlotOk call.limits call.heap call.map k slot) : ∃ part, SlotLimited call k slot part := by
  obtain ⟨part, hpart, hkey, hdepth, hobject⟩ := h
  refine ⟨part, hpart, hkey, hdepth, ?_, ?_, ?_⟩
  . intro hdeep
    rw [if_pos] at hobject
    . exact hobject
    . right
      simp [isTooDeep, hdeep]
  . intro hlarge
    rw [if_pos] at hobject
    . exact hobject
    . left
      simp [isTooLarge, hlarge]
  . intro hlt hle
    rw [if_neg] at hobject
    . exact hobject
    . simp [isTooLarge, isTooDeep]
      omega

/--
Of the slots of a tree, in depth-first pre-order, the first `maxElements` are for their values or
too deep, and all others are empty maps. The metrics tell how many there are of each kind.
-/
theorem serializeMore_limits {ls : List (ArenaEvent ρ)} {s t : SerializerState} {call : Call ρ}
    {root : ByteBuffer} (hrun : (arenaSystem ρ).Reaches ls s)
    (hstep : arenaStep s (.serializeMore call (.ok root)) t)
    (hpos : 1 ≤ call.limits.maxElements)
    (hwrap : call.limits.maxElements * (call.limits.maxDepth + 2) < 2 ^ 31) :
    ∃ o, decode t.memory call.levels root.address = some (none, o) ∧
      (∀ k slot, (o.slots [] none)[k]? = some slot → ∃ part, SlotLimited call k slot part) ∧
      (o.slots [] none).length ≤ call.limits.maxElements * (call.limits.maxDepth + 2) ∧
      t.remainingElements = call.limits.maxElements - ((o.slots [] none).length : Int) ∧
      t.metrics = call.metrics.map fun m =>
        ⟨m.truncatedStringTooLongCount +
            (o.slots [] none).countP (hasCutName call.limits call.heap call.map) +
            ((o.slots [] none).take call.limits.maxElements).countP (fun slot =>
              !isTooDeep call.limits slot && hasCutString call.limits call.heap call.map slot),
          m.truncatedListMapTooLargeCount +
            ((o.slots [] none).length - call.limits.maxElements),
          m.truncatedObjectTooDeepCount +
            ((o.slots [] none).take call.limits.maxElements).countP (isTooDeep call.limits)⟩ := by
  obtain ⟨F, o, href, hserialized⟩ :=
    (CallDone.of_step (WF.of_reaches hrun) hstep).root root rfl
  have hmax : maxSlots (call.limits.maxDepth + 1) call.limits.maxElements =
      call.limits.maxElements * (call.limits.maxDepth + 2) := by
    unfold maxSlots
    rw [Int.toNat_natCast, Nat.max_eq_right]
    exact Nat.le_trans hpos (Nat.le_mul_of_pos_right _ (by omega))
  have hroom : Room (maxSlots (call.limits.maxDepth + 1) call.limits.maxElements)
      ⟨call.limits.maxElements, call.metrics⟩ t.counters := by
    left
    rw [hmax]
    show -2 ^ 31 ≤ (call.limits.maxElements : Int) - _
    omega
  obtain ⟨hcounted, hlen⟩ := Call.counted href hroom
  refine ⟨o, hserialized.decode t.memory fun _ _ => rfl, ?_, ?_, hcounted.remaining, ?_⟩
  . intro k slot hslot
    apply SlotOk.limited
    apply hcounted.ok (slot, k)
    rw [List.mem_zipIdx_iff_getElem?]
    exact hslot
  . rw [← hmax]
    exact hlen
  . rw [show t.metrics = t.counters.metrics from rfl, hcounted.metrics]
    congr 1
    funext m
    rw [tally_zipIdx]

def limitHeap : Nat → JavaValue Nat
  | 0 => .map 4 (ByteBufferSerializer.arrayIterator [(.toString (some [97, 98, 99]), 1), (.null, 3),
      (.toString (some [100]), 3), (.toString (some [101]), 3)])
  | 1 => .collection 1 (ByteBufferSerializer.arrayIterator [2])
  | 2 => .collection 1 (ByteBufferSerializer.arrayIterator [4])
  | 4 => .collection 1 (ByteBufferSerializer.arrayIterator [3])
  | _ => .charSequence ⟨[120, 121, 122], none⟩

def limitCall : Call Nat where
  alloc := bumpAllocator
  limits := ⟨2, 5, 2, by decide, by decide, by decide⟩
  heap := limitHeap
  map := 0
  metrics := some ⟨0, 0, 0⟩

def limitMap : PWArgs :=
  .map [(some [97, 98], .array [.array [.map []]]), (some [], .string [120, 121]), (some [100], .map []),
    (some [101], .map [])]

theorem limitCall_reference : limitCall.reference = .ok (limitMap, ⟨-2, some ⟨2, 2, 1⟩⟩) := by
  rfl

theorem limitCall_returns :
    ∃ t root, arenaStep freshState (.serializeMore limitCall (.ok root)) t := by
  obtain ⟨root, hreturns⟩ := exec_of_isOk (x := limitCall.program) (s := freshState)
    (by decide +kernel)
  exact ⟨_, root, hreturns⟩

theorem serializeMore_limits_sample :
    ∃ (t : SerializerState) (root : ByteBuffer),
      arenaStep freshState (.serializeMore limitCall (.ok root)) t ∧
      decode t.memory limitCall.levels root.address = some (none, limitMap) ∧
      (∀ k slot, (limitMap.slots [] none)[k]? = some slot → ∃ part, SlotLimited limitCall k slot part) ∧
      t.remainingElements = -2 ∧ t.metrics = some ⟨2, 2, 1⟩ := by
  obtain ⟨t, root, hstep⟩ := limitCall_returns
  obtain ⟨o, hdecode, hslots, -, hremaining, hmetrics⟩ :=
    serializeMore_limits (.init freshState_fresh) hstep (by decide) (by decide)
  obtain ⟨F, o', href, hserialized⟩ := (CallDone.of_step freshState_fresh.wf hstep).root root rfl
  have hdecode' := hserialized.decode t.memory fun _ _ => rfl
  rw [limitCall_reference, Except.ok.injEq, Prod.mk.injEq] at href
  rw [hdecode', ← href.1, Option.some.injEq, Prod.mk.injEq] at hdecode
  rw [← hdecode.2] at hslots hremaining hmetrics
  exact ⟨t, root, hstep, href.1 ▸ hdecode', hslots, hremaining, hmetrics⟩

end Ddwaf
