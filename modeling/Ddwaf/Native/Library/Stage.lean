import Ddwaf.Native.Library.Load

/-!
This module contains what holds of a library that is loaded, from one call of `_deinitialize` to the
next.
-/

open Program

namespace Ddwaf

namespace Library

open State

structure Loaded (cleared gone : List Slot) (logCb : Bool) (s : State) : Prop where
  owns : Owns gone [] s
  cleared : ∀ i ∈ cleared, s.slot i = none
  rte : RteLive s
  typed : Typed s
  log : logCb = true → LogReady s
  callback : s.logCb = logCb

namespace Loaded

variable {cleared gone : List Slot} {logCb : Bool} {s s' : State}

theorem quiet (h : Loaded cleared gone logCb s) (hquiet : Quiet s s') :
    Loaded cleared gone logCb s' := by
  have howns := h.owns.quiet hquiet
  have hrte := h.rte.quiet hquiet
  have hlog (hcb : logCb = true) := (h.log hcb).quiet hquiet
  unfold Quiet at hquiet
  rw [hquiet] at howns hrte hlog ⊢
  exact ⟨howns, h.cleared, hrte, h.typed, hlog, h.callback⟩

theorem logReady (h : Loaded cleared gone logCb s) (hcb : s.logCb = true) : LogReady s :=
  h.log (h.callback.symm.trans hcb)

theorem dispose {x : Refs Unit} {L : List Slot} (hx : Disposes x L) (hrte : .ref .jclsRte ∉ L)
    (hL : ∀ v ∈ logRefs, .ref v ∉ L) (h : Loaded cleared [] logCb s) :
    ∃ s', exec x s = (.ok (), s') ∧ Loaded (cleared ++ L) [] logCb s' ∧ s'.initOk = s.initOk := by
  have ⟨s', hexec, howns, hcleared⟩ := hx [] [] s h.owns h.typed fun _ _ => List.not_mem_nil
  refine ⟨s', hexec, ?_, by rw [hcleared.eq]⟩
  constructor
  . exact howns
  . intro i hi
    by_cases hmem : i ∈ L
    . exact hcleared.cleared i hmem
    . rw [hcleared.kept i hmem]
      rcases List.mem_append.mp hi with hi | hi
      . exact h.cleared i hi
      . exact absurd hi hmem
  . exact hcleared.rteLive h.rte hrte howns List.not_mem_nil
  . exact h.typed.cleared hcleared
  . intro hcb
    apply Shape.logReady_of_live (h.log hcb) howns
    . exact fun v hv => hcleared.kept (.ref v) (hL v hv)
    . exact (hcleared.methId _).symm ▸ (h.log hcb).methId
  . rw [hcleared.eq]
    exact h.callback

end Loaded

def idleSlots : List Slot := .meth .numberDoubleValue :: localSlots

def stage (count : Nat) : List Slot × List Slot × Bool :=
  match count with
  | 0 | 1 => (idleSlots, [], true)
  | 2 => (idleSlots ++ cacheSlots, [], true)
  | 3 => (idleSlots ++ cacheSlots ++ outputSlots, [], true)
  | 4 => (idleSlots ++ cacheSlots ++ outputSlots, [], false)
  | _ => (idleSlots ++ cacheSlots ++ outputSlots ++ logMethSlots, logRefSlots, false)

def Stage (count : Nat) (s : State) : Prop :=
  Loaded (stage count).1 (stage count).2.1 (stage count).2.2 s

namespace Stage

variable {s : State}

theorem logShutdown (h : Stage 4 s) :
    ∃ s', exec javaLogShutdown s = (.ok (), s') ∧ Stage 5 s' ∧ s'.initOk = s.initOk := by
  have ⟨s', hexec, howns, hcleared⟩ := exec_javaLogShutdown h.owns h.typed fun _ _ => List.not_mem_nil
  have howns : Owns logRefSlots [] s' := howns
  refine ⟨s', hexec, ?_, by rw [hcleared.eq]⟩
  constructor
  . exact howns
  . intro i hi
    by_cases hmem : i ∈ logMethSlots
    . exact hcleared.cleared i hmem
    . rw [hcleared.kept i hmem]
      rcases List.mem_append.mp hi with hi | hi
      . exact h.cleared i hi
      . exact absurd hi hmem
  . exact hcleared.rteLive h.rte (by decide) howns (by decide)
  . exact h.typed.cleared hcleared
  . intro hcb
    contradiction
  . rw [hcleared.eq]
    exact h.callback

theorem clearCallback (h : Stage 3 s) : Stage 4 { s with logCb := false } :=
  ⟨h.owns.congr rfl rfl rfl, h.cleared, h.rte, h.typed, fun hcb => Bool.noConfusion hcb, rfl⟩

theorem next {env : Env} {count : Nat} {x : Refs Unit} {E : Exit → State → Prop} (h : Stage count s)
    (hx : (deinitializeJni.calls env)[count]? = some x) :
    Ensures x s (fun _ s' => Stage (count + 1) s' ∧ s'.initOk = s.initOk) E := by
  match count with
  | 0 =>
    cases hx
    apply (javaLog_ensures env _ _ (h.log rfl)).mono
    . intro _ s' h'
      refine ⟨h.quiet h'.1, ?_⟩
      rw [h'.1]
    . exact fun _ _ hE => hE
  | 1 =>
    cases hx
    have ⟨s', hexec, h'⟩ := Loaded.dispose disposeOfCacheReferences_disposes (by decide) (by decide) h
    exact Ensures.of_ok hexec h'
  | 2 =>
    cases hx
    have ⟨s', hexec, h'⟩ := Loaded.dispose outputShutdown_disposes (by decide) (by decide) h
    exact Ensures.of_ok hexec h'
  | 3 =>
    cases hx
    exact Ensures.of_ok (exec_modify _ _) ⟨h.clearCallback, rfl⟩
  | 4 =>
    cases hx
    have ⟨s', hexec, h'⟩ := h.logShutdown
    exact Ensures.of_ok hexec h'
  | _ + 5 => contradiction

theorem released (h : Stage 5 s) : ∃ r, s.ref .jclsRte = some r ∧ s.live = [r] := by
  have ⟨r, hr, _⟩ := h.rte
  have hall (i : Slot) (hi : i ≠ .ref .jclsRte) : i ∈ (stage 5).1 ∨ i ∈ (stage 5).2.1 := by
    cases i with
    | ref v => cases v <;> first | contradiction | decide
    | meth m => cases m <;> decide
  have hslot : s.slot (.ref .jclsRte) = some r := hr
  refine ⟨r, hr, h.owns.holdings.eq_singleton (by decide) hslot ?_⟩
  intro i hgone hi
  rcases hall i hi with hmem | hmem
  . exact h.cleared i hmem
  . exact absurd hmem hgone

end Stage

theorem Shape.stage {s : State} (h : Shape localSlots true s) : Stage 0 { s with initOk := true } := by
  constructor
  . exact h.owns.congr rfl rfl rfl
  . intro i hi
    rcases List.mem_cons.mp hi with rfl | hi
    . exact h.doubleValue
    . exact h.unused i hi
  . have ⟨r, hr, hlive⟩ := h.rteLive (by decide)
    exact ⟨r, hr, hlive⟩
  . exact h.typed
  . exact fun hcb => ⟨(h.log hcb).live, (h.log hcb).methId⟩
  . exact h.callback

end Library

end Ddwaf
