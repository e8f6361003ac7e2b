import Ddwaf.WafHandle.Impl

/-!
This module contains the proof of when no native handle is passed to libddwaf after it is destroyed.
-/

namespace Ddwaf

namespace WafState

variable {ι κ τ : Type} {handles : WafHandles ι} {initOk : Bool}

abbrev Label (ι κ τ : Type) := WafOp ι κ τ × List LibddwafCall × Except Throwable Unit

structure Inv (handles : WafHandles ι) (s : WafState ι κ τ) : Prop where
  destroyed : ∀ n, s.destroyed n = true ↔ ∃ i, handles.nativeHandle i = n ∧ s.online i = false
  starting : ∀ t i natHandle, s.starting t = some (i, natHandle) →
    natHandle = handles.nativeHandle i

theorem Inv.destroyed_nativeHandle {s : WafState ι κ τ} (h : Inv handles s) (i : ι) :
    s.destroyed (handles.nativeHandle i) = !s.online i := by
  rw [Bool.eq_iff_iff, h.destroyed, Bool.not_eq_true']
  constructor
  . rintro ⟨j, hj, honline⟩
    rw [← handles.injective hj]
    exact honline
  . intro honline
    exact ⟨i, rfl, honline⟩

theorem update_online_of_closed [DecidableEq ι] {s : WafState ι κ τ} {i : ι} (h : s.online i = false) :
    Function.update s.online i false = s.online := by
  rw [← h, Function.update_eq_self]

theorem closeHandle_of_closed [DecidableEq ι] {s : WafState ι κ τ} {i : ι} (h : s.online i = false) :
    s.closeHandle handles i = ⟨s, [], .ok ()⟩ := by
  simp [closeHandle, h, update_online_of_closed h]

theorem closeHandle_of_online [DecidableEq ι] {s : WafState ι κ τ} {i : ι} (h : s.online i = true) :
    s.closeHandle handles i =
      ⟨{ s with
          online := Function.update s.online i false
          destroyed := Function.update s.destroyed (handles.nativeHandle i) true },
        [.destroy (handles.nativeHandle i)], .ok ()⟩ := by
  simp [closeHandle, h, handles.ne_zero i]

theorem Inv.closeHandle [DecidableEq ι] {s : WafState ι κ τ} (h : Inv handles s) (i : ι) :
    Inv handles (s.closeHandle handles i).state := by
  cases honline : s.online i with
  | false =>
    rw [closeHandle_of_closed honline]
    exact h
  | true =>
    rw [closeHandle_of_online honline]
    constructor
    . intro n
      by_cases hn : n = handles.nativeHandle i
      . rw [hn]
        simp only [Function.update_self, true_iff]
        exact ⟨i, rfl, Function.update_self ..⟩
      . simp only [Function.update_of_ne hn, h.destroyed]
        apply exists_congr
        intro j
        apply and_congr_right
        intro hj
        have hji : j ≠ i := by
          intro heq
          rw [heq] at hj
          exact hn hj.symm
        rw [Function.update_of_ne hji]
    . exact h.starting

@[simp]
theorem getKnown_state (s : WafState ι κ τ) (call : Nat → LibddwafCall) (i : ι)
    (answer : Except Throwable Unit) : (s.getKnown handles initOk call i answer).state = s := by
  unfold getKnown
  split <;> rfl

@[simp]
theorem runContext_state (s : WafState ι κ τ) (c : WafContext ι)
    (before answer : Except Throwable Unit) : (s.runContext handles c before answer).state = s := by
  unfold runContext
  split
  . rfl
  . split <;> rfl

theorem Inv.newContext [DecidableEq τ] {s : WafState ι κ τ} (h : Inv handles s) (t : τ)
    (wafHandle : Option ι) :
    Inv handles (s.newContext handles t wafHandle).state := by
  cases wafHandle with
  | none => exact h
  | some i =>
    simp only [WafState.newContext, Option.map_some, getPwafHandleChecked, if_neg (handles.ne_zero i)]
    constructor
    . exact h.destroyed
    . intro t' j natHandle ht
      by_cases heq : t' = t
      . rw [heq] at ht
        simp only [Function.update_self, Option.some.injEq, Prod.mk.injEq] at ht
        rw [← ht.1, ← ht.2]
      . simp only [Function.update_of_ne heq] at ht
        exact h.starting t' j natHandle ht

theorem Inv.contextInit [DecidableEq κ] [DecidableEq τ] {s : WafState ι κ τ} (h : Inv handles s)
    (t : τ) (k : κ) (i : ι) (natHandle context : Nat) :
    Inv handles (s.contextInit t k i natHandle context).state := by
  have hstarting : ∀ t' j n, Function.update s.starting t none t' = some (j, n) →
      n = handles.nativeHandle j := by
    intro t' j n ht
    by_cases heq : t' = t
    . rw [heq, Function.update_self] at ht
      contradiction
    . rw [Function.update_of_ne heq] at ht
      exact h.starting t' j n ht
  unfold WafState.contextInit
  split
  . exact ⟨h.destroyed, hstarting⟩
  . exact ⟨h.destroyed, hstarting⟩

theorem Inv.closeContext [DecidableEq κ] {s : WafState ι κ τ} (h : Inv handles s) (k : κ)
    (c : WafContext ι) :
    Inv handles (s.closeContext k c).state := by
  unfold WafState.closeContext
  split
  . exact h
  . split
    . exact ⟨h.destroyed, h.starting⟩
    . exact ⟨h.destroyed, h.starting⟩

section Step

variable [DecidableEq ι] [DecidableEq κ] [DecidableEq τ]

theorem Inv.exec {s : WafState ι κ τ} {op : WafOp ι κ τ} {e : WafEffect ι κ τ}
    (h : Inv handles s) (hexec : s.exec handles initOk op = some e) : Inv handles e.state := by
  cases op with
  | closeHandle i =>
    cases hexec
    exact h.closeHandle i
  | getKnownAddresses i answer =>
    cases hexec
    rw [WafState.getKnownAddresses, getKnown_state]
    exact h
  | getKnownActions i answer =>
    cases hexec
    rw [WafState.getKnownActions, getKnown_state]
    exact h
  | newContext t wafHandle =>
    simp only [WafState.exec] at hexec
    split at hexec
    . cases hexec
      exact h.newContext t wafHandle
    . contradiction
  | contextInit t k context =>
    simp only [WafState.exec] at hexec
    split at hexec
    . cases hexec
      exact h.contextInit t k _ _ context
    . contradiction
  | run k before answer =>
    obtain ⟨c, -, rfl⟩ := Option.map_eq_some_iff.mp hexec
    rw [runContext_state]
    exact h
  | runEphemeral k before answer =>
    obtain ⟨c, -, rfl⟩ := Option.map_eq_some_iff.mp hexec
    rw [runContext_state]
    exact h
  | closeContext k =>
    obtain ⟨c, -, rfl⟩ := Option.map_eq_some_iff.mp hexec
    exact h.closeContext k c

theorem inv_invariant : (system handles initOk).Invariant (Inv (κ := κ) (τ := τ) handles) := by
  constructor
  . rintro s ⟨hdestroyed, hstarting, -⟩
    constructor
    . exact hdestroyed
    . intro t i n ht
      rw [hstarting] at ht
      contradiction
  . intro s l t h hstep
    exact h.exec hstep

end Step

def target (s : WafState ι κ τ) : WafOp ι κ τ → Option ι
  | .closeHandle i => some i
  | .getKnownAddresses i _ => some i
  | .getKnownActions i _ => some i
  | .contextInit t _ _ => (s.starting t).map Prod.fst
  | _ => none

/--
No handle that is destroyed is passed to libddwaf, and what is done on a closed handle throws or
does nothing.
-/
structure Safe (s : WafState ι κ τ) (l : Label ι κ τ) (s' : WafState ι κ τ) : Prop where
  calls : ∀ c ∈ l.2.1, ∀ n, c.handle = some n → s.destroyed n = false
  closed : ∀ i, s.target l.1 = some i → s.online i = false →
    (∃ e, l.2.2 = .error e) ∨ (s' = s ∧ l.2.1 = [])

def ContextOfOpen (s : WafState ι κ τ) (l : Label ι κ τ) (_ : WafState ι κ τ) : Prop :=
  ∀ t k context, l.1 = .contextInit t k context →
    ∀ i natHandle, s.starting t = some (i, natHandle) → s.online i = true

theorem Safe.closeHandle [DecidableEq ι] {s : WafState ι κ τ} (h : Inv handles s) (i : ι) :
    Safe s (.closeHandle i, (s.closeHandle handles i).calls, (s.closeHandle handles i).result)
      (s.closeHandle handles i).state := by
  cases honline : s.online i with
  | false =>
    rw [closeHandle_of_closed honline]
    constructor
    . intro c hc
      contradiction
    . intro j hj hclosed
      right
      exact ⟨rfl, rfl⟩
  | true =>
    rw [closeHandle_of_online honline]
    constructor
    . intro c hc n hn
      rw [List.mem_singleton] at hc
      rw [hc, LibddwafCall.handle, Option.some.injEq] at hn
      rw [← hn, h.destroyed_nativeHandle, honline]
      rfl
    . intro j hj hclosed
      rw [WafState.target, Option.some.injEq] at hj
      rw [← hj, honline] at hclosed
      contradiction

theorem getKnown_of_closed {s : WafState ι κ τ} (call : Nat → LibddwafCall) {i : ι}
    (answer : Except Throwable Unit) (h : s.online i = false) :
    s.getKnown handles initOk call i answer =
      ⟨s, [], .error ⟨.illegalStateException, "This WafHandle is no longer online"⟩⟩ := by
  rw [getKnown, if_pos h]

theorem mem_calls_getKnown {s : WafState ι κ τ} {call : Nat → LibddwafCall} {i : ι}
    {answer : Except Throwable Unit} {c : LibddwafCall}
    (hc : c ∈ (s.getKnown handles initOk call i answer).calls) :
    s.online i = true ∧ c = call (handles.nativeHandle i) := by
  cases honline : s.online i with
  | false =>
    rw [getKnown_of_closed call answer honline] at hc
    contradiction
  | true =>
    refine ⟨rfl, ?_⟩
    cases initOk with
    | false => simp [getKnown, honline, getKnownNative, checkInit] at hc
    | true =>
      simpa [getKnown, honline, getKnownNative, checkInit, getPwafHandleChecked,
        handles.ne_zero i] using hc

theorem Safe.getKnown {s : WafState ι κ τ} (h : Inv handles s) {op : WafOp ι κ τ}
    {call : Nat → LibddwafCall} {i : ι} {answer : Except Throwable Unit}
    (hop : s.target op = some i) (hcall : ∀ n, (call n).handle = some n) :
    Safe s (op, (s.getKnown handles initOk call i answer).calls,
      (s.getKnown handles initOk call i answer).result) s := by
  constructor
  . intro c hc n hn
    have hmem := mem_calls_getKnown hc
    rw [hmem.2, hcall, Option.some.injEq] at hn
    rw [← hn, h.destroyed_nativeHandle, hmem.1]
    rfl
  . intro j hj hclosed
    rw [hop, Option.some.injEq] at hj
    left
    rw [← hj] at hclosed
    rw [getKnown_of_closed call answer hclosed]
    exact ⟨_, rfl⟩

theorem Safe.of_target_none {s s' : WafState ι κ τ} {l : Label ι κ τ} (hop : s.target l.1 = none)
    (hcalls : ∀ c ∈ l.2.1, c.handle = none) : Safe s l s' := by
  constructor
  . intro c hc n hn
    rw [hcalls c hc] at hn
    contradiction
  . intro i hi
    rw [hop] at hi
    contradiction

theorem calls_runContext {s : WafState ι κ τ} {c : WafContext ι} {before answer : Except Throwable Unit} :
    ∀ call ∈ (s.runContext handles c before answer).calls, call.handle = none := by
  unfold runContext
  split
  . simp
  . split <;> simp [LibddwafCall.handle]

theorem calls_closeContext [DecidableEq κ] {s : WafState ι κ τ} {k : κ} {c : WafContext ι} :
    ∀ call ∈ (s.closeContext k c).calls, call.handle = none := by
  unfold WafState.closeContext
  split
  . simp
  . split <;> simp [LibddwafCall.handle]

theorem calls_newContext [DecidableEq τ] {s : WafState ι κ τ} {t : τ} {wafHandle : Option ι} :
    (s.newContext handles t wafHandle).calls = [] := by
  unfold WafState.newContext
  split <;> rfl

theorem calls_contextInit [DecidableEq κ] [DecidableEq τ] {s : WafState ι κ τ} {t : τ} {k : κ}
    {i : ι} {natHandle context : Nat} :
    (s.contextInit t k i natHandle context).calls = [.contextInit natHandle] := by
  unfold WafState.contextInit
  split <;> rfl

theorem safe_contextInit_iff [DecidableEq κ] [DecidableEq τ] {s : WafState ι κ τ}
    (h : Inv handles s) {t : τ} {k : κ} {i : ι} {natHandle context : Nat}
    (ht : s.starting t = some (i, natHandle)) :
    Safe s (.contextInit t k context, (s.contextInit t k i natHandle context).calls,
        (s.contextInit t k i natHandle context).result)
        (s.contextInit t k i natHandle context).state
      ↔
    s.online i = true := by
  have hdestroyed : s.destroyed natHandle = !s.online i := by
    rw [h.starting t i natHandle ht, h.destroyed_nativeHandle]
  constructor
  . intro hsafe
    have hcall := hsafe.calls (.contextInit natHandle) (by simp [calls_contextInit]) natHandle rfl
    rw [hdestroyed, Bool.not_eq_false'] at hcall
    exact hcall
  . intro honline
    constructor
    . intro c hc n hn
      rw [calls_contextInit, List.mem_singleton] at hc
      rw [hc, LibddwafCall.handle, Option.some.injEq] at hn
      rw [← hn, hdestroyed, honline]
      rfl
    . intro j hj hclosed
      rw [WafState.target, ht, Option.map_some, Option.some.injEq] at hj
      rw [← hj, honline] at hclosed
      contradiction

theorem contextOfOpen_of_ne {s s' : WafState ι κ τ} {l : Label ι κ τ}
    (h : ∀ t k context, l.1 ≠ .contextInit t k context) : ContextOfOpen s l s' := by
  intro t k context hl
  exact absurd hl (h t k context)

section Run

variable [DecidableEq ι] [DecidableEq κ] [DecidableEq τ]

theorem safe_iff_contextOfOpen {s : WafState ι κ τ} {op : WafOp ι κ τ} {e : WafEffect ι κ τ}
    (h : Inv handles s) (hexec : s.exec handles initOk op = some e) :
    ContextOfOpen s (op, e.calls, e.result) e.state ↔ Safe s (op, e.calls, e.result) e.state := by
  have hother (hne : ∀ t k context, op ≠ .contextInit t k context)
      (hsafe : Safe s (op, e.calls, e.result) e.state) :
      ContextOfOpen s (op, e.calls, e.result) e.state ↔
        Safe s (op, e.calls, e.result) e.state :=
    iff_of_true (contextOfOpen_of_ne hne) hsafe
  cases op with
  | closeHandle i =>
    cases hexec
    exact hother (by simp) (.closeHandle h i)
  | getKnownAddresses i answer =>
    cases hexec
    apply hother (by simp)
    rw [WafState.getKnownAddresses, getKnown_state]
    exact .getKnown h rfl (fun n => rfl)
  | getKnownActions i answer =>
    cases hexec
    apply hother (by simp)
    rw [WafState.getKnownActions, getKnown_state]
    exact .getKnown h rfl (fun n => rfl)
  | newContext t wafHandle =>
    simp only [WafState.exec] at hexec
    split at hexec
    . cases hexec
      apply hother (by simp)
      exact .of_target_none rfl (by simp [calls_newContext])
    . contradiction
  | contextInit t k context =>
    simp only [WafState.exec] at hexec
    split at hexec
    . next i natHandle ht _ =>
      cases hexec
      rw [safe_contextInit_iff h ht]
      constructor
      . intro hopen
        exact hopen t k context rfl i natHandle ht
      . intro honline t' k' context' hop i' n' ht'
        cases hop
        rw [ht, Option.some.injEq, Prod.mk.injEq] at ht'
        rw [← ht'.1]
        exact honline
    . contradiction
  | run k before answer =>
    obtain ⟨c, -, rfl⟩ := Option.map_eq_some_iff.mp hexec
    exact hother (by simp) (.of_target_none rfl calls_runContext)
  | runEphemeral k before answer =>
    obtain ⟨c, -, rfl⟩ := Option.map_eq_some_iff.mp hexec
    exact hother (by simp) (.of_target_none rfl calls_runContext)
  | closeContext k =>
    obtain ⟨c, -, rfl⟩ := Option.map_eq_some_iff.mp hexec
    exact hother (by simp) (.of_target_none rfl calls_closeContext)

/--
The runs that use no destroyed handle are the ones in which the handle of a context is not closed
before `ddwaf_context_init` gets it.
-/
theorem safe_runs_iff (handles : WafHandles ι) (initOk : Bool) (ls : List (Label ι κ τ))
    (s : WafState ι κ τ) :
    ((system handles initOk).restrict Safe).Reaches ls s
      ↔
    ((system handles initOk).restrict ContextOfOpen).Reaches ls s := by
  apply System.Reaches.restrict_congr
  intro ls s l s' hrun hstep
  exact (safe_iff_contextOfOpen (inv_invariant.reaches hrun) hstep).symm

end Run

section CloseThenNew

def oneHandle : WafHandles Unit where
  nativeHandle _ := 1
  ne_zero _ := Nat.one_ne_zero
  injective _ _ _ := rfl
  toString _ := "WafHandle"

def opened : WafState Unit Unit Unit where
  online _ := true
  destroyed _ := false
  starting _ := none
  contexts _ := none

def closedThenNew : WafState Unit Unit Unit :=
  ((opened.closeHandle oneHandle ()).state.newContext oneHandle () (some ())).state

theorem contextInit_of_closed :
    (system oneHandle true).Reaches
      ([] ++ [(.closeHandle (), [.destroy 1], .ok ())] ++ [(.newContext () (some ()), [], .ok ())])
      closedThenNew ∧
    (system oneHandle true).step closedThenNew
      (.contextInit () () 7, [.contextInit 1], .ok ()) (closedThenNew.contextInit () () () 1 7).state ∧
    closedThenNew.destroyed 1 = true := by
  have hinit : (system oneHandle true).init opened := by
    refine ⟨?_, fun _ => rfl, fun _ => rfl⟩
    intro n
    simp [opened]
  exact ⟨.step (.step (.init hinit) rfl) rfl, rfl, rfl⟩

end CloseThenNew

end WafState

end Ddwaf
