import Ddwaf.Lib.Holdings
import Ddwaf.Native.JavaCall.Impl
import Ddwaf.Native.Logging.Pending

open Program

namespace Ddwaf

namespace Library

inductive Slot where
  | ref (v : RefVar)
  | meth (m : MethodVar)
  deriving DecidableEq

def Slot.weak : Slot → Bool
  | .ref .objectJcls | .ref .logger | .ref .logPattern => false
  | .ref .longCls | .ref .outputDoubleCls | .ref .booleanCls => false
  | _ => true

namespace State

def slot (s : State) : Slot → Option GlobalRef
  | .ref v => s.ref v
  | .meth m => (s.meth m).classGlob

theorem slot_setRef (s : State) (v : RefVar) (r : Option GlobalRef) :
    (s.setRef v r).slot = Function.update s.slot (.ref v) r := by
  funext i
  cases i with
  | ref w =>
    by_cases h : w = v
    . rw [h]
      simp [slot, setRef]
    . simp [slot, setRef, Function.update_of_ne, h]
  | meth m => simp [slot, setRef, Function.update_of_ne]

theorem slot_setMeth (s : State) (m : MethodVar) (jmeth : JMethod) :
    (s.setMeth m jmeth).slot = Function.update s.slot (.meth m) jmeth.classGlob := by
  funext i
  cases i with
  | ref w => simp [slot, setMeth, Function.update_of_ne]
  | meth n =>
    by_cases h : n = m
    . rw [h]
      simp [slot, setMeth]
    . simp [slot, setMeth, Function.update_of_ne, h]

def Frame (s s' : State) : Prop := s' = { s with jni := s'.jni, made := s'.made, live := s'.live }

def Quiet (s s' : State) : Prop := s' = { s with jni := s'.jni }

def Makes (r : GlobalRef) (s s' : State) : Prop :=
  s' = { s with jni := s'.jni, made := s.made + 1, live := r :: s.live } ∧ r.number = s.made

theorem Quiet.refl (s : State) : Quiet s s := rfl

theorem Quiet.trans {s s' s'' : State} (h : Quiet s s') (h' : Quiet s' s'') : Quiet s s'' := by
  unfold Quiet at h h' ⊢
  rw [h', h]

theorem Quiet.frame {s s' : State} (h : Quiet s s') : Frame s s' := by
  unfold Quiet at h
  unfold Frame
  rw [h]

theorem Makes.frame {r : GlobalRef} {s s' : State} (h : Makes r s s') : Frame s s' := by
  unfold Frame
  rw [h.1]

theorem Frame.trans {s s' s'' : State} (h : Frame s s') (h' : Frame s' s'') : Frame s s'' := by
  unfold Frame at h h' ⊢
  rw [h', h]

theorem Quiet.makes {r : GlobalRef} {s s' s'' : State} (h : Quiet s s') (hmakes : Makes r s' s'') :
    Makes r s s'' := by
  unfold Quiet at h
  refine ⟨?_, ?_⟩
  . rw [hmakes.1, h]
  . rw [hmakes.2, h]

theorem Makes.quiet {r : GlobalRef} {s s' s'' : State} (h : Makes r s s') (hquiet : Quiet s' s'') :
    Makes r s s'' := by
  unfold Quiet at hquiet
  refine ⟨?_, h.2⟩
  rw [hquiet, h.1]

theorem Frame.setMeth {s s' : State} (h : Frame s s') (m : MethodVar) (j : JMethod) :
    Frame (s.setMeth m j) (s'.setMeth m j) := by
  unfold Frame at h ⊢
  rw [h]
  rfl

theorem Frame.setRef {s s' : State} (h : Frame s s') (v : RefVar) (r : Option GlobalRef) :
    Frame (s.setRef v r) (s'.setRef v r) := by
  unfold Frame at h ⊢
  rw [h]
  rfl

section Frame

variable {s s' : State} (h : Frame s s')
include h

theorem Frame.ref : s'.ref = s.ref := by
  rw [h]

theorem Frame.meth : s'.meth = s.meth := by
  rw [h]

theorem Frame.slot : s'.slot = s.slot := by
  funext i
  cases i with
  | ref v => rw [State.slot, State.slot, h.ref]
  | meth m => rw [State.slot, State.slot, h.meth]

end Frame

/--
Every reference that is live is in a variable or lost, and every reference in a variable is live.
The variables of `gone` are not looked at.
-/
structure Owns (gone : List Slot) (lost : List GlobalRef) (s : State) : Prop where
  holdings : Holdings (· ∉ gone) s.live s.slot lost
  weak : ∀ i r, i ∉ gone → s.slot i = some r → r.weak = i.weak
  old : ∀ r ∈ s.live, r.number < s.made

namespace Owns

variable {gone : List Slot} {lost : List GlobalRef} {s s' t : State} {r : GlobalRef} {i : Slot}

theorem live (h : Owns gone lost s) (hi : i ∉ gone) (hr : s.slot i = some r) : r ∈ s.live :=
  h.holdings.alive_of_place hi hr

theorem fresh (h : Owns gone lost s) (hr : r.number = s.made) : r ∉ s.live := by
  intro hmem
  exact absurd (h.old r hmem) (by omega)

theorem quiet (h : Owns gone lost s) (hquiet : Quiet s s') : Owns gone lost s' := by
  have hslot := hquiet.frame.slot
  unfold Quiet at hquiet
  constructor
  . rw [hslot]
    rw [hquiet]
    exact h.holdings
  . rw [hslot]
    exact h.weak
  . rw [hquiet]
    exact h.old

theorem acquire (h : Owns gone lost s) (hmakes : Makes r s s') (hi : i ∉ gone)
    (hnone : s.slot i = none) (hweak : r.weak = i.weak) (hlive : t.live = s'.live)
    (hmade : t.made = s'.made) (hslot : t.slot = Function.update s'.slot i (some r)) :
    Owns gone lost t := by
  rw [hmakes.frame.slot] at hslot
  have hlive : t.live = r :: s.live := by
    rw [hlive, hmakes.1]
  have hmade : t.made = s.made + 1 := by
    rw [hmade, hmakes.1]
  constructor
  . rw [hlive, hslot]
    exact h.holdings.acquire hi hnone (h.fresh hmakes.2)
  . intro j r' hj hr'
    rw [hslot] at hr'
    by_cases hji : j = i
    . rw [hji, Function.update_self] at hr'
      cases hr'
      rw [hji, hweak]
    . rw [Function.update_of_ne hji] at hr'
      exact h.weak j r' hj hr'
  . intro r' hr'
    rw [hlive] at hr'
    rw [hmade]
    rcases List.mem_cons.mp hr' with heq | hr'
    . rw [heq, hmakes.2]
      omega
    . have := h.old r' hr'
      omega

theorem lose (h : Owns gone lost s) (hmakes : Makes r s s') : Owns gone (r :: lost) s' := by
  have hslot := hmakes.frame.slot
  have hlive : s'.live = r :: s.live := by
    rw [hmakes.1]
  have hmade : s'.made = s.made + 1 := by
    rw [hmakes.1]
  constructor
  . rw [hslot, hlive]
    exact h.holdings.lose (h.fresh hmakes.2)
  . rw [hslot]
    exact h.weak
  . intro r' hr'
    rw [hlive] at hr'
    rw [hmade]
    rcases List.mem_cons.mp hr' with heq | hr'
    . rw [heq, hmakes.2]
      omega
    . have := h.old r' hr'
      omega

theorem congr (h : Owns gone lost s) (hlive : t.live = s.live) (hmade : t.made = s.made)
    (hslot : t.slot = s.slot) : Owns gone lost t := by
  constructor
  . rw [hlive, hslot]
    exact h.holdings
  . rw [hslot]
    exact h.weak
  . rw [hlive, hmade]
    exact h.old

theorem setMeth_none {m : MethodVar} {j : JMethod} (h : Owns gone lost s)
    (hnone : s.slot (.meth m) = none) (hj : j.classGlob = none) : Owns gone lost (s.setMeth m j) := by
  have hslot := slot_setMeth s m j
  rw [hj, ← hnone, Function.update_eq_self] at hslot
  exact h.congr rfl rfl hslot

theorem release (h : Owns gone lost s) (hi : i ∉ gone) (hr : s.slot i = some r)
    (hlive : t.live = s.live.erase r) (hmade : t.made = s.made)
    (hslot : t.slot = Function.update s.slot i none) : Owns gone lost t := by
  constructor
  . rw [hlive, hslot]
    exact h.holdings.release hi hr
  . intro j r' hj hr'
    rw [hslot] at hr'
    by_cases hji : j = i
    . rw [hji, Function.update_self] at hr'
      contradiction
    . rw [Function.update_of_ne hji] at hr'
      exact h.weak j r' hj hr'
  . intro r' hr'
    rw [hlive] at hr'
    rw [hmade]
    exact h.old r' (List.mem_of_mem_erase hr')

theorem ignore (h : Owns gone lost s) (hnone : s.slot i = none) : Owns (i :: gone) lost s := by
  constructor
  . apply h.holdings.ignore
    . intro j hj hmem
      exact hj (List.mem_cons_of_mem _ hmem)
    . intro j hj hmem
      rw [not_not, List.mem_cons] at hmem
      rcases hmem with rfl | hmem
      . exact hnone
      . exact absurd hmem hj
  . intro j r hj
    exact h.weak j r fun hmem => hj (List.mem_cons_of_mem _ hmem)
  . exact h.old

theorem leave (h : Owns gone lost s) (hi : i ∉ gone) (hr : s.slot i = some r)
    (hlive : t.live = s.live.erase r) (hmade : t.made = s.made) (hslot : t.slot = s.slot) :
    Owns (i :: gone) lost t := by
  constructor
  . rw [hlive, hslot]
    apply h.holdings.leave hi hr
    intro j
    rw [List.mem_cons, not_or, and_comm]
  . intro j r' hj
    rw [hslot]
    exact h.weak j r' fun hmem => hj (List.mem_cons_of_mem _ hmem)
  . intro r' hr'
    rw [hlive] at hr'
    rw [hmade]
    exact h.old r' (List.mem_of_mem_erase hr')

end Owns

end State

open State

section Calls

variable {α : Type} {E : Exit → State → Prop} {s : State}

theorem exec_lift (x : Jni α) (s : State) :
    exec (lift x) s =
      match exec x s.jni with
      | (.ok a, jni) => (.ok a, { s with jni })
      | (.error e, jni) => (.error (.native e), { s with jni }) := by
  rfl

theorem lift_ensures {x : Jni α} {Q : α → JniState → Prop} {E' : Jni.Exit → JniState → Prop}
    (h : Ensures x s.jni Q E') (hE : ∀ e s', E' e s'.jni → Quiet s s' → E (.native e) s') :
    Ensures (lift x) s (fun a s' => Quiet s s' ∧ Q a s'.jni) E := by
  have hexec := exec_lift x s
  cases hx : exec x s.jni with
  | mk r jni =>
    rw [hx] at hexec
    cases r with
    | ok a => exact Ensures.of_ok hexec ⟨rfl, h.ok a jni hx⟩
    | error e => exact Ensures.of_error hexec (hE e _ (h.error e jni hx) rfl)

theorem lift_ensures_never {x : Jni α} {Q : α → JniState → Prop} (h : Ensures x s.jni Q Jni.Never) :
    Ensures (lift x) s (fun a s' => Quiet s s' ∧ Q a s'.jni) E :=
  lift_ensures h fun _ _ hE _ => hE.elim

theorem exec_exceptionCheck (s : State) : exec exceptionCheck s = (.ok s.jni.pending.isSome, s) := by
  rfl

theorem exceptionCheck_bind {x y : Refs α} {Q : α → State → Prop}
    (hx : s.jni.pending ≠ none → Ensures x s Q E) (hy : s.jni.pending = none → Ensures y s Q E) :
    Ensures (do if ← exceptionCheck then x else y) s Q E := by
  apply Ensures.bind (Ensures.of_ok (exec_exceptionCheck s)
    (Q := fun b s' => b = s.jni.pending.isSome ∧ s' = s) ⟨rfl, rfl⟩)
  intro b s' hb
  rw [hb.1, hb.2]
  cases h : s.jni.pending with
  | none => exact hy h
  | some exc => exact hx (by simp [h])

theorem requireNoException_bind {x : Refs α} {Q : α → State → Prop} (hs : s.jni.pending = none)
    (hx : Ensures x s Q E) : Ensures (do requireNoException; x) s Q E := by
  apply Ensures.bind (Q := fun _ s' => s' = s)
  . apply exceptionCheck_bind
    . intro hne
      exact absurd hs hne
    . intro _
      exact Ensures.pure rfl
  . intro _ s' hs'
    rw [hs']
    exact hx

theorem get_bind {f : State → Refs α} {Q : α → State → Prop} (h : Ensures (f s) s Q E) :
    Ensures (do let s ← get; f s) s Q E := by
  apply Ensures.bind (Ensures.get (Q := fun a s' => a = s ∧ s' = s) ⟨rfl, rfl⟩)
  intro _ _ hs
  rw [hs.1, hs.2]
  exact h

theorem modify_bind {f : State → State} {x : Refs α} {Q : α → State → Prop}
    (h : Ensures x (f s) Q E) : Ensures (do modify f; x) s Q E := by
  apply Ensures.bind (Ensures.of_ok (exec_modify f s) (Q := fun _ s' => s' = f s) rfl)
  intro _ _ hs
  rw [hs]
  exact h

theorem use_ensures {v : Option GlobalRef} {r : GlobalRef} (hv : v = some r) (hr : r ∈ s.live) :
    Ensures (use v) s (fun _ s' => s' = s) E := by
  apply get_bind
  rw [hv]
  show Ensures (if r ∈ s.live then _ else _) s _ E
  rw [if_pos hr]
  exact Ensures.pure rfl

theorem use_bind {v : Option GlobalRef} {r : GlobalRef} {x : Refs α} {Q : α → State → Prop}
    (hv : v = some r) (hr : r ∈ s.live) (hx : Ensures x s Q E) : Ensures (do use v; x) s Q E := by
  apply Ensures.bind (use_ensures hv hr)
  intro _ s' hs'
  rw [hs']
  exact hx

theorem succeeds_ensures {x : Refs Unit} {Q : Unit → State → Prop} {F : State → Prop}
    (h : Ensures x s Q fun e s' => e = .native .null ∧ F s') :
    Ensures (succeeds x) s (fun b s' => (b = true ∧ Q () s') ∨ (b = false ∧ F s')) E := by
  have hexec : exec (succeeds x) s = _ := exec_tryCatch _ _ s
  rw [exec_bind] at hexec
  cases hx : exec x s with
  | mk r s' =>
    rw [hx] at hexec
    cases r with
    | ok a => exact Ensures.of_ok hexec (Or.inl ⟨rfl, h.ok a s' hx⟩)
    | error e =>
      have hF := h.error e s' hx
      rw [hF.1] at hexec
      exact Ensures.of_ok hexec (Or.inr ⟨rfl, hF.2⟩)

structure Called (env : Env) (c : Call) (b : Bool) (s s' : State) : Prop where
  quiet : Quiet s s'
  success : b = true → s'.jni.pending = none
  throws : b = false → c.throwsForNull = true → s'.jni.pending ≠ none

variable (env : Env)

theorem answer_ensures (c : Call) {s : JniState} (hs : s.pending = none) :
    Ensures (answer env c) s (fun b s' => (b = true → s'.pending = none) ∧
      (b = false → c.throwsForNull = true → s'.pending ≠ none)) Jni.Never := by
  cases h : env.outcome c s.calls with
  | success =>
    have hexec : exec (answer env c) s = (.ok true, { s with calls := s.calls + 1 }) := by
      simp only [answer, exec_bind, exec_get, exec_modify, h]
      rfl
    exact Ensures.of_ok hexec ⟨fun _ => hs, fun hb => Bool.noConfusion hb⟩
  | null =>
    have hexec : exec (answer env c) s = (.ok false, { s with calls := s.calls + 1 }) := by
      simp only [answer, exec_bind, exec_get, exec_modify, h]
      rfl
    refine Ensures.of_ok hexec ⟨fun hb => Bool.noConfusion hb, fun _ hthrows => ?_⟩
    exact absurd h (env.throws_for_null c s.calls hthrows)
  | throws exc =>
    have hexec : exec (answer env c) s = (.ok false, ⟨some exc, s.calls + 1⟩) := by
      simp only [answer, exec_bind, exec_get, exec_modify, h]
      rfl
    exact Ensures.of_ok hexec ⟨fun hb => Bool.noConfusion hb, fun _ _ => by simp⟩

theorem call_ensures (c : Call) (hs : s.jni.pending = none) :
    Ensures (call env c) s (fun b s' => Called env c b s s') E := by
  apply requireNoException_bind hs
  apply (lift_ensures_never (answer_ensures env c hs)).mono
  . intro b s' h
    exact ⟨h.1, h.2.1, h.2.2⟩
  . exact fun _ _ hE => hE

theorem exec_call_success {c : Call} (hs : s.jni.pending = none)
    (hc : env.outcome c s.jni.calls = .success) :
    exec (call env c) s = (.ok true, { s with jni := { s.jni with calls := s.jni.calls + 1 } }) := by
  have hrequire : exec requireNoException s = (.ok (), s) := by
    rw [requireNoException, exec_bind, exec_exceptionCheck, hs]
    rfl
  have hanswer : exec (answer env c) s.jni = (.ok true, { s.jni with calls := s.jni.calls + 1 }) := by
    simp only [answer, exec_bind, exec_get, exec_modify, hc]
    rfl
  rw [call, exec_bind, hrequire]
  dsimp only
  rw [exec_lift, hanswer]

theorem require_ensures (c : Call) (hc : c.throwsForNull = true) (hs : s.jni.pending = none) :
    Ensures (require env c) s (fun _ s' => Quiet s s' ∧ s'.jni.pending = none)
      (fun e s' => e = .native .null ∧ Quiet s s' ∧ s'.jni.pending ≠ none) := by
  apply Ensures.bind (call_ensures env c hs)
  intro b s' h
  cases b with
  | true => exact Ensures.pure ⟨h.quiet, h.success rfl⟩
  | false => exact Ensures.throw ⟨rfl, h.quiet, h.throws rfl hc⟩

theorem newRef_ensures (weak : Bool) (obj : Option JObj) (hs : s.jni.pending = none) :
    Ensures (newRef env weak obj) s
      (fun r s' =>
        (∃ r', r = some r' ∧ Makes r' s s' ∧ r'.weak = weak ∧ s'.jni.pending = none) ∨
          (r = none ∧ Quiet s s' ∧ (obj.isSome = true → weak = true → s'.jni.pending ≠ none))) E := by
  cases obj with
  | none =>
    apply requireNoException_bind hs
    exact Ensures.pure (Or.inr ⟨rfl, rfl, fun h => Bool.noConfusion h⟩)
  | some obj =>
    apply Ensures.bind (call_ensures env _ hs)
    intro b s' h
    cases b with
    | true =>
      apply get_bind
      apply modify_bind
      refine Ensures.pure (Or.inl ⟨⟨s'.made, weak⟩, rfl, ⟨?_, ?_⟩, rfl, h.success rfl⟩)
      . rw [h.quiet]
      . rw [h.quiet]
    | false =>
      refine Ensures.pure (Or.inr ⟨rfl, h.quiet, fun _ hweak => h.throws rfl ?_⟩)
      rw [hweak]
      rfl

theorem exec_deleteRef {weak : Bool} {r : GlobalRef} (hr : r ∈ s.live) (hweak : r.weak = weak) :
    exec (deleteRef weak r) s = (.ok (), { s with live := s.live.erase r }) := by
  rw [deleteRef, exec_bind, exec_get]
  show exec (if r ∈ s.live ∧ r.weak = weak then _ else _) s = _
  rw [if_pos ⟨hr, hweak⟩]
  rfl

end Calls

namespace State

def RteLive (s : State) : Prop := ∃ r, s.ref .jclsRte = some r ∧ r ∈ s.live

def logRefs : List RefVar := [.objectJcls, .trace, .debug, .info, .warn, .error, .logger, .logPattern]

structure LogReady (s : State) : Prop where
  live : ∀ v ∈ logRefs, ∃ r, s.ref v = some r ∧ r ∈ s.live
  methId : (s.meth .logMeth).methId ≠ none

theorem RteLive.quiet {s s' : State} (h : RteLive s) (hquiet : Quiet s s') : RteLive s' := by
  have ⟨r, hr, hlive⟩ := h
  refine ⟨r, hquiet.frame.ref ▸ hr, ?_⟩
  rw [hquiet]
  exact hlive

theorem RteLive.makes {r : GlobalRef} {s s' : State} (h : RteLive s) (hmakes : Makes r s s') :
    RteLive s' := by
  have ⟨r', hr', hlive⟩ := h
  refine ⟨r', hmakes.frame.ref ▸ hr', ?_⟩
  rw [hmakes.1]
  exact List.mem_cons_of_mem _ hlive

theorem RteLive.live_of_eq {s : State} (h : RteLive s) :
    ∀ r, s.ref .jclsRte = some r → r ∈ s.live := by
  intro r hr
  have ⟨r', hr', hlive⟩ := h
  rw [hr] at hr'
  cases hr'
  exact hlive

theorem LogReady.quiet {s s' : State} (h : LogReady s) (hquiet : Quiet s s') : LogReady s' := by
  unfold Quiet at hquiet
  rw [hquiet]
  exact ⟨h.live, h.methId⟩

end State

section JavaCall

variable {E : Exit → State → Prop} {s : State} (env : Env)

theorem throwNew_ensures (msg : String) (hs : s.jni.pending = none) (hrte : RteLive s) :
    Ensures (throwNew env msg) s (fun _ s' => Quiet s s' ∧ s'.jni.pending ≠ none) E := by
  have ⟨r, hr, hlive⟩ := hrte
  apply get_bind
  apply requireNoException_bind hs
  apply use_bind hr hlive
  exact lift_ensures_never (Jni.throwNew_ensures env.jvm _ s.jni)

theorem throwNewUnlessPending_ensures (msg : String) (hrte : s.jni.pending = none → RteLive s) :
    Ensures (throwNewUnlessPending env msg) s (fun _ s' => Quiet s s' ∧ s'.jni.pending ≠ none) E := by
  apply exceptionCheck_bind
  . intro hs
    exact Ensures.pure ⟨rfl, hs⟩
  . intro hs
    exact throwNew_ensures env msg hs (hrte hs)

theorem useRte_ensures (hrte : ∀ r, s.ref .jclsRte = some r → r ∈ s.live) :
    Ensures javaWrapExc.useRte s (fun _ s' => s' = s) E := by
  apply get_bind
  split
  . rename_i huse
    have ⟨r, hr⟩ := Option.isSome_iff_exists.mp (Bool.and_eq_true_iff.mp huse).2
    exact use_ensures hr (hrte r hr)
  . exact Ensures.pure rfl

theorem javaWrapExc_ensures (msg : String) (hs : s.jni.pending ≠ none)
    (hrte : ∀ r, s.ref .jclsRte = some r → r ∈ s.live) :
    Ensures (javaWrapExc env msg) s (fun _ s' => Quiet s s' ∧ s'.jni.pending ≠ none) E := by
  have ⟨e, he⟩ := Option.ne_none_iff_exists'.mp hs
  have hthrows : (s.jvm env.jvm).NewObjectThrows := env.newObject_throws
  have hwrap := Jni.javaWrapExcRelay_ensures hthrows (env.jvm.place msg) (cstr msg) he
  apply get_bind
  apply Ensures.bind (useRte_ensures hrte)
  intro _ s' hs'
  rw [hs']
  exact lift_ensures_never (hwrap.mono (fun _ _ h => h.ne_none) fun _ _ hE => hE)

theorem useLog_ensures (level : DdwafLogLevel) (hlog : LogReady s) :
    Ensures (useLog level) s (fun _ s' => s' = s) E := by
  have hlive {v : RefVar} (hv : v ∈ logRefs) := hlog.live v hv
  apply get_bind
  have ⟨r, hr, hmem⟩ := hlive (v := .objectJcls) (by decide)
  apply use_bind hr hmem
  have ⟨r, hr, hmem⟩ := hlive (v := .logger) (by decide)
  apply use_bind hr hmem
  have ⟨r, hr, hmem⟩ := hlive (v := lvlApiToJava level) (by cases level <;> decide)
  apply use_bind hr hmem
  have ⟨r, hr, hmem⟩ := hlive (v := .logPattern) (by decide)
  apply use_bind hr hmem
  have hsome : (s.meth .logMeth).methId.isSome = true := Option.isSome_iff_ne_none.mpr hlog.methId
  rw [if_pos hsome]
  exact Ensures.pure rfl

theorem wafLoggingC_ensures (level : DdwafLogLevel) (message : List UInt8) (hlog : LogReady s) :
    Ensures (wafLoggingC env level message) s
      (fun _ s' => Quiet s s' ∧ s'.jni.pending = s.jni.pending) E := by
  apply get_bind
  apply Ensures.bind (useLog_ensures level hlog)
  intro _ s' hs'
  rw [hs']
  exact lift_ensures_never (Jni.onThread_ensures (s.jvm env.jvm) message s.jni)

theorem javaLog_ensures (level : DdwafLogLevel) (msg : String) (hlog : LogReady s) :
    Ensures (javaLog env level msg) s (fun _ s' => Quiet s s' ∧ s'.jni.pending = s.jni.pending) E := by
  apply get_bind
  apply Ensures.bind (Q := fun _ s' => s' = s)
  . apply get_bind
    split
    . exact useLog_ensures level hlog
    . exact Ensures.pure rfl
  . intro _ s' hs'
    rw [hs']
    exact lift_ensures_never (Jni.javaLog_ensures (s.jvm env.jvm) level msg s.jni)

theorem classGlobal_ensures (className : String) (type : JMethodType) (hs : s.jni.pending = none)
    (hrte : RteLive s) :
    Ensures (javaMethInitChecked.classGlobal env className type) s
      (fun r s' => s'.jni.pending = none ∧ ((type = .virtual ∧ r = none ∧ Quiet s s') ∨
        ∃ r', r = some r' ∧ Makes r' s s' ∧ r'.weak = true ∧ type ≠ .virtual))
      (fun e s' => e = .native .null ∧ Quiet s s' ∧ s'.jni.pending ≠ none) := by
  unfold javaMethInitChecked.classGlobal
  by_cases htype : type = .virtual
  . rw [if_pos htype]
    exact Ensures.pure ⟨hs, Or.inl ⟨htype, rfl, rfl⟩⟩
  . rw [if_neg htype]
    apply Ensures.bind (newRef_ensures env true _ hs)
    rintro r s' (⟨r', rfl, hmakes, hweak, hs'⟩ | ⟨rfl, hquiet, _⟩)
    . exact Ensures.pure ⟨hs', Or.inr ⟨r', rfl, hmakes, hweak, htype⟩⟩
    . apply Ensures.bind (throwNewUnlessPending_ensures env _ fun _ => hrte.quiet hquiet)
      intro _ s'' h
      exact Ensures.throw ⟨rfl, hquiet.trans h.1, h.2⟩

structure Initialized (methId : MethodId) (type : JMethodType) (jmeth : JMethod) : Prop where
  methId : jmeth.methId = some methId
  initialized : jmeth.type ≠ .uninitialized
  virtual : type = .virtual → jmeth.classGlob = none

variable {gone : List Slot} {lost : List GlobalRef}

def LosesOne (gone : List Slot) (lost : List GlobalRef) (s : State) : Prop :=
  Owns gone lost s ∨ ∃ r, Owns gone (r :: lost) s

theorem javaMethInitChecked_ensures (jmeth : MethodVar) (className methodName sig : String)
    {type : JMethodType} (htype : type ≠ .uninitialized) (hs : s.jni.pending = none)
    (hrte : RteLive s) (howns : Owns gone lost s) (hgone : .meth jmeth ∉ gone)
    (hnone : s.slot (.meth jmeth) = none) :
    Ensures (javaMethInitChecked env jmeth className methodName sig type) s
      (fun _ s' => Owns gone lost s' ∧ s'.jni.pending = none ∧
        ∃ j, Initialized ⟨className, if type = .constructor then "<init>" else methodName, sig⟩ type j ∧
          Frame (s.setMeth jmeth j) s')
      (fun e s' => e = .native .null ∧ LosesOne gone lost s' ∧ Frame s s' ∧ s'.jni.pending ≠ none) := by
  apply Ensures.bind (call_ensures env _ hs)
  intro b s₁ hfind
  have hrte₁ := hrte.quiet hfind.quiet
  have howns₁ := howns.quiet hfind.quiet
  cases b with
  | false =>
    apply Ensures.bind (javaWrapExc_ensures env _ (hfind.throws rfl rfl) hrte₁.live_of_eq)
    intro _ s' h
    exact Ensures.throw ⟨rfl, Or.inl (howns₁.quiet h.1), (hfind.quiet.trans h.1).frame, h.2⟩
  | true =>
    apply Ensures.bind ((classGlobal_ensures env className type (hfind.success rfl) hrte₁).mono_error _)
    . rintro classGlobal s₂ ⟨hs₂, hclass⟩
      have hframe₂ : Frame s s₂ := by
        rcases hclass with ⟨_, _, hquiet⟩ | ⟨r, _, hmakes, _⟩
        . exact (hfind.quiet.trans hquiet).frame
        . exact hfind.quiet.frame.trans hmakes.frame
      apply Ensures.bind (call_ensures env _ hs₂)
      intro b s₃ hlookup
      have hframe₃ := hframe₂.trans hlookup.quiet.frame
      cases b with
      | true =>
        apply Ensures.of_ok (exec_modify _ _)
        refine ⟨?_, hlookup.success rfl, _, ⟨rfl, ?_, ?_⟩, hframe₃.setMeth jmeth _⟩
        . rcases hclass with ⟨_, rfl, hquiet⟩ | ⟨r, rfl, hmakes, hweak, _⟩
          . apply ((howns₁.quiet hquiet).quiet hlookup.quiet).setMeth_none _ rfl
            rw [hframe₃.slot, hnone]
          . refine howns₁.acquire (t := s₃.setMeth jmeth _) (hmakes.quiet hlookup.quiet) hgone ?_ hweak
              rfl rfl (slot_setMeth s₃ jmeth _)
            rw [hfind.quiet.frame.slot, hnone]
        . simp only [ne_eq]
          split
          . simp
          . exact htype
        . intro hvirtual
          rcases hclass with ⟨_, rfl, _⟩ | ⟨_, _, _, _, hne⟩
          . rfl
          . exact absurd hvirtual hne
      | false =>
        have hpending := hlookup.throws rfl (by split <;> rfl)
        have hrte₃ : RteLive s₃ := by
          rcases hclass with ⟨_, _, hquiet⟩ | ⟨r, _, hmakes, _⟩
          . exact (hrte₁.quiet hquiet).quiet hlookup.quiet
          . exact hrte₁.makes (hmakes.quiet hlookup.quiet)
        apply Ensures.bind (javaWrapExc_ensures env _ hpending hrte₃.live_of_eq)
        intro _ s' h
        refine Ensures.throw ⟨rfl, ?_, hframe₃.trans h.1.frame, h.2⟩
        rcases hclass with ⟨_, _, hquiet⟩ | ⟨r, _, hmakes, _⟩
        . exact Or.inl (((howns₁.quiet hquiet).quiet hlookup.quiet).quiet h.1)
        . exact Or.inr ⟨r, howns₁.lose ((hmakes.quiet hlookup.quiet).quiet h.1)⟩
    . intro e s' h
      exact ⟨h.1, Or.inl (howns₁.quiet h.2.1), (hfind.quiet.trans h.2.1).frame, h.2.2⟩

theorem classStrongref_ensures (jmeth : JMethod) (hs : s.jni.pending = none) (hrte : RteLive s)
    (hlive : ∀ r, jmeth.classGlob = some r → r ∈ s.live) :
    Ensures (javaMethCall.classStrongref env jmeth) s
      (fun b s' => Quiet s s' ∧ (b = true → s'.jni.pending = none)) E := by
  have hthrow {s' : State}
      (h : Ensures (throwNewUnlessPending env "Cached class was garbage collected") s'
        (fun _ s'' => Quiet s' s'' ∧ s''.jni.pending ≠ none) E) (hquiet : Quiet s s') :
      Ensures (do throwNewUnlessPending env "Cached class was garbage collected"; return false) s'
        (fun b s' => Quiet s s' ∧ (b = true → s'.jni.pending = none)) E := by
    apply Ensures.bind h
    intro _ s'' h
    exact Ensures.pure ⟨hquiet.trans h.1, fun hb => Bool.noConfusion hb⟩
  unfold javaMethCall.classStrongref
  by_cases htype : jmeth.type = .virtual
  . rw [if_pos htype]
    exact Ensures.pure ⟨rfl, fun _ => hs⟩
  . rw [if_neg htype]
    cases hclass : jmeth.classGlob with
    | none =>
      apply requireNoException_bind hs
      apply Ensures.bind (throwNew_ensures env _ hs hrte)
      intro _ s' h
      exact Ensures.pure ⟨h.1, fun hb => Bool.noConfusion hb⟩
    | some r =>
      apply use_bind rfl (hlive r hclass)
      apply Ensures.bind (call_ensures env _ hs)
      intro b s' h
      cases b with
      | true => exact Ensures.pure ⟨h.quiet, fun _ => h.success rfl⟩
      | false => exact hthrow (throwNewUnlessPending_ensures env _ fun _ => hrte.quiet h.quiet) h.quiet

theorem javaMethCall_ensures {m : MethodVar} {methId : MethodId} (hs : s.jni.pending = none)
    (hrte : RteLive s) (hlive : ∀ r, (s.meth m).classGlob = some r → r ∈ s.live)
    (hmethId : (s.meth m).methId = some methId) :
    Ensures (javaMethCall env m) s
      (fun obj s' => Quiet s s' ∧ (obj = none ∨ obj = some (.returned methId))) E := by
  apply get_bind
  show Ensures (if (s.meth m).type = .uninitialized then _ else _) s _ E
  split
  . apply Ensures.bind (throwNew_ensures env _ hs hrte)
    intro _ s' h
    exact Ensures.pure ⟨h.1, Or.inl rfl⟩
  . apply Ensures.bind (classStrongref_ensures env (s.meth m) hs hrte hlive)
    intro b s' h
    cases b with
    | false => exact Ensures.pure ⟨h.1, Or.inl rfl⟩
    | true =>
      rw [hmethId]
      apply Ensures.bind (call_ensures env _ (h.2 rfl))
      intro b s'' h'
      cases b with
      | true => exact Ensures.pure ⟨h.1.trans h'.quiet, Or.inr rfl⟩
      | false => exact Ensures.pure ⟨h.1.trans h'.quiet, Or.inl rfl⟩

theorem globalObj_ensures (className name sig : String) (hs : s.jni.pending = none) :
    Ensures (javaStaticFieldChecked.globalObj env className name sig) s
      (fun r s' =>
        (∃ r', r = some r' ∧ Makes r' s s' ∧ r'.weak = true ∧ s'.jni.pending = none) ∨
          (r = none ∧ Quiet s s')) E := by
  apply Ensures.bind (call_ensures env _ hs)
  intro b s₁ h₁
  cases b with
  | false => exact Ensures.pure (Or.inr ⟨rfl, h₁.quiet⟩)
  | true =>
    apply Ensures.bind (call_ensures env _ (h₁.success rfl))
    intro found s₂ h₂
    apply exceptionCheck_bind
    . intro _
      exact Ensures.pure (Or.inr ⟨rfl, h₁.quiet.trans h₂.quiet⟩)
    . intro hs₂
      apply (newRef_ensures env true _ hs₂).mono
      . rintro r s' (⟨r', rfl, hmakes, hweak, hs'⟩ | ⟨rfl, hquiet, _⟩)
        . exact Or.inl ⟨r', rfl, (h₁.quiet.trans h₂.quiet).makes hmakes, hweak, hs'⟩
        . exact Or.inr ⟨rfl, (h₁.quiet.trans h₂.quiet).trans hquiet⟩
      . exact fun _ _ hE => hE

theorem javaStaticFieldChecked_ensures (className name sig : String) (hs : s.jni.pending = none)
    (hrte : RteLive s) :
    Ensures (javaStaticFieldChecked env className name sig) s
      (fun r s' =>
        (∃ r', r = some r' ∧ Makes r' s s' ∧ r'.weak = true ∧ s'.jni.pending = none) ∨
          (r = none ∧ Quiet s s' ∧ s'.jni.pending ≠ none)) E := by
  apply Ensures.bind (globalObj_ensures env className name sig hs)
  rintro r s' (⟨r', rfl, h⟩ | ⟨rfl, hquiet⟩)
  . exact Ensures.pure (Or.inl ⟨r', rfl, h⟩)
  . have hrte' := hrte.quiet hquiet
    apply exceptionCheck_bind
    . intro hs'
      apply Ensures.bind (javaWrapExc_ensures env _ hs' hrte'.live_of_eq)
      intro _ s'' h
      exact Ensures.pure (Or.inr ⟨rfl, hquiet.trans h.1, h.2⟩)
    . intro hs'
      apply Ensures.bind (throwNew_ensures env _ hs' hrte')
      intro _ s'' h
      exact Ensures.pure (Or.inr ⟨rfl, hquiet.trans h.1, h.2⟩)

end JavaCall

namespace State

def Typed (s : State) : Prop :=
  ∀ m, (s.meth m).type = .uninitialized → (s.meth m).classGlob = none

structure Cleared (L : List Slot) (s s' : State) : Prop where
  eq : s' = { s with live := s'.live, ref := s'.ref, meth := s'.meth }
  cleared : ∀ i ∈ L, s'.slot i = none
  kept : ∀ i, i ∉ L → s'.slot i = s.slot i
  methId : ∀ m, (s'.meth m).methId = (s.meth m).methId
  type : ∀ m, (s'.meth m).type = (s.meth m).type

theorem Cleared.refl (s : State) : Cleared [] s s :=
  ⟨rfl, fun _ h => absurd h List.not_mem_nil, fun _ _ => rfl, fun _ => rfl, fun _ => rfl⟩

theorem Cleared.trans {L L' : List Slot} {s s' s'' : State} (h : Cleared L s s')
    (h' : Cleared L' s' s'') : Cleared (L ++ L') s s'' := by
  constructor
  . rw [h'.eq, h.eq]
  . intro i hi
    by_cases hi' : i ∈ L'
    . exact h'.cleared i hi'
    . rw [h'.kept i hi']
      rcases List.mem_append.mp hi with hi | hi
      . exact h.cleared i hi
      . exact absurd hi hi'
  . intro i hi
    rw [List.mem_append, not_or] at hi
    rw [h'.kept i hi.2, h.kept i hi.1]
  . intro m
    rw [h'.methId, h.methId]
  . intro m
    rw [h'.type, h.type]

theorem Typed.cleared {L : List Slot} {s s' : State} (h : Typed s) (hcleared : Cleared L s s') :
    Typed s' := by
  intro m hm
  rw [hcleared.type] at hm
  show s'.slot (.meth m) = none
  by_cases hi : .meth m ∈ L
  . exact hcleared.cleared _ hi
  . rw [hcleared.kept _ hi]
    exact h m hm

end State

def Disposes (x : Refs Unit) (L : List Slot) : Prop :=
  ∀ gone lost s, Owns gone lost s → Typed s → (∀ i ∈ L, i ∉ gone) →
    ∃ s', exec x s = (.ok (), s') ∧ Owns gone lost s' ∧ Cleared L s s'

namespace Disposes

variable {x y : Refs Unit} {L L' : List Slot}

theorem bind (hx : Disposes x L) (hy : Disposes y L') : Disposes (do x; y) (L ++ L') := by
  intro gone lost s howns htyped hgone
  have ⟨s', hexec, howns', hcleared⟩ := hx gone lost s howns htyped fun i hi =>
    hgone i (List.mem_append_left _ hi)
  have ⟨s'', hexec', howns'', hcleared'⟩ := hy gone lost s' howns' (htyped.cleared hcleared) fun i hi =>
    hgone i (List.mem_append_right _ hi)
  refine ⟨s'', ?_, howns'', hcleared.trans hcleared'⟩
  rw [exec_bind, hexec]
  exact hexec'

theorem forM {α : Type} {f : α → Refs Unit} {slot : α → Slot} (h : ∀ a, Disposes (f a) [slot a])
    (as : List α) : Disposes (as.forM f) (as.map slot) := by
  induction as with
  | nil =>
    intro gone lost s howns _ _
    exact ⟨s, rfl, howns, Cleared.refl s⟩
  | cons a as ih => exact Disposes.bind (h a) ih

end Disposes

theorem Disposes.of_exec {x : Refs Unit} {i : Slot}
    (hnone : ∀ s, s.slot i = none → exec x s = (.ok (), s))
    (hsome : ∀ s r, s.slot i = some r → r ∈ s.live → r.weak = i.weak → ∃ t,
      exec x s = (.ok (), t) ∧ t = { s with live := s.live.erase r, ref := t.ref, meth := t.meth } ∧
        t.slot = Function.update s.slot i none ∧ (∀ m, (t.meth m).methId = (s.meth m).methId) ∧
        ∀ m, (t.meth m).type = (s.meth m).type) : Disposes x [i] := by
  intro gone lost s howns _ hgone
  have hi : i ∉ gone := hgone i (List.mem_singleton_self i)
  cases hr : s.slot i with
  | none =>
    refine ⟨s, hnone s hr, howns, rfl, ?_, fun _ _ => rfl, fun _ => rfl, fun _ => rfl⟩
    intro j hj
    rw [List.mem_singleton.mp hj, hr]
  | some r =>
    have ⟨t, hexec, ht, hslot, hmethId, htype⟩ := hsome s r hr (howns.live hi hr) (howns.weak i r hi hr)
    refine ⟨t, hexec, ?_, ?_, ?_, ?_, hmethId, htype⟩
    . exact howns.release hi hr (by rw [ht]) (by rw [ht]) hslot
    . rw [ht]
    . intro j hj
      rw [hslot, List.mem_singleton.mp hj, Function.update_self]
    . intro j hj
      rw [hslot, Function.update_of_ne fun h => hj (List.mem_singleton.mpr h)]

theorem javaMethDestroy_disposes (m : MethodVar) : Disposes (javaMethDestroy m) [.meth m] := by
  apply Disposes.of_exec
  . intro s hnone
    have hclass : (s.meth m).classGlob = none := hnone
    rw [javaMethDestroy, exec_bind, exec_get]
    dsimp only
    rw [hclass]
    rfl
  . intro s r hr hlive hweak
    have hclass : (s.meth m).classGlob = some r := hr
    have hdelete : exec (deleteWeakGlobalRef r) s = (.ok (), { s with live := s.live.erase r }) :=
      exec_deleteRef hlive hweak
    refine ⟨_, ?_, rfl, slot_setMeth { s with live := s.live.erase r } m
      { s.meth m with classGlob := none }, ?_, ?_⟩
    . rw [javaMethDestroy, exec_bind, exec_get]
      dsimp only
      rw [hclass]
      dsimp only
      rw [exec_bind, hdelete]
      rfl
    . intro n
      by_cases h : n = m
      . rw [h]
        simp [State.setMeth]
      . simp [State.setMeth, Function.update_of_ne, h]
    . intro n
      by_cases h : n = m
      . rw [h]
        simp [State.setMeth]
      . simp [State.setMeth, Function.update_of_ne, h]

end Library

end Ddwaf
