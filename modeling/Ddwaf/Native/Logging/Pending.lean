import Ddwaf.Native.Jni.Lemmas
import Ddwaf.Native.Logging.Impl

open Program

namespace Ddwaf

def JThread.isAttached : JThread → Bool
  | .detached _ => false
  | .attached _ => true

namespace Jni

variable (jvm : Jvm) {E : Exit → JniState → Prop}

theorem Never.stopsWith {α : Type} {x : Jni α} {Q : JniState → α → JniState → Prop}
    (h : ∀ s, Ensures x s (Q s) Never) : StopsWith E x :=
  Ensures.stopsWith h fun _ _ hE => hE.elim

theorem addArrElem_onlyNull : StopsWith OnlyNull (addArrElem jvm) := by
  apply StopsWith.bind (checked_onlyNull (call_ensures jvm .setObjectArrayElement))
  intro _
  exact StopsWith.pure ()

theorem make_onlyNull {α : Type} (function : Function) (object : Nat → α) :
    StopsWith OnlyNull (make jvm function object) :=
  Ensures.stopsWith (make_ensures jvm function object) fun _ _ he => he.1

theorem logMessage_onlyNull (message : List UInt8) : StopsWith OnlyNull (logMessage jvm message) := by
  apply StopsWith.bind (javaUtf8ToJstringChecked_onlyNull jvm message)
  intro _
  apply StopsWith.bind (make_onlyNull jvm .newStringUtf id)
  intro _
  apply StopsWith.bind (make_onlyNull jvm .newStringUtf id)
  intro _
  apply StopsWith.bind (make_onlyNull jvm .newStringUtf id)
  intro _
  apply StopsWith.bind (make_onlyNull jvm .newObjectArray id)
  intro _
  apply StopsWith.bind (addArrElem_onlyNull jvm)
  intro _
  apply StopsWith.bind (addArrElem_onlyNull jvm)
  intro _
  apply StopsWith.bind (addArrElem_onlyNull jvm)
  intro _
  apply StopsWith.bind (addArrElem_onlyNull jvm)
  intro _
  exact call_ensures jvm .callMethod

theorem logInEnv_ensures (message : List UInt8) (s : JniState) :
    Ensures (logInEnv jvm message) s (fun _ s' => s'.pending = s.pending) Never := by
  apply Ensures.bind (Ensures.of_ok (exec_takePending s) (Q := fun exc _ => exc = s.pending) rfl)
  intro prevThr s₁ hprev
  apply Ensures.bind (orNull_ensures_never (logMessage_onlyNull jvm message s₁))
  intro _ s₂ _
  apply Ensures.bind (Ensures.of_ok (exec_setPending none s₂) (Q := fun _ s => s.pending = none) rfl)
  intro _ s₃ hs₃
  rw [← hprev]
  exact throwRef_ensures hs₃

theorem exec_logInEnv (message : List UInt8) (s : JniState) :
    ∃ s', exec (logInEnv jvm message) s = (.ok (), s') ∧ s'.pending = s.pending := by
  have ⟨_, s', hexec, hpending⟩ := returns_of_never (logInEnv_ensures jvm message s)
  exact ⟨s', hexec, hpending⟩

theorem attachVm_spec (thread : JThread) :
    ((attachVm jvm thread).2.pending = thread.pending) ∧
      ((attachVm jvm thread).1 = none →
        (attachVm jvm thread).2.isAttached = thread.isAttached) ∧
      ∀ env attached, (attachVm jvm thread).1 = some (env, attached) →
        env.pending = thread.pending ∧ attached = !thread.isAttached := by
  cases thread with
  | attached env =>
    cases h : jvm.outcome .getEnv env.calls <;>
      simp [attachVm, h, JThread.pending, JThread.isAttached]
  | detached calls =>
    cases h : jvm.outcome .getEnv calls <;>
      cases h' : jvm.outcome .attachCurrentThread (calls + 1) <;>
      simp [attachVm, h, h', JThread.pending, JThread.isAttached]

theorem wafLoggingCThrowable_spec (message : List UInt8) (thread : JThread) :
    ∃ thread', wafLoggingCThrowable jvm message thread = (.ok (), thread') ∧
      thread'.pending = thread.pending ∧ thread'.isAttached = thread.isAttached := by
  have ⟨hpending, hfailed, hattached⟩ := attachVm_spec jvm thread
  unfold wafLoggingCThrowable
  cases h : attachVm jvm thread with
  | mk r thread' =>
    rw [h] at hpending hfailed hattached
    cases r with
    | none => exact ⟨thread', rfl, hpending, hfailed rfl⟩
    | some r =>
      have ⟨env, attached⟩ := r
      have ⟨henv, hdetach⟩ := hattached env attached rfl
      have ⟨env', hlog, hkept⟩ := exec_logInEnv jvm (message.takeWhile (· ≠ 0)) env
      simp only [hlog, hdetach]
      cases thread with
      | attached => exact ⟨.attached env', rfl, hkept.trans henv, rfl⟩
      | detached => exact ⟨detachVm env', rfl, rfl, rfl⟩

theorem onThread_ensures (message : List UInt8) (s : JniState) :
    Ensures (onThread (wafLoggingCThrowable jvm message)) s (fun _ s' => s'.pending = s.pending)
      Never := by
  have ⟨thread', hlog, hpending, hattached⟩ := wafLoggingCThrowable_spec jvm message (.attached s)
  cases thread' with
  | detached calls => simp [JThread.isAttached] at hattached
  | attached env' =>
    have hexec : exec (onThread (wafLoggingCThrowable jvm message)) s = (.ok (), env') := by
      rw [onThread, exec_ofExec, hlog]
    exact Ensures.of_ok hexec hpending

theorem javaLog_ensures (level : DdwafLogLevel) (message : String) (s : JniState) :
    Ensures (javaLog jvm level message) s (fun _ s' => s'.pending = s.pending) Never := by
  unfold javaLog
  split
  . apply Ensures.bind (succeeds_ensures jvm .vasprintf s)
    intro enough s' hs'
    cases enough with
    | true =>
      rw [← hs']
      exact onThread_ensures jvm (cstr message) s'
    | false => exact Ensures.pure hs'
  . exact Ensures.pure rfl

theorem finalMsg_ensures (place : Place) (userMsg : List UInt8) (s : JniState) :
    Ensures (finalMsg jvm place userMsg) s (fun _ s' => s'.pending = s.pending)
      (fun e s' => e = .null ∧ s'.pending = s.pending) := by
  apply Ensures.bind (require_ensures jvm .asprintf s)
  intro _ s₁ hs₁
  rw [← hs₁]
  apply Ensures.bind (require_ensures jvm .vasprintf s₁)
  intro _ s₂ hs₂
  rw [← hs₂]
  apply Ensures.bind (require_ensures jvm .malloc s₂)
  intro _ s₃ hs₃
  exact Ensures.pure hs₃

def Wraps (e : JThrowable) (s : JniState) : Prop :=
  ∃ e', s.pending = some e' ∧ (e' = e ∨ e'.cause = some e)

theorem Wraps.ne_none {e : JThrowable} {s : JniState} (h : Wraps e s) : s.pending ≠ none := by
  have ⟨e', he', _⟩ := h
  rw [he']
  simp

theorem abortWrapping_ensures (e : JThrowable) (s : JniState) :
    Ensures (abortWrapping e) s (fun _ s' => Wraps e s') Never := by
  apply Ensures.bind (Ensures.of_ok (exec_setPending none s) (Q := fun _ _ => True) trivial)
  intro _ s' _
  exact (throwRef_some_ensures e s').mono (fun _ _ hs => ⟨e, hs, .inl rfl⟩) fun _ _ hE => hE

variable {jvm}

theorem wrap_ensures (hjvm : jvm.NewObjectThrows) (finalMsg : List UInt8) (e : JThrowable)
    (s : JniState) : Ensures (wrap jvm finalMsg e) s (fun _ s' => Wraps e s') Never := by
  apply Ensures.bind (Ensures.of_ok (exec_setPending none s) (Q := fun _ _ => True) trivial)
  intro _ s₁ _
  apply Ensures.bind (orNull_ensures_never (javaUtf8ToJstringChecked_onlyNull jvm finalMsg s₁))
  intro messageObj s₂ _
  apply exceptionCheck_bind
  . intro _
    exact abortWrapping_ensures e s₂
  . intro _
    have hmake := make_ensures jvm .newObject (fun n => JThrowable.caused n messageObj e) s₂
    apply Ensures.bind ((orNull_ensures hmake).mono_error fun _ _ hE => hE.2 hE.1.1)
    intro newThrowable s₃ hnew
    apply exceptionCheck_bind
    . intro _
      exact abortWrapping_ensures e s₃
    . intro hs₃
      cases newThrowable with
      | none =>
        rcases hnew.2 with hs | ⟨n, hn⟩
        . exact absurd hs₃ hs
        . exact absurd hn (hjvm n)
      | some t =>
        have ⟨n, hn⟩ := hnew
        subst hn
        exact (throwRef_some_ensures _ s₃).mono (fun _ _ hs => ⟨_, hs, .inr rfl⟩) fun _ _ hE => hE

theorem javaWrapExcRelay_ensures (hjvm : jvm.NewObjectThrows) (place : Place) (userMsg : List UInt8)
    {e : JThrowable} {s : JniState} (hs : s.pending = some e) :
    Ensures (javaWrapExcRelay jvm place userMsg) s (fun _ s' => Wraps e s') Never := by
  have hkept : Wraps e s := ⟨e, hs, .inl rfl⟩
  unfold javaWrapExcRelay
  split
  . exact Ensures.pure hkept
  . apply Ensures.bind (Ensures.of_ok (exec_exceptionOccurred s)
      (Q := fun exc s' => exc = some e ∧ s'.pending = some e) ⟨hs, hs⟩)
    intro exc s₁ hexc
    rw [hexc.1]
    have hmsg := finalMsg_ensures jvm place userMsg s₁
    apply Ensures.bind ((orNull_ensures hmsg).mono_error fun _ _ hE => hE.2 hE.1.1)
    intro msg s₂ hs₂
    cases msg with
    | none =>
      have hpending : s₂.pending = s₁.pending := hs₂.2
      exact Ensures.pure ⟨e, hpending.trans hexc.2, .inl rfl⟩
    | some msg => exact wrap_ensures hjvm msg e s₂

theorem javaWrapExc_null {α : Type} (hjvm : jvm.NewObjectThrows) (msg : String) {s : JniState}
    (hs : s.pending ≠ none) :
    Ensures (do javaWrapExc jvm msg; null : Jni α) s (fun _ _ => True) NullPending := by
  have ⟨e, he⟩ := Option.ne_none_iff_exists'.mp hs
  apply Ensures.bind ((javaWrapExcRelay_ensures hjvm (jvm.place msg) (cstr msg) he).mono
    (fun _ _ hQ => hQ) fun _ _ hE => hE.elim)
  intro _ s' hs'
  exact Ensures.throw hs'.ne_none

end Jni

end Ddwaf
