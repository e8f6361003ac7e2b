import Ddwaf.Native.Logging.Pending
import Ddwaf.Native.Utf16Utf8.Ascii
import Ddwaf.WafContext.Pending.Impl

/-!
This module contains what the functions on top of JNI do when no call fails: they end like the ones
that have no state.
-/

open Program

namespace Ddwaf

def wrapMsg (jvm : Jvm) (msg : String) : List UInt8 :=
  cstr msg ++ [0x20] ++ Jni.epilog (jvm.place msg)

/--
No call fails, and exceptions can be wrapped. What is said is no longer than a Java string, which is
left to the message and to the place in equal parts.
-/
structure Jvm.Succeeds (jvm : Jvm) : Prop where
  outcome : ∀ function n, jvm.outcome function n = .success
  alloc : ∀ n, jvm.alloc n = .total
  rteConstrCause : jvm.rteConstrCause = true
  jclsRte : jvm.jclsRte = true
  epilog : ∀ msg, (Jni.epilog (jvm.place msg)).length < 2 ^ 30

abbrev IsShort (msg : String) : Prop := (cstr msg).length < 2 ^ 30

theorem Jvm.Succeeds.wrapMsg {jvm : Jvm} (h : jvm.Succeeds) {msg : String} (hmsg : IsShort msg) :
    (wrapMsg jvm msg).length ≤ intMax := by
  have hepilog := h.epilog msg
  unfold IsShort at hmsg
  simp only [Ddwaf.wrapMsg, List.length_append, List.length_singleton, intMax]
  omega

def JMethod.Makes (Q : α → Prop) : JMethod α → Prop
  | .uninitialized => False
  | .static method => ∀ n, ∃ a, method n = .ok a ∧ Q a
  | .nonVirtual method => ∀ n, ∃ a, method n = .ok a ∧ Q a
  | .constructor object => ∀ n, Q (object n)
  | .virtual method => ∀ n, ∃ a, method n = .ok a ∧ Q a

namespace Jni

/--
The object that is thrown for a stop. An exception that is made of an error code may be one that
says that it cannot be made, and one that wraps another says where it was thrown, too.
-/
inductive Thrown (jvm : Jvm) : JThrowable → RunStop → Prop where
  | other (id : Nat) (exc : Throwable) : Thrown jvm (.other id exc) (.thrown exc)
  | timeout (id : Nat) : Thrown jvm (.waf id .timeout) (.waf .timeout)
  | made (id : Nat) (h : createFromErrorCode code = .ok exc) :
    Thrown jvm (.waf id exc) (.waf (.ofErrorCode code))
  | unmade (id : Nat) (h : createFromErrorCode code = .error exc) :
    Thrown jvm (.other id exc) (.waf (.ofErrorCode code))
  | caused (id : Nat) (msg : String) (cause : JThrowable) :
    Thrown jvm (.caused id (some (jstringOf (wrapMsg jvm msg))) cause) (rte msg)

def Stopped (jvm : Jvm) : Exit → JniState → RunStop → Prop
  | .null, s, stop => ∃ exc, s.pending = some exc ∧ Thrown jvm exc stop
  | .stopped stop, _, stop' => stop' = .crashed stop

def Ready (s : JniState) : Prop := s.pending = none

variable {α β γ δ : Type} {jvm : Jvm}

/-- The function ends like `y`, of which `f` says what a run makes of its errors. -/
abbrev Like (jvm : Jvm) (f : δ → RunStop) (R : α → β → Prop) (x : Jni α) (y : Except δ β) : Prop :=
  Simulates Ready (fun e s d => Stopped jvm e s (f d)) R x y

theorem orNull_like {f : δ → RunStop} {R : α → β → Prop} {x : Jni α} {b : β}
    (hx : Like jvm f R x (.ok b)) :
    Like jvm f (fun a b => ∃ a', a = some a' ∧ R a' b) (orNull x) (.ok b) := by
  intro s hs
  have h := hx s hs
  rw [exec_orNull]
  generalize exec x s = r at h ⊢
  cases h with
  | ok hI hR => exact .ok hI ⟨_, rfl, hR⟩

section Calls

variable (hjvm : jvm.Succeeds) {f : δ → RunStop} {b : β}
include hjvm

theorem answer_like (function : Function) :
    Like jvm f (fun a (_ : β) => a.2 = .success) (answer jvm function) (.ok b) := by
  apply Simulates.of_ok
  intro s hs
  exact ⟨_, _, exec_answer jvm function s, hs, hjvm.outcome function s.calls⟩

theorem succeeds_like (function : Function) :
    Like jvm f (fun a (_ : β) => a = true) (succeeds jvm function) (.ok b) := by
  apply Simulates.step (answer_like hjvm function (b := ()))
  intro ⟨n, outcome⟩ houtcome
  cases houtcome
  exact Simulates.pure rfl

theorem require_like (function : Function) :
    Like jvm f (fun _ (_ : β) => True) (require jvm function) (.ok b) := by
  apply Simulates.step (succeeds_like hjvm function (b := ()))
  intro enough henough
  cases henough
  exact Simulates.pure trivial

theorem make_like (function : Function) (object : Nat → α) :
    Like jvm f (fun a (_ : β) => ∃ n, a = object n) (make jvm function object) (.ok b) := by
  apply Simulates.step (answer_like hjvm function (b := ()))
  intro ⟨n, outcome⟩ houtcome
  cases houtcome
  exact Simulates.pure ⟨n, rfl⟩

theorem call_like (function : Function) :
    Like jvm f (fun _ (_ : β) => True) (call jvm function) (.ok b) := by
  apply Simulates.step (answer_like hjvm function (b := ()))
  intro ⟨n, outcome⟩ houtcome
  cases houtcome
  exact Simulates.pure trivial

theorem exec_throwNew (exc : Throwable) (s : JniState) :
    exec (throwNew jvm exc) s = (.ok (), ⟨some (.other s.calls exc), s.calls + 1⟩) := by
  rw [throwNew, exec_bind, exec_answer, hjvm.outcome]
  rfl

theorem throwNew_null_like {R : α → β → Prop} (exc : Throwable) {d : δ} (hd : f d = .thrown exc) :
    Like jvm f R (do throwNew jvm exc; null) (.error d) := by
  intro s _
  rw [exec_bind, exec_throwNew hjvm]
  apply EndsLike.error
  rw [hd]
  exact ⟨_, rfl, .other s.calls exc⟩

theorem callMethod_like {method : Nat → Except Throwable α} {Q : α → Prop}
    (h : ∀ n, ∃ a, method n = .ok a ∧ Q a) :
    Like jvm f (fun a (_ : β) => Q a) (callMethod jvm method) (.ok b) := by
  apply Simulates.step (answer_like hjvm .callMethod (b := ()))
  intro ⟨n, outcome⟩ houtcome
  cases houtcome
  have ⟨a, ha, hQ⟩ := h n
  simp only [ha]
  exact Simulates.pure hQ

theorem ofExcept_like (x : Except Throwable α) :
    Like jvm RunStop.thrown (· = ·) (ofExcept jvm x) x := by
  cases x with
  | ok a => exact Simulates.pure rfl
  | error exc => exact throwNew_null_like hjvm exc rfl

theorem ofNative_like (x : Native α) : Like jvm RunStop.ofNative (· = ·) (ofNative jvm x) x := by
  cases x with
  | ok a => exact Simulates.pure rfl
  | error stop =>
    cases stop with
    | thrown exc => exact throwNew_null_like hjvm exc rfl
    | outOfBounds => exact fun _ _ => .error rfl
    | useAfterFree => exact fun _ _ => .error rfl
    | overlap => exact fun _ _ => .error rfl
    | diverges => exact fun _ _ => .error rfl

theorem classStrongref_like :
    Like jvm f (fun _ (_ : β) => True) (javaMethCall.classStrongref jvm) (.ok b) := by
  apply Simulates.step (orNull_like (make_like hjvm .newLocalRef id (b := ())))
  intro ref href
  have ⟨_, href, _⟩ := href
  rw [href]
  exact Simulates.pure trivial

theorem javaMethCall_like {m : JMethod α} {Q : α → Prop} (h : m.Makes Q) :
    Like jvm f (fun a (_ : β) => Q a) (javaMethCall jvm m) (.ok b) := by
  cases m with
  | uninitialized => exact h.elim
  | «static» method =>
    exact Simulates.step (classStrongref_like hjvm (b := ())) fun _ _ => callMethod_like hjvm h
  | nonVirtual method =>
    exact Simulates.step (classStrongref_like hjvm (b := ())) fun _ _ => callMethod_like hjvm h
  | constructor object =>
    apply Simulates.step (classStrongref_like hjvm (b := ()))
    intro _ _
    apply Simulates.value (make_like hjvm .newObject object (b := ()))
    intro a ⟨n, hn⟩
    rw [hn]
    exact h n
  | virtual method => exact callMethod_like hjvm h

theorem makeJstring_like (convert : Alloc → Native (List UInt16)) :
    Like jvm RunStop.ofNative (· = ·) (makeJstring jvm convert) (convert .total) := by
  apply Simulates.step (succeeds_like hjvm .malloc (b := ()))
  intro malloc hmalloc
  have halloc : (fun n => decide (n ≠ 0) || malloc) = Alloc.total := by
    funext n
    simp [hmalloc, Alloc.total]
  rw [halloc]
  apply Simulates.more (ofNative_like hjvm _)
  intro out _ hout
  apply Simulates.value (make_like hjvm .newString (fun _ => out) (b := ()))
  rintro a ⟨_, ha⟩
  rw [ha, hout]

theorem javaUtf8ToJstringChecked_like (input : List UInt8) :
    Like jvm RunStop.ofNative (· = ·) (javaUtf8ToJstringChecked jvm input)
      (Ddwaf.javaUtf8ToJstringChecked .total input) :=
  makeJstring_like hjvm _

theorem javaJsonToJstringChecked_like (seg : List JsonSegment) :
    Like jvm RunStop.ofNative (· = ·) (javaJsonToJstringChecked jvm seg)
      (Ddwaf.javaJsonToJstringChecked .total seg) :=
  makeJstring_like hjvm _

end Calls

theorem javaLog_like {f : δ → RunStop} {b : β} (level : DdwafLogLevel) (message : String) :
    Like jvm f (fun _ (_ : β) => True) (javaLog jvm level message) (.ok b) := by
  apply Simulates.of_ensures
  intro s hs
  apply (javaLog_ensures jvm level message s).mono _ fun _ _ hE => hE
  intro _ s' hs'
  exact ⟨hs'.trans hs, trivial⟩

theorem Ready.isSome {s : JniState} (h : Ready s) : s.pending.isSome = false := by
  rw [show s.pending = none from h]
  rfl

theorem Stopped.isSome {s : JniState} {stop : RunStop} (h : Stopped jvm .null s stop) :
    s.pending.isSome = true := by
  have ⟨exc, hexc, _⟩ := h
  rw [hexc]
  rfl

section Checked

theorem exec_nullIfPending (s : JniState) :
    exec nullIfPending s = if s.pending.isSome then (.error .null, s) else (.ok (), s) := by
  rw [nullIfPending, exec_bind, exec_exceptionCheck]
  cases s.pending with
  | none => rfl
  | some exc => rfl

theorem exec_checked (x : Jni α) (s : JniState) :
    exec (checked x) s =
      match exec (orNull x) s with
      | (.ok a, s') => if s'.pending.isSome then (.error .null, s') else (.ok a, s')
      | (.error e, s') => (.error e, s') := by
  rw [checked, exec_bind]
  cases exec (orNull x) s with
  | mk r s' =>
    cases r with
    | error e => rfl
    | ok a =>
      simp only [exec_bind, exec_nullIfPending]
      cases s'.pending with
      | none => rfl
      | some exc => rfl

theorem checked_like {f : δ → RunStop} {R : α → β → Prop} {x : Jni α} {y : Except δ β}
    (hx : Like jvm f R x y) :
    Like jvm f (fun a b => ∃ a', a = some a' ∧ R a' b) (checked x) y := by
  intro s hs
  have h := hx s hs
  rw [exec_checked, exec_orNull]
  generalize exec x s = r at h ⊢
  cases h with
  | ok hI hR =>
    simp only [hI.isSome]
    exact .ok hI ⟨_, rfl, hR⟩
  | @error e s' d hE =>
    cases e with
    | null =>
      simp only [hE.isSome]
      exact .error hE
    | stopped stop => exact .error hE

theorem checked_bind_like {α' β' : Type} {f : δ → RunStop} {R : α → β → Prop}
    {Q : Option α' → β' → Prop} {x : Jni α} {y : Except δ β} {k : α → Jni α'} {g : β → Except δ β'}
    (hx : Like jvm f R x y) (hk : ∀ a b, R a b → Like jvm f Q (checked (k a)) (g b)) :
    Like jvm f Q (checked (x >>= k)) (y >>= g) := by
  intro s hs
  have h := hx s hs
  rw [exec_checked, exec_orNull, exec_bind]
  generalize exec x s = r at h ⊢
  cases h with
  | @ok s' a b hI hR =>
    have hrest := hk a b hR s' hI
    rw [exec_checked, exec_orNull] at hrest
    exact hrest
  | @error e s' d hE =>
    cases e with
    | null =>
      simp only [hE.isSome]
      exact .error hE
    | stopped stop => exact .error hE

theorem checked_step_like {α' β' : Type} {f : δ → RunStop} {Q : α → Prop}
    {R : Option α' → β' → Prop} {x : Jni α} {y : Except δ β'} {k : α → Jni α'}
    (hx : Like jvm f (fun a _ => Q a) x (.ok ()))
    (hk : ∀ a, Q a → Like jvm f R (checked (k a)) y) : Like jvm f R (checked (x >>= k)) y :=
  checked_bind_like hx (g := fun _ => y) fun a _ ha => hk a ha

theorem checked_null_like {f : δ → RunStop} {R : Option α → β → Prop} {b : β} (h : R none b) :
    Like jvm f R (checked null) (.ok b) := by
  intro s hs
  rw [exec_checked, exec_orNull]
  simp only [null, exec_throw, hs.isSome]
  exact .ok hs h

end Checked

section Wrap

theorem exceptionCheck_ready {x y : Jni α} {s : JniState} {Q : α → JniState → Prop}
    {E : Exit → JniState → Prop} (hs : Ready s) (hy : Ensures y s Q E) :
    Ensures (do if ← exceptionCheck then x else y) s Q E :=
  exceptionCheck_bind (fun h => absurd hs h) fun _ => hy

theorem javaUtf8ToJstringChecked_of_length {input : List UInt8} (h : input.length ≤ intMax) :
    Ddwaf.javaUtf8ToJstringChecked .total input = .ok (jstringOf input) := by
  have hunits := jstringUnits_decode_length_le input
  unfold intMax at h
  apply javaUtf8ToJstringChecked_of_converted
  . unfold sizeMax
    omega
  . unfold intMax jstringOf
    omega

variable (hjvm : jvm.Succeeds)
include hjvm

theorem exec_require (function : Function) (s : JniState) :
    exec (require jvm function) s = (.ok (), { s with calls := s.calls + 1 }) := by
  rw [require, succeeds, exec_bind, exec_bind, exec_answer, hjvm.outcome]
  rfl

theorem exec_finalMsg (place : Place) (userMsg : List UInt8) (s : JniState) :
    exec (finalMsg jvm place userMsg) s =
      (.ok (userMsg ++ [0x20] ++ epilog place), { s with calls := s.calls + 3 }) := by
  simp only [finalMsg, exec_bind, exec_require hjvm, exec_pure]

def Wrapped (jvm : Jvm) (msg : String) (exc : JThrowable) (s : JniState) : Prop :=
  ∃ n, s.pending = some (.caused n (some (jstringOf (wrapMsg jvm msg))) exc)

theorem wrap_wrapped {msg : String} (hmsg : IsShort msg) (exc : JThrowable) (s : JniState) :
    Ensures (wrap jvm (wrapMsg jvm msg) exc) s (fun _ => Wrapped jvm msg exc) Never := by
  apply Ensures.bind (Ensures.of_ok (exec_setPending none s) (Q := fun _ s => Ready s) rfl)
  intro _ s₁ hs₁
  have hmessage := javaUtf8ToJstringChecked_like hjvm (wrapMsg jvm msg)
  rw [javaUtf8ToJstringChecked_of_length (hjvm.wrapMsg hmsg)] at hmessage
  apply Ensures.bind ((orNull_like hmessage).ensures hs₁)
  intro messageObj s₂ ⟨hs₂, message, hsome, hmessage⟩
  rw [hsome, hmessage]
  apply exceptionCheck_ready hs₂
  have hmake := make_like hjvm .newObject (f := id) (b := ())
    fun n => JThrowable.caused n (some (jstringOf (wrapMsg jvm msg))) exc
  apply Ensures.bind ((orNull_like hmake).ensures hs₂)
  intro newThrowable s₃ ⟨hs₃, throwable, hsome, n, hn⟩
  rw [hsome, hn]
  apply exceptionCheck_ready hs₃
  exact (throwRef_some_ensures _ s₃).mono (fun _ _ hs => ⟨n, hs⟩) fun _ _ hE => hE

theorem javaWrapExc_wrapped {msg : String} (hmsg : IsShort msg) {exc : JThrowable} {s : JniState}
    (hs : s.pending = some exc) :
    Ensures (javaWrapExc jvm msg) s (fun _ => Wrapped jvm msg exc) Never := by
  unfold javaWrapExc javaWrapExcRelay
  rw [hjvm.rteConstrCause, hjvm.jclsRte]
  apply Ensures.bind (Ensures.of_ok (exec_exceptionOccurred s)
    (Q := fun exc' _ => exc' = some exc) hs)
  intro exc' s₁ hexc
  rw [hexc]
  apply Ensures.bind (Q := fun final _ => final = some (wrapMsg jvm msg))
  . have hfinal := exec_orNull (finalMsg jvm (jvm.place msg) (cstr msg)) s₁
    rw [exec_finalMsg hjvm] at hfinal
    exact Ensures.of_ok hfinal rfl
  . intro final s₂ hfinal
    rw [hfinal]
    exact wrap_wrapped hjvm hmsg exc s₂

theorem javaWrapExc_null_stopped {msg : String} (hmsg : IsShort msg) {exc : JThrowable} {s : JniState}
    (hs : s.pending = some exc) :
    Ensures (do javaWrapExc jvm msg; null : Jni α) s (fun _ _ => False)
      fun e s => Stopped jvm e s (rte msg) := by
  apply Ensures.bind ((javaWrapExc_wrapped hjvm hmsg hs).mono_error fun _ _ hE => hE.elim)
  intro _ s' ⟨n, hn⟩
  exact Ensures.throw ⟨_, hn, .caused n msg exc⟩

theorem javaWrapExc_null_like {msg : String} (hmsg : IsShort msg) {R : α → β → Prop} {s : JniState} {stop : Stop}
    (hE : Stopped jvm .null s (.ofNative stop)) :
    EndsLike Ready (fun e s d => Stopped jvm e s (RunStop.ofNative d)) R
      (exec (do javaWrapExc jvm msg; null : Jni α) s) (Ddwaf.javaWrapExc msg (.error stop)) := by
  have ⟨exc, hexc, hthrown⟩ := hE
  cases stop with
  | thrown exc' => exact EndsLike.of_ensures (javaWrapExc_null_stopped hjvm hmsg hexc)
  | outOfBounds => cases hthrown
  | useAfterFree => cases hthrown
  | overlap => cases hthrown
  | diverges => cases hthrown

omit hjvm in
theorem javaWrapExc_stopped_like (msg : String) {R : α → β → Prop} {s : JniState} {stop stop' : Stop}
    (hE : Stopped jvm (.stopped stop') s (.ofNative stop)) :
    EndsLike Ready (fun e s d => Stopped jvm e s (RunStop.ofNative d)) R
      (.error (.stopped stop'), s) (Ddwaf.javaWrapExc msg (.error stop)) := by
  cases stop with
  | thrown exc' => cases hE
  | outOfBounds => exact .error hE
  | useAfterFree => exact .error hE
  | overlap => exact .error hE
  | diverges => exact .error hE

theorem orWrap_like {msg : String} (hmsg : IsShort msg) {R : α → β → Prop} {x : Jni α} {y : Native β}
    (hx : Like jvm RunStop.ofNative R x y) :
    Like jvm RunStop.ofNative R (orWrap jvm msg x) (Ddwaf.javaWrapExc msg y) := by
  intro s hs
  have h := hx s hs
  rw [orWrap, exec_bind, exec_orNull]
  generalize exec x s = r at h ⊢
  cases h with
  | ok hI hR => exact .ok hI hR
  | @error e s' stop hE =>
    cases e with
    | null => exact javaWrapExc_null_like hjvm hmsg hE
    | stopped stop' => exact javaWrapExc_stopped_like msg hE

theorem wrapIfPending_like {msg : String} (hmsg : IsShort msg) {R : α → β → Prop} {x : Jni α} {y : Native β}
    (hx : Like jvm RunStop.ofNative R x y) :
    Like jvm RunStop.ofNative (fun a b => ∃ a', a = some a' ∧ R a' b)
      (do
        let a ← orNull x
        if ← exceptionCheck then
          javaWrapExc jvm msg
          null
        else
          return a)
      (Ddwaf.javaWrapExc msg y) := by
  intro s hs
  have h := hx s hs
  rw [exec_bind, exec_orNull]
  generalize exec x s = r at h ⊢
  cases h with
  | ok hI hR =>
    simp only [exec_bind, exec_exceptionCheck, hI.isSome]
    exact .ok hI ⟨_, rfl, hR⟩
  | @error e s' stop hE =>
    cases e with
    | null =>
      dsimp only
      rw [exec_bind, exec_exceptionCheck, hE.isSome]
      exact javaWrapExc_null_like hjvm hmsg hE
    | stopped stop' => exact javaWrapExc_stopped_like msg hE

end Wrap

end Jni

end Ddwaf
