import Ddwaf.Native.Jni.Impl
import Ddwaf.Native.Utf16Utf8.Lemmas.Checked

open Program

namespace Ddwaf

/-- An object is NULL only with an exception: `NewObject` throws when it returns NULL. -/
def Jvm.NewObjectThrows (jvm : Jvm) : Prop := ∀ n, jvm.outcome .newObject n ≠ .null

namespace Jni

variable {α : Type} {E : Exit → JniState → Prop}

def NullPending : Exit → JniState → Prop
  | .null, s => s.pending ≠ none
  | .stopped _, _ => True

def OnlyNull (e : Exit) (_ : JniState) : Prop := e = .null

def Never (_ : Exit) (_ : JniState) : Prop := False

theorem returns_of_never {x : Jni α} {s : JniState} {Q : α → JniState → Prop}
    (h : Ensures x s Q Never) : ∃ a s', exec x s = (.ok a, s') ∧ Q a s' := by
  cases hexec : exec x s with
  | mk r s' =>
    cases r with
    | ok a => exact ⟨a, s', rfl, h.ok a s' hexec⟩
    | error e => exact (h.error e s' hexec).elim

abbrev Checked (x : Jni α) : Prop := StopsWith NullPending x

theorem exec_orNull (x : Jni α) (s : JniState) :
    exec (orNull x) s =
      match exec x s with
      | (.ok a, s') => (.ok (some a), s')
      | (.error .null, s') => (.ok none, s')
      | (.error (.stopped stop), s') => (.error (.stopped stop), s') := by
  rw [orNull, exec_tryCatch, exec_bind]
  cases h : exec x s with
  | mk r s' =>
    cases r with
    | ok a => rfl
    | error e => cases e <;> rfl

def OrNull (Q : α → JniState → Prop) (E : Exit → JniState → Prop) : Option α → JniState → Prop
  | some a, s => Q a s
  | none, s => E .null s

def OnlyStopped (E : Exit → JniState → Prop) (e : Exit) (s : JniState) : Prop :=
  E e s ∧ e ≠ .null

theorem orNull_ensures {x : Jni α} {s : JniState} {Q : α → JniState → Prop} (h : Ensures x s Q E) :
    Ensures (orNull x) s (OrNull Q E) (OnlyStopped E) := by
  have hexec := exec_orNull x s
  cases hx : exec x s with
  | mk r s' =>
    rw [hx] at hexec
    cases r with
    | ok a => exact Ensures.of_ok hexec (h.ok a s' hx)
    | error e =>
      have hE := h.error e s' hx
      cases e with
      | null => exact Ensures.of_ok hexec hE
      | stopped stop => exact Ensures.of_error hexec ⟨hE, by simp⟩

theorem orNull_ensures_never {x : Jni α} {s : JniState} {Q : α → JniState → Prop}
    (h : Ensures x s Q OnlyNull) : Ensures (orNull x) s (OrNull Q OnlyNull) Never := by
  apply (orNull_ensures h).mono_error
  intro e s' hE
  exact hE.2 hE.1

theorem orNull_checked (x : Jni α) : Checked (orNull x) := by
  have hx : ∀ s, Ensures x s (fun _ _ => True) (fun _ _ => True) := fun s =>
    ⟨fun _ _ _ => trivial, fun _ _ _ => trivial⟩
  apply Ensures.stopsWith fun s => orNull_ensures (hx s)
  intro e s hE
  cases e with
  | null => exact absurd rfl hE.2
  | stopped stop => trivial

theorem exec_exceptionCheck (s : JniState) : exec exceptionCheck s = (.ok s.pending.isSome, s) := by
  rfl

theorem exec_exceptionOccurred (s : JniState) : exec exceptionOccurred s = (.ok s.pending, s) := by
  rfl

theorem exec_setPending (exc : Option JThrowable) (s : JniState) :
    exec (setPending exc) s = (.ok ⟨⟩, { s with pending := exc }) := by
  rfl

theorem exec_takePending (s : JniState) :
    exec takePending s = (.ok s.pending, { s with pending := none }) := by
  rfl

theorem throwRef_ensures {exc : Option JThrowable} {s : JniState} (hs : s.pending = none) :
    Ensures (throwRef exc) s (fun _ s' => s'.pending = exc) E := by
  cases exc with
  | none => exact Ensures.pure hs
  | some exc => exact Ensures.of_ok (exec_setPending _ _) rfl

theorem throwRef_some_ensures (exc : JThrowable) (s : JniState) :
    Ensures (throwRef (some exc)) s (fun _ s' => s'.pending = some exc) E :=
  Ensures.of_ok (exec_setPending _ _) rfl

theorem exceptionCheck_bind {x y : Jni α} {s : JniState} {Q : α → JniState → Prop}
    (hx : s.pending ≠ none → Ensures x s Q E) (hy : s.pending = none → Ensures y s Q E) :
    Ensures (do if ← exceptionCheck then x else y) s Q E := by
  apply Ensures.bind (Q := fun b s' => b = s.pending.isSome ∧ s' = s)
  . exact Ensures.of_ok (exec_exceptionCheck s) ⟨rfl, rfl⟩
  . intro b s' hb
    rw [hb.1, hb.2]
    cases hs : s.pending with
    | none => exact hy hs
    | some exc => exact hx (by simp [hs])

theorem nullIfPending_ensures (s : JniState) :
    Ensures nullIfPending s (fun _ s' => s' = s ∧ s.pending = none) NullPending := by
  apply exceptionCheck_bind
  . intro hs
    exact Ensures.throw hs
  . intro hs
    exact Ensures.pure ⟨rfl, hs⟩

theorem nullIfPending_checked : Checked nullIfPending :=
  Ensures.stopsWith nullIfPending_ensures fun _ _ hE => hE

theorem checked_checked (x : Jni α) : Checked (checked x) := by
  apply StopsWith.bind (orNull_checked x)
  intro a
  apply StopsWith.bind nullIfPending_checked
  intro _
  exact StopsWith.pure a

theorem checked_ensures {x : Jni α} (hx : Checked x) (s : JniState) :
    Ensures (checked x) s (fun a _ => a ≠ none) NullPending := by
  apply Ensures.bind ((orNull_ensures (hx s)).mono_error fun _ _ hE => hE.1)
  intro a s' ha
  apply Ensures.bind (nullIfPending_ensures s')
  intro _ s'' hs
  apply Ensures.pure
  intro hnone
  subst hnone
  exact ha hs.2

theorem nullIfPending_onlyNull : StopsWith OnlyNull nullIfPending := by
  intro s
  apply exceptionCheck_bind
  . intro _
    exact Ensures.throw rfl
  . intro _
    exact Ensures.pure trivial

theorem checked_onlyNull {x : Jni α} (hx : StopsWith OnlyNull x) : StopsWith OnlyNull (checked x) := by
  apply StopsWith.bind
  . intro s
    exact (orNull_ensures_never (hx s)).mono (fun _ _ _ => trivial) fun _ _ hE => hE.elim
  . intro a
    apply StopsWith.bind nullIfPending_onlyNull
    intro _
    exact StopsWith.pure a

section Calls

variable (jvm : Jvm)

theorem exec_answer (function : Function) (s : JniState) :
    exec (answer jvm function) s =
      (.ok (s.calls, jvm.outcome function s.calls), { s with calls := s.calls + 1 }) := by
  rfl

theorem exec_succeeds (function : Function) (s : JniState) :
    ∃ b, exec (succeeds jvm function) s = (.ok b, { s with calls := s.calls + 1 }) := by
  rw [succeeds, exec_bind, exec_answer]
  cases jvm.outcome function s.calls with
  | success => exact ⟨true, rfl⟩
  | null => exact ⟨false, rfl⟩
  | throws exc => exact ⟨false, rfl⟩

theorem succeeds_ensures (function : Function) (s : JniState) :
    Ensures (succeeds jvm function) s (fun _ s' => s'.pending = s.pending) E := by
  have ⟨b, hb⟩ := exec_succeeds jvm function s
  exact Ensures.of_ok hb rfl

theorem require_ensures (function : Function) (s : JniState) :
    Ensures (require jvm function) s (fun _ s' => s'.pending = s.pending)
      (fun e s' => e = .null ∧ s'.pending = s.pending) := by
  apply Ensures.bind (succeeds_ensures jvm function s)
  intro b s' hs
  cases b with
  | true => exact Ensures.pure hs
  | false => exact Ensures.throw ⟨rfl, hs⟩

theorem make_ensures (function : Function) (object : Nat → α) (s : JniState) :
    Ensures (make jvm function object) s (fun a _ => ∃ n, a = object n)
      (fun e s' => e = .null ∧ (s'.pending ≠ none ∨ ∃ n, jvm.outcome function n = .null)) := by
  have hexec : exec (make jvm function object) s = _ := exec_bind _ _ s
  rw [exec_answer] at hexec
  cases h : jvm.outcome function s.calls with
  | success =>
    rw [h] at hexec
    exact Ensures.of_ok hexec ⟨s.calls, rfl⟩
  | null =>
    rw [h] at hexec
    exact Ensures.of_error hexec ⟨rfl, .inr ⟨s.calls, h⟩⟩
  | throws exc =>
    rw [h] at hexec
    exact Ensures.of_error hexec ⟨rfl, .inl (by simp)⟩

theorem call_ensures (function : Function) (s : JniState) :
    Ensures (call jvm function) s (fun _ _ => True) E := by
  have hexec : exec (call jvm function) s = _ := exec_bind _ _ s
  rw [exec_answer] at hexec
  cases h : jvm.outcome function s.calls <;> rw [h] at hexec <;> exact Ensures.of_ok hexec trivial

theorem throwNew_ensures (exc : Throwable) (s : JniState) :
    Ensures (throwNew jvm exc) s (fun _ s' => s'.pending ≠ none) E := by
  have hexec : exec (throwNew jvm exc) s = _ := exec_bind _ _ s
  rw [exec_answer] at hexec
  cases h : jvm.outcome .throwNew s.calls <;> rw [h] at hexec <;>
    exact Ensures.of_ok hexec (by simp)

theorem throwNew_null (hE : ∀ s, s.pending ≠ none → E .null s) (exc : Throwable) :
    StopsWith E (do throwNew jvm exc; null : Jni α) := by
  intro s
  apply Ensures.bind (throwNew_ensures jvm exc s)
  intro _ s' hs
  exact Ensures.throw (hE s' hs)

theorem callMethod_ensures (method : Nat → Except Throwable α) (s : JniState) :
    Ensures (callMethod jvm method) s (fun a _ => ∃ n, method n = .ok a)
      (fun e s' => e = .null ∧ s'.pending ≠ none) := by
  apply Ensures.bind (Ensures.of_ok (exec_answer jvm .callMethod s) (Q := fun _ _ => True) trivial)
  rintro ⟨n, outcome⟩ s' -
  have hthrows (exc : JThrowable) : Ensures (do setPending (some exc); null : Jni α) s'
      (fun a _ => ∃ n, method n = .ok a) (fun e s' => e = .null ∧ s'.pending ≠ none) :=
    Ensures.of_error (exec_bind _ _ s') ⟨rfl, by simp⟩
  cases h : method n with
  | ok a =>
    have hreturns : Ensures (return a : Jni α) s' (fun a _ => ∃ n, method n = .ok a)
        (fun e s' => e = .null ∧ s'.pending ≠ none) :=
      Ensures.pure ⟨n, h⟩
    cases outcome with
    | success => simpa only [h] using hreturns
    | null => simpa only [h] using hreturns
    | throws exc => exact hthrows exc
  | error exc' =>
    cases outcome with
    | success => simpa only [h] using hthrows (.other n exc')
    | null => simpa only [h] using hthrows (.other n exc')
    | throws exc => exact hthrows exc

theorem ofNative_returnsOrThrows (hE : ∀ s, s.pending ≠ none → E .null s) {x : Native α}
    (hx : ReturnsOrThrows x) : StopsWith E (ofNative jvm x) := by
  rcases hx with ⟨a, rfl⟩ | ⟨exc, rfl⟩
  . exact StopsWith.pure a
  . exact throwNew_null jvm hE exc

theorem ofNative_checked (x : Native α) : Checked (ofNative jvm x) := by
  cases x with
  | ok a => exact StopsWith.pure a
  | error stop =>
    cases stop with
    | thrown exc => exact throwNew_null jvm (fun _ hs => hs) exc
    | outOfBounds => exact fun _ => Ensures.throw trivial
    | useAfterFree => exact fun _ => Ensures.throw trivial
    | overlap => exact fun _ => Ensures.throw trivial
    | diverges => exact fun _ => Ensures.throw trivial

theorem ofExcept_checked (x : Except Throwable α) : Checked (ofExcept jvm x) := by
  cases x with
  | ok a => exact StopsWith.pure a
  | error exc => exact throwNew_null jvm (fun _ hs => hs) exc

theorem classStrongref_stopsWith (hE : ∀ s, s.pending ≠ none → E .null s) :
    StopsWith E (javaMethCall.classStrongref jvm) := by
  intro s
  have hmake : Ensures (orNull (make jvm .newLocalRef id)) s (fun _ _ => True) E := by
    apply (orNull_ensures (make_ensures jvm .newLocalRef id s)).mono (fun _ _ _ => trivial)
    intro e s' he
    exact absurd he.1.1 he.2
  apply Ensures.bind hmake
  intro ref s' _
  cases ref with
  | some ref => exact Ensures.pure trivial
  | none =>
    apply exceptionCheck_bind
    . intro hs
      exact Ensures.throw (hE s' hs)
    . intro _
      exact throwNew_null jvm hE _ s'

theorem javaMethCall_stopsWith (hE : ∀ s, s.pending ≠ none → E .null s)
    (hnull : ∀ n, jvm.outcome .newObject n = .null → ∀ s, E .null s) (jmeth : JMethod α) :
    StopsWith E (javaMethCall jvm jmeth) := by
  have hcall (method : Nat → Except Throwable α) : StopsWith E (callMethod jvm method) := by
    apply Ensures.stopsWith (callMethod_ensures jvm method)
    intro e s he
    rw [he.1]
    exact hE s he.2
  cases jmeth with
  | uninitialized => exact throwNew_null jvm hE _
  | «static» method => exact StopsWith.bind (classStrongref_stopsWith jvm hE) fun _ => hcall method
  | nonVirtual method => exact StopsWith.bind (classStrongref_stopsWith jvm hE) fun _ => hcall method
  | constructor object =>
    apply StopsWith.bind (classStrongref_stopsWith jvm hE)
    intro _
    apply Ensures.stopsWith (make_ensures jvm .newObject object)
    intro e s he
    rw [he.1]
    rcases he.2 with hs | ⟨n, hn⟩
    . exact hE s hs
    . exact hnull n hn s
  | virtual method => exact hcall method

theorem javaMethCall_checked (hjvm : jvm.NewObjectThrows) (jmeth : JMethod α) :
    Checked (javaMethCall jvm jmeth) :=
  javaMethCall_stopsWith jvm (fun _ hs => hs) (fun n hn => absurd hn (hjvm n)) jmeth

theorem makeJstring_onlyNull {convert : Alloc → Native (List UInt16)}
    (h : ∀ alloc, ReturnsOrThrows (convert alloc)) : StopsWith OnlyNull (makeJstring jvm convert) := by
  apply StopsWith.bind (Ensures.stopsWith (succeeds_ensures jvm .malloc) fun _ _ hE => hE)
  intro malloc
  apply StopsWith.bind (ofNative_returnsOrThrows jvm (fun _ _ => rfl) (h _))
  intro out
  exact Ensures.stopsWith (make_ensures jvm .newString _) fun _ _ he => he.1

theorem javaUtf8ToJstringChecked_onlyNull (input : List UInt8) :
    StopsWith OnlyNull (javaUtf8ToJstringChecked jvm input) :=
  makeJstring_onlyNull jvm fun alloc => javaUtf8ToJstringChecked_returnsOrThrows alloc input

theorem makeJstring_pending {convert : Alloc → Native (List UInt16)}
    (h : ∀ alloc, ReturnsOrThrows (convert alloc)) (s : JniState) :
    Ensures (makeJstring jvm convert) s (fun _ s' => s'.pending = s.pending) OnlyNull := by
  apply Ensures.bind (succeeds_ensures jvm .malloc s)
  intro malloc s₁ hs₁
  apply Ensures.bind (Q := fun _ s₂ => s₂.pending = s.pending)
  . rcases h fun n => n ≠ 0 || malloc with ⟨out, hout⟩ | ⟨exc, hexc⟩
    . rw [hout]
      exact Ensures.pure hs₁
    . rw [hexc]
      apply Ensures.bind (throwNew_ensures jvm exc s₁)
      intro _ s₂ _
      exact Ensures.throw rfl
  . intro out s₂ hs₂
    have hexec : exec (make jvm .newString fun _ => out) s₂ = _ := exec_bind _ _ s₂
    rw [exec_answer] at hexec
    cases h : jvm.outcome .newString s₂.calls with
    | success =>
      rw [h] at hexec
      exact Ensures.of_ok hexec hs₂
    | null =>
      rw [h] at hexec
      exact Ensures.of_error hexec rfl
    | throws exc =>
      rw [h] at hexec
      exact Ensures.of_error hexec rfl

theorem javaUtf8ToJstringChecked_pending (input : List UInt8) (s : JniState) :
    Ensures (javaUtf8ToJstringChecked jvm input) s (fun _ s' => s'.pending = s.pending) OnlyNull :=
  makeJstring_pending jvm (fun alloc => javaUtf8ToJstringChecked_returnsOrThrows alloc input) s

end Calls

end Jni

end Ddwaf
