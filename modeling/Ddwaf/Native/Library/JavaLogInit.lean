import Ddwaf.Native.Library.CacheReferences

/-!
This module contains `java_log_init`, which may fail although nothing is thrown.
-/

open Program

namespace Ddwaf

namespace Library

open State

section Steps

variable (env : Env)

structure FailsQuietly (logCb : Bool) (e : Exit) (s : State) : Prop where
  exit : e = .native .null
  broken : Broken [] logCb s
  rte : s.jni.pending = none → RteLive s

theorem Fails.quietly {logCb : Bool} {e : Exit} {s : State} (h : Fails logCb e s) :
    FailsQuietly logCb e s :=
  ⟨h.exit, h.broken, fun hs => absurd hs h.pending⟩

theorem Shape.quietly {todo : List Slot} {logCb : Bool} {s : State} (h : Shape todo logCb s)
    (hrte : .ref .jclsRte ∉ todo) : FailsQuietly logCb (.native .null) s :=
  ⟨rfl, h.broken, fun _ => h.rteLive hrte⟩

theorem findSlf4j_ensures {s : State} (hrte : RteLive s) (hs : s.jni.pending = none) :
    Ensures (findSlf4j env) s (fun _ s' => Quiet s s' ∧ s'.jni.pending = none)
      (fun e s' => e = .native .null ∧ Quiet s s' ∧ s'.jni.pending ≠ none) := by
  apply Ensures.bind (call_ensures env _ hs)
  intro b s₁ h₁
  cases b with
  | true => exact Ensures.pure ⟨h₁.quiet, h₁.success rfl⟩
  | false =>
    apply Ensures.bind (lift_ensures_never (Ensures.of_ok (Jni.exec_setPending none s₁.jni)
      (Q := fun _ s' => s'.pending = none) rfl))
    intro _ s₂ ⟨hquiet₂, hs₂⟩
    apply Ensures.bind (call_ensures env _ hs₂)
    intro b s₃ h₃
    have hquiet₃ := (h₁.quiet.trans hquiet₂).trans h₃.quiet
    cases b with
    | true => exact Ensures.pure ⟨hquiet₃, h₃.success rfl⟩
    | false =>
      apply Ensures.bind (javaWrapExc_ensures env _ (h₃.throws rfl rfl)
        (hrte.quiet hquiet₃).live_of_eq)
      intro _ s₄ h₄
      exact Ensures.throw ⟨rfl, hquiet₃.trans h₄.1, h₄.2⟩

theorem storeGlobalRef_ensures {v : RefVar} (hweak : (Slot.ref v).weak = false) (obj : Option JObj)
    {todo : List Slot} {logCb : Bool} {s : State} (hrte : .ref .jclsRte ∉ Slot.ref v :: todo)
    (hshape : Shape (.ref v :: todo) logCb s) (hs : s.jni.pending = none) :
    Ensures (storeGlobalRef env v obj) s
      (fun _ s' => Shape todo logCb s' ∧ s'.jni.pending = none) (FailsQuietly logCb) := by
  apply Ensures.bind (newRef_ensures env false obj hs)
  rintro _ s' (⟨r, rfl, hmakes, hr, hs'⟩ | ⟨rfl, hquiet, _⟩)
  . exact store_ensures hshape hmakes (hr.trans hweak.symm) hs'
  . exact Ensures.of_error (hshape.quiet hquiet).exec_store_none
      ((hshape.quiet hquiet).quietly hrte)

def logInitSlots : List Slot :=
  [.ref .objectJcls, .ref .trace, .ref .debug, .ref .info, .ref .warn, .ref .error, .meth .factGet,
    .meth .wrapperLogInit, .ref .logger, .ref .logPattern, .meth .logMeth, .meth .isLoggable]

theorem Shape.minLevel {todo : List Slot} {logCb : Bool} {s : State} (h : Shape todo logCb s)
    (level : DdwafLogLevel) : Shape todo logCb { s with minLevel := level } :=
  h.congr (h.owns.congr rfl rfl rfl) rfl rfl rfl rfl rfl

theorem Shape.logReady {todo : List Slot} {logCb : Bool} {s : State} (h : Shape todo logCb s)
    (htodo : ∀ i ∈ logInitSlots, i ∉ todo) : LogReady s := by
  constructor
  . intro v hv
    have hvar : .ref v ∈ logInitSlots := (by decide : ∀ v ∈ logRefs, Slot.ref v ∈ logInitSlots) v hv
    have ⟨r, hr⟩ := Option.ne_none_iff_exists'.mp (h.logVars v hv (htodo _ hvar))
    exact ⟨r, hr, h.owns.live (i := .ref v) List.not_mem_nil hr⟩
  . exact h.methId _ (htodo _ (by decide))

theorem Shape.setCallback {todo : List Slot} {logCb logCb' : Bool} {s : State} (h : Shape todo logCb s)
    (hlog : logCb' = true → LogReady s) : Shape todo logCb' { s with logCb := logCb' } := by
  constructor
  . exact h.owns.congr rfl rfl rfl
  . exact h.nodup
  . exact h.unused
  . exact h.rte
  . exact h.logVars
  . exact h.methId
  . exact h.typed
  . exact h.doubleValue
  . exact fun hcb => ⟨(hlog hcb).live, (hlog hcb).methId⟩
  . rfl
  . exact h.initOk

theorem testLevel_ensures {v : RefVar} (hv : v ∈ logRefs) (level : DdwafLogLevel) {todo : List Slot}
    {logCb : Bool} {s : State} (htodo : ∀ i ∈ logInitSlots, i ∉ todo) (hshape : Shape todo logCb s)
    (hs : s.jni.pending = none) :
    Ensures (testLevel env v level) s (fun _ s' => Shape todo logCb s' ∧ s'.jni.pending = none)
      (Fails logCb) := by
  have hready := hshape.logReady htodo
  have ⟨r, hr, hmem⟩ := hready.live .logger (by decide)
  have ⟨r', hr', hmem'⟩ := hready.live v hv
  have ⟨methId, hmethId⟩ := Option.ne_none_iff_exists'.mp
    (hshape.methId .isLoggable (htodo _ (by decide)))
  apply get_bind
  apply use_bind hr hmem
  apply use_bind hr' hmem'
  rw [hmethId]
  apply Ensures.bind (call_ensures env _ hs)
  intro returned s' h
  have hshape' := hshape.quiet h.quiet
  split
  . rename_i hreturned
    apply modify_bind
    exact Ensures.pure ⟨hshape'.minLevel level, h.success (Bool.and_eq_true_iff.mp hreturned).1⟩
  . apply exceptionCheck_bind
    . intro hs'
      exact Ensures.throw ⟨rfl, hshape'.broken, hs'⟩
    . intro hs'
      exact Ensures.pure ⟨hshape', hs'⟩

theorem getMinLogLevel_ensures {todo : List Slot} {logCb : Bool} {s : State}
    (htodo : ∀ i ∈ logInitSlots, i ∉ todo) (hshape : Shape todo logCb s) (hs : s.jni.pending = none) :
    Ensures (getMinLogLevel env) s (fun _ s' => Shape todo logCb s' ∧ s'.jni.pending = none)
      (Fails logCb) := by
  have htest {v : RefVar} (level : DdwafLogLevel) (hv : v ∈ logRefs)
      {x : Refs Unit} (hx : ∀ s', Shape todo logCb s' → s'.jni.pending = none →
        Ensures x s' (fun _ s'' => Shape todo logCb s'' ∧ s''.jni.pending = none) (Fails logCb))
      (s : State) (hshape : Shape todo logCb s) (hs : s.jni.pending = none) :
      Ensures (do if ← testLevel env v level then return () else x) s
        (fun _ s' => Shape todo logCb s' ∧ s'.jni.pending = none) (Fails logCb) := by
    apply Ensures.bind (testLevel_ensures env hv level htodo hshape hs)
    intro b s' h
    cases b with
    | true => exact Ensures.pure h
    | false => exact hx s' h.1 h.2
  apply htest .trace (by decide) _ s hshape hs
  apply htest .debug (by decide)
  apply htest .info (by decide)
  apply htest .warn (by decide)
  intro s' hshape' hs'
  exact Ensures.of_ok (exec_modify _ _) ⟨hshape'.minLevel .error, hs'⟩

theorem failIfPending_bind {α : Type} {x : Refs α} {s : State} {Q : α → State → Prop}
    {E : Exit → State → Prop} (hE : s.jni.pending ≠ none → E (.native .null) s)
    (hx : s.jni.pending = none → Ensures x s Q E) : Ensures (do failIfPending; x) s Q E := by
  apply Ensures.bind (Q := fun _ s' => s' = s ∧ s.jni.pending = none)
  . apply exceptionCheck_bind
    . intro hs
      exact Ensures.throw (hE hs)
    . intro hs
      exact Ensures.pure ⟨rfl, hs⟩
  . rintro _ _ ⟨rfl, hs⟩
    exact hx hs

theorem storeGlobalRef_run {α : Type} {v : RefVar} (hweak : (Slot.ref v).weak = false)
    (obj : Option JObj) {f : Refs α} {todo : List Slot} {logCb : Bool} {s : State}
    {Q : α → State → Prop} (hrte : .ref .jclsRte ∉ Slot.ref v :: todo)
    (hshape : Shape (.ref v :: todo) logCb s) (hs : s.jni.pending = none)
    (hf : ∀ s', Shape todo logCb s' → s'.jni.pending = none →
      Ensures f s' Q (FailsQuietly logCb)) :
    Ensures (do storeGlobalRef env v obj; f) s Q (FailsQuietly logCb) := by
  apply Ensures.bind (storeGlobalRef_ensures env hweak obj hrte hshape hs)
  intro _ s' h
  exact hf s' h.1 h.2

theorem javaMethInitChecked_run {α : Type} {jmeth : MethodVar} (className methodName sig : String)
    {type : JMethodType} {f : Refs α} {todo : List Slot} {logCb : Bool} {s : State}
    {Q : α → State → Prop} (htype : type ≠ .uninitialized)
    (hdouble : jmeth = .numberDoubleValue → type = .virtual)
    (hrte : .ref .jclsRte ∉ .meth jmeth :: todo) (hshape : Shape (.meth jmeth :: todo) logCb s)
    (hs : s.jni.pending = none)
    (hf : ∀ s', Shape todo logCb s' → s'.jni.pending = none →
      Ensures f s' Q (FailsQuietly logCb)) :
    Ensures (do javaMethInitChecked env jmeth className methodName sig type; f) s Q
      (FailsQuietly logCb) := by
  apply Ensures.bind ((javaMethInitChecked_builds env className methodName sig htype hdouble hrte hshape
    hs).mono_error fun _ _ h => h.quietly)
  intro _ s' h
  exact hf s' h.1 h.2.1

theorem javaMethCall_run {α : Type} {m : MethodVar} {f : Option JObj → Refs α} {todo : List Slot}
    {logCb : Bool} {s : State} {Q : α → State → Prop} (hrte : .ref .jclsRte ∉ todo)
    (hm : .meth m ∉ todo) (hshape : Shape todo logCb s) (hs : s.jni.pending = none)
    (hf : ∀ obj s', Shape todo logCb s' → s'.jni.pending = none →
      Ensures (f obj) s' Q (FailsQuietly logCb)) :
    Ensures (do let obj ← javaMethCall env m; failIfPending; f obj) s Q
      (FailsQuietly logCb) := by
  have ⟨methId, hmethId⟩ := Option.ne_none_iff_exists'.mp (hshape.methId m hm)
  apply Ensures.bind (callInitialized_ensures env hrte hshape hs hmethId)
  intro obj s' h
  have hshape' := hshape.quiet h.1
  apply failIfPending_bind
  . intro hs'
    exact ⟨rfl, hshape'.broken, fun hnone => absurd hnone hs'⟩
  . intro hs'
    exact hf obj s' hshape' hs'

theorem logFetch_ensures {todo : List Slot} {s : State} (hshape : Shape (logInitSlots ++ todo) false s)
    (hrte : .ref .jclsRte ∉ todo) (hs : s.jni.pending = none) :
    Ensures (javaLogInit.fetch env) s (fun _ s' => Shape todo true s' ∧ s'.jni.pending = none)
      (FailsQuietly false) := by
  have htodo (i : Slot) (hi : i ∈ logInitSlots) : i ∉ todo := fun hmem =>
    List.disjoint_of_nodup_append hshape.nodup hi hmem
  apply Ensures.bind ((findSlf4j_ensures env (hshape.rteLive (by simp [logInitSlots, hrte]))
    hs).mono_error fun e s' h => ⟨h.1, (hshape.quiet h.2.1).broken, fun hs' => absurd hs' h.2.2⟩)
  intro slf4j s' ⟨hquiet, hs⟩
  have hshape := hshape.quiet hquiet
  apply (require_looks env rfl).builds.run (by simp [hrte]) hshape hs
    (fun _ _ h => h.quietly)
  intro s hshape hs
  apply storeGlobalRef_run env rfl _ (by simp [hrte]) hshape hs
  intro s hshape hs
  apply (storeStaticField_builds env rfl _ _ _).run (by simp [hrte]) hshape hs
    (fun _ _ h => h.quietly)
  intro s hshape hs
  apply (storeStaticField_builds env rfl _ _ _).run (by simp [hrte]) hshape hs
    (fun _ _ h => h.quietly)
  intro s hshape hs
  apply (storeStaticField_builds env rfl _ _ _).run (by simp [hrte]) hshape hs
    (fun _ _ h => h.quietly)
  intro s hshape hs
  apply (storeStaticField_builds env rfl _ _ _).run (by simp [hrte]) hshape hs
    (fun _ _ h => h.quietly)
  intro s hshape hs
  apply (storeStaticField_builds env rfl _ _ _).run (by simp [hrte]) hshape hs
    (fun _ _ h => h.quietly)
  intro s hshape hs
  apply javaMethInitChecked_run env _ _ _ (by decide) (by decide) (by simp [hrte]) hshape hs
  intro s hshape hs
  apply javaMethInitChecked_run env _ _ _ (by decide) (by decide) (by simp [hrte]) hshape hs
  intro s hshape hs
  apply (require_looks env rfl).builds.run (by simp [hrte]) hshape hs
    (fun _ _ h => h.quietly)
  intro s hshape hs
  have hfact := htodo (.meth .factGet) (by decide)
  have hwrapper := htodo (.meth .wrapperLogInit) (by decide)
  apply javaMethCall_run env (by simp [hrte]) (by simp [hfact]) hshape hs
  intro _ s hshape hs
  apply javaMethCall_run env (by simp [hrte]) (by simp [hwrapper]) hshape hs
  intro wrapperLocal s hshape hs
  apply storeGlobalRef_run env rfl _ (by simp [hrte]) hshape hs
  intro s hshape hs
  apply (require_looks env rfl).builds.run (by simp [hrte]) hshape hs
    (fun _ _ h => h.quietly)
  intro s hshape hs
  apply storeGlobalRef_run env rfl _ (by simp [hrte]) hshape hs
  intro s hshape hs
  apply javaMethInitChecked_run env _ _ _ (by decide) (by decide) (by simp [hrte]) hshape hs
  intro s hshape hs
  apply javaMethInitChecked_run env _ _ _ (by decide) (by decide) (by simp [hrte]) hshape hs
  intro s hshape hs
  apply Ensures.bind (Fails.succeeds (getMinLogLevel_ensures env htodo hshape hs))
  rintro _ s' (⟨rfl, hshape', hs'⟩ | ⟨rfl, hbroken, hs'⟩)
  . apply Ensures.of_ok (exec_modify _ _)
    exact ⟨hshape'.setCallback fun _ => hshape'.logReady htodo, hs'⟩
  . apply Ensures.bind (javaWrapExc_ensures env _ hs' hbroken.live_of_eq)
    intro _ t h
    exact Ensures.throw ⟨rfl, hbroken.quiet h.1, fun ht => absurd ht h.2⟩

theorem FailsQuietly.succeeds {x : Refs Unit} {logCb : Bool} {s : State}
    {Q : Unit → State → Prop} {E : Exit → State → Prop} (h : Ensures x s Q (FailsQuietly logCb)) :
    Ensures (succeeds x) s (fun b s' => (b = true ∧ Q () s') ∨
      (b = false ∧ Broken [] logCb s' ∧ (s'.jni.pending = none → RteLive s'))) E :=
  succeeds_ensures (h.mono_error fun _ _ hfails => ⟨hfails.exit, hfails.broken, hfails.rte⟩)

theorem State.Cleared.rteLive {L gone : List Slot} {lost : List GlobalRef} {s s' : State}
    (hcleared : Cleared L s s') (h : RteLive s) (hL : .ref .jclsRte ∉ L) (howns : Owns gone lost s')
    (hgone : .ref .jclsRte ∉ gone) : RteLive s' := by
  have ⟨r, hr, _⟩ := h
  have hr' : s'.ref .jclsRte = some r := (hcleared.kept (.ref .jclsRte) hL).trans hr
  exact ⟨r, hr', howns.live hgone hr'⟩

theorem Disposes.run {α : Type} {x : Refs Unit} {f : Refs α} {L gone : List Slot}
    {lost : List GlobalRef} {s : State} {Q : α → State → Prop} {E : Exit → State → Prop}
    (hx : Disposes x L) (howns : Owns gone lost s) (htyped : Typed s) (hL : ∀ i ∈ L, i ∉ gone)
    (hf : ∀ s', Owns gone lost s' → Cleared L s s' → Ensures f s' Q E) : Ensures (do x; f) s Q E := by
  have ⟨t, hexec, howns', hcleared⟩ := hx gone lost s howns htyped hL
  apply Ensures.bind (Ensures.of_ok hexec (Q := fun _ t' => t' = t) rfl)
  rintro _ _ rfl
  exact hf _ howns' hcleared

theorem javaLogInit_ensures {todo : List Slot} {s : State}
    (hshape : Shape (logInitSlots ++ todo) false s) (hrte : .ref .jclsRte ∉ todo)
    (hs : s.jni.pending = none) :
    Ensures (javaLogInit env) s
      (fun _ s' => Shape (.meth .wrapperLogInit :: .meth .factGet :: todo) true s' ∧
        s'.jni.pending = none)
      (fun e s' => e = .native .null ∧ Broken logRefSlots false s' ∧
        (s'.jni.pending = none → RteLive s')) := by
  have htodo (i : Slot) (hi : i ∈ logInitSlots) : i ∉ todo := fun hmem =>
    List.disjoint_of_nodup_append hshape.nodup hi hmem
  apply Ensures.bind (FailsQuietly.succeeds (logFetch_ensures env hshape hrte hs))
  rintro _ s₁ (⟨rfl, hshape₁, hs₁⟩ | ⟨rfl, hbroken₁, hrte₁⟩)
  . apply (javaMethDestroy_disposes .factGet).run hshape₁.owns hshape₁.typed (by simp)
    intro s₂ howns₂ hcleared₂
    have hshape₂ := hshape₁.reopen hcleared₂ howns₂ (htodo _ (by decide))
    apply (javaMethDestroy_disposes .wrapperLogInit).run hshape₂.owns hshape₂.typed (by simp)
    intro s₃ howns₃ hcleared₃
    have hshape₃ := hshape₂.reopen hcleared₃ howns₃ (by simp [htodo (.meth .wrapperLogInit) (by decide)])
    refine Ensures.pure ⟨hshape₃, ?_⟩
    rw [hcleared₃.eq, hcleared₂.eq]
    exact hs₁
  . have ⟨lost, hlost, howns₁⟩ := hbroken₁.owns
    apply (javaMethDestroy_disposes .factGet).run howns₁ hbroken₁.typed (by simp)
    intro s₂ howns₂ hcleared₂
    have htyped₂ := hbroken₁.typed.cleared hcleared₂
    apply (javaMethDestroy_disposes .wrapperLogInit).run howns₂ htyped₂ (by simp)
    intro s₃ howns₃ hcleared₃
    have ⟨s₄, hexec, howns₄, hcleared₄⟩ := exec_javaLogShutdown howns₃ (htyped₂.cleared hcleared₃)
      (by simp)
    have hcleared := (hcleared₂.trans hcleared₃).trans hcleared₄
    apply Ensures.bind (Ensures.of_ok hexec (Q := fun _ t => t = s₄) rfl)
    rintro _ _ rfl
    refine Ensures.throw ⟨rfl, ?_, ?_⟩
    . constructor
      . exact ⟨lost, hlost, by simpa using howns₄⟩
      . exact hbroken₁.typed.cleared hcleared
      . intro hcb
        contradiction
      . rw [hcleared.eq]
        exact hbroken₁.callback
      . rw [hcleared.eq]
        exact hbroken₁.initOk
    . intro hs₄
      rw [hcleared.eq] at hs₄
      exact hcleared.rteLive (hrte₁ hs₄) (by decide) howns₄ (by decide)

end Steps

end Library

end Ddwaf
