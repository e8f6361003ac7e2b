import Ddwaf.Native.Library.JavaLogInit

/-!
This module contains `JNI_OnLoad`: it loads the library, or leaves an exception and at most one lost
reference.
-/

open Program

namespace Ddwaf

namespace Library

open State

section Steps

variable (env : Env)

theorem metricsInit_looks : Looks (metricsInit env) :=
  (require_looks env rfl).bind <| (require_looks env rfl).bind <| (require_looks env rfl).bind <|
    (require_looks env rfl).bind (require_looks env rfl)

theorem csWrapperLookUp_looks : Looks (csWrapperInit.lookUp env) :=
  (require_looks env rfl).bind <| (require_looks env rfl).bind <| (require_looks env rfl).bind <|
    (require_looks env rfl).bind <| (require_looks env rfl).bind <| (require_looks env rfl).bind <|
    (require_looks env rfl).bind <| (require_looks env rfl).bind <| (require_looks env rfl).bind <|
    (require_looks env rfl).bind (require_looks env rfl)

theorem cacheSingleClassStrong_builds {out : RefVar} (hweak : (Slot.ref out).weak = false)
    (hout : out ∉ RefVar.jclsRte :: logRefs) (className : String) :
    Builds (cacheSingleClassStrong env className out) [.ref out] := by
  intro todo logCb s hrte hshape hs
  apply Ensures.bind (call_ensures env _ hs)
  intro b s₁ hfind
  have hshape₁ := hshape.quiet hfind.quiet
  apply failIfPending_bind
  . intro hs₁
    exact ⟨rfl, hshape₁.broken, hs₁⟩
  . intro hs₁
    apply Ensures.bind (newRef_ensures env false _ hs₁)
    rintro r s₂ hr
    apply Ensures.bind (Ensures.of_ok (exec_modify _ s₂) (Q := fun _ t => Shape todo logCb t) ?_)
    . intro _ t hshape'
      apply exceptionCheck_bind
      . intro ht
        exact Ensures.throw ⟨rfl, hshape'.broken, ht⟩
      . intro ht
        exact Ensures.pure ⟨hshape', ht⟩
    . rcases hr with ⟨r, rfl, hmakes, hr, _⟩ | ⟨rfl, hquiet, _⟩
      . exact hshape₁.fill hmakes (hr.trans hweak.symm)
      . have hshape₂ := hshape₁.quiet hquiet
        rw [hshape₂.setRef_none]
        exact hshape₂.skip hout

def outputInitSlots : List Slot :=
  outputMethods.map (fun init => Slot.meth init.jmeth) ++ ([.ref .longCls] ++ ([.ref .outputDoubleCls] ++
    ([.ref .booleanCls] ++ valueOfMethods.map fun init => Slot.meth init.jmeth)))

theorem outputCache_builds : Builds (outputInitChecked.cache env) outputInitSlots :=
  (Builds.forM _ fun init hinit => initMethod_builds env init
    ((by decide : ∀ i ∈ outputMethods, i.type ≠ .uninitialized) init hinit)
    ((by decide : ∀ i ∈ outputMethods, i.jmeth = .numberDoubleValue → i.type = .virtual) init
      hinit)).bind <|
  (cacheSingleClassStrong_builds env rfl (by decide) _).bind <|
  (cacheSingleClassStrong_builds env rfl (by decide) _).bind <|
  (cacheSingleClassStrong_builds env rfl (by decide) _).bind <|
  Builds.forM _ fun init hinit => initMethod_builds env init
    ((by decide : ∀ i ∈ valueOfMethods, i.type ≠ .uninitialized) init hinit)
    ((by decide : ∀ i ∈ valueOfMethods, i.jmeth = .numberDoubleValue → i.type = .virtual) init hinit)

def Done (todo : List Slot) (logCb : Bool) (s : State) : Prop :=
  Shape todo logCb s ∨ (Broken [] logCb s ∧ s.jni.pending ≠ none)

theorem outputInitChecked_ensures {todo : List Slot} {logCb : Bool} {s : State}
    {E : Exit → State → Prop} (hrte : .ref .jclsRte ∉ outputInitSlots ++ todo)
    (hshape : Shape (outputInitSlots ++ todo) logCb s) (hs : s.jni.pending = none) :
    Ensures (outputInitChecked env) s (fun _ s' => Done todo logCb s') E := by
  apply Ensures.bind (Fails.succeeds (outputCache_builds env todo logCb s hrte hshape hs))
  rintro _ s' (⟨rfl, hshape', _⟩ | ⟨rfl, hbroken, hs'⟩)
  . exact Ensures.pure (Or.inl hshape')
  . have ⟨t, hexec, hbroken', hcleared⟩ := hbroken.dispose outputShutdown_disposes fun _ => by decide
    refine Ensures.of_ok hexec (Or.inr ⟨hbroken', ?_⟩)
    rw [hcleared.eq]
    exact hs'

theorem initOutput_builds : Builds (initOutput env) outputInitSlots := by
  intro todo logCb s hrte hshape hs
  apply Ensures.bind (outputInitChecked_ensures env hrte hshape hs)
  intro _ s' hdone
  have hbroken : Broken [] logCb s' := by
    rcases hdone with hshape' | ⟨hbroken, _⟩
    . exact hshape'.broken
    . exact hbroken
  apply exceptionCheck_bind
  . intro hs'
    apply Ensures.bind (javaWrapExc_ensures env _ hs' hbroken.live_of_eq)
    intro _ t h
    exact Ensures.throw ⟨rfl, hbroken.quiet h.1, h.2⟩
  . intro hs'
    rcases hdone with hshape' | ⟨_, hpending⟩
    . exact Ensures.pure ⟨hshape', hs'⟩
    . exact absurd hs' hpending

theorem csWrapperInit_ensures {todo : List Slot} {s : State} {E : Exit → State → Prop}
    (hshape : Shape todo true s) (hs : s.jni.pending = none) :
    Ensures (csWrapperInit env) s (fun _ s' => Shape todo true s' ∧ s'.jni.pending = none) E := by
  apply Ensures.bind (succeeds_ensures (csWrapperLookUp_looks env s hs))
  rintro _ s' (⟨rfl, hquiet, hs'⟩ | ⟨rfl, hquiet, _⟩)
  . have hshape' := hshape.quiet hquiet
    exact Ensures.of_ok (exec_modify _ _)
      ⟨hshape'.congr (hshape'.owns.congr rfl rfl rfl) rfl rfl rfl rfl rfl, hs'⟩
  . have hshape' := hshape.quiet hquiet
    apply Ensures.bind (javaLog_ensures env _ _ (hshape'.log rfl))
    intro _ t h
    apply (lift_ensures_never (Ensures.of_ok (Jni.exec_setPending none t.jni)
      (Q := fun _ s' => s'.pending = none) rfl)).mono
    . intro _ t' h'
      exact ⟨(hshape'.quiet h.1).quiet h'.1, h'.2⟩
    . exact fun _ _ hE => hE

theorem javaUtf8ToJstringChecked_ensures (input : List UInt8) {s : State} (hrte : RteLive s) :
    Ensures (javaUtf8ToJstringChecked env input) s
      (fun _ s' => Quiet s s' ∧ s'.jni.pending = s.jni.pending)
      (fun e s' => e = .native .null ∧ Quiet s s') := by
  have ⟨r, hr, hlive⟩ := hrte
  apply get_bind
  apply use_bind hr hlive
  apply Ensures.bind (lift_ensures (Jni.javaUtf8ToJstringChecked_pending env.jvm input s.jni) _)
  . intro _ s' h
    exact Ensures.pure h
  . intro e s' he hquiet
    exact ⟨congrArg Exit.native he, hquiet⟩

theorem readVal_ensures {s : State} (hlog : LogReady s) (hs : s.jni.pending = none) :
    Ensures (getPwRunTimeoutChecked.readVal env) s (fun _ s' => Quiet s s')
      (fun e s' => e = .native .null ∧ Quiet s s') := by
  have hjavaLog {t : State} (level : DdwafLogLevel) (msg : String) (hquiet : Quiet s t) :
      Ensures (javaLog env level msg) t (fun _ s' => Quiet s s')
        (fun e s' => e = .native .null ∧ Quiet s s') :=
    (javaLog_ensures env level msg (hlog.quiet hquiet)).mono
      (fun _ _ h => hquiet.trans h.1) fun _ _ hE => hE
  unfold getPwRunTimeoutChecked.readVal
  split
  . apply Ensures.bind ((require_ensures env .javaToUtf8 rfl hs).mono_error fun _ _ h => ⟨h.1, h.2.1⟩)
    intro _ t h
    split
    . exact hjavaLog _ _ h.1
    . exact hjavaLog _ _ h.1
  . exact hjavaLog _ _ (Quiet.refl s)

theorem getPwRunTimeoutRead_ensures {todo : List Slot} {s : State}
    (hrte : .ref .jclsRte ∉ .meth .getProp :: todo) (hshape : Shape (.meth .getProp :: todo) true s)
    (hs : s.jni.pending = none) :
    Ensures (getPwRunTimeoutChecked.read env) s (fun _ s' => Shape todo true s')
      (fun e s' => e = .native .null ∧ Done todo true s') := by
  have hrte' : Slot.ref .jclsRte ∉ todo := fun hmem => hrte (List.mem_cons_of_mem _ hmem)
  apply Ensures.bind ((javaMethInitChecked_builds env _ _ _ (by decide) (by decide) hrte hshape
    hs).mono_error fun e s' h => ⟨h.exit, Or.inr ⟨h.broken, h.pending⟩⟩)
  intro _ s₁ ⟨hshape₁, hs₁, hmethId⟩
  apply Ensures.bind ((javaUtf8ToJstringChecked_ensures env _ (hshape₁.rteLive hrte')).mono_error
    fun e s' h => ⟨h.1, Or.inl (hshape₁.quiet h.2)⟩)
  intro _ s₂ ⟨hquiet₂, hs₂⟩
  have hshape₂ := hshape₁.quiet hquiet₂
  rw [hs₁] at hs₂
  rw [← hquiet₂.frame.meth] at hmethId
  apply Ensures.bind (callInitialized_ensures env hrte' hshape₂ hs₂ hmethId)
  intro _ s₃ ⟨hquiet₃, _⟩
  have hshape₃ := hshape₂.quiet hquiet₃
  apply failIfPending_bind
  . intro _
    exact ⟨rfl, Or.inl hshape₃⟩
  . intro hs₃
    exact (readVal_ensures env (hshape₃.log rfl) hs₃).mono (fun _ _ h => hshape₃.quiet h) fun _ _ h =>
      ⟨h.1, Or.inl (hshape₃.quiet h.2)⟩

theorem getPwRunTimeoutChecked_ensures {todo : List Slot} {s : State} {E : Exit → State → Prop}
    (hrte : .ref .jclsRte ∉ .meth .getProp :: todo) (hshape : Shape (.meth .getProp :: todo) true s)
    (hs : s.jni.pending = none) :
    Ensures (getPwRunTimeoutChecked env) s (fun _ s' => Done (.meth .getProp :: todo) true s') E := by
  have hnot := (List.nodup_cons.mp hshape.nodup).1
  apply Ensures.bind (succeeds_ensures (getPwRunTimeoutRead_ensures env hrte hshape hs))
  intro _ s₁ h
  have hdone : Done todo true s₁ := by
    rcases h with ⟨_, hshape₁⟩ | ⟨_, hdone⟩
    . exact Or.inl hshape₁
    . exact hdone
  rcases hdone with hshape₁ | ⟨hbroken₁, hs₁⟩
  . have ⟨s₂, hexec, howns, hcleared⟩ := javaMethDestroy_disposes .getProp [] [] s₁ hshape₁.owns
      hshape₁.typed fun _ _ => List.not_mem_nil
    exact Ensures.of_ok hexec (Or.inl (hshape₁.reopen hcleared howns hnot))
  . have ⟨s₂, hexec, hbroken₂, hcleared⟩ := hbroken₁.dispose (javaMethDestroy_disposes .getProp)
      fun _ => by decide
    refine Ensures.of_ok hexec (Or.inr ⟨hbroken₂, ?_⟩)
    rw [hcleared.eq]
    exact hs₁

end Steps

section Load

variable (env : Env)

structure LoadFails (e : Exit) (s : State) : Prop where
  exit : e = .native .null
  broken : ∃ gone logCb, Broken gone logCb s
  pending : s.jni.pending ≠ none

theorem Fails.loadFails {logCb : Bool} {e : Exit} {s : State} (h : Fails logCb e s) : LoadFails e s :=
  ⟨h.exit, ⟨[], logCb, h.broken⟩, h.pending⟩

theorem orThrow_ensures {x : Refs Unit} {msg : String} {gone : List Slot} {logCb : Bool} {s : State}
    {Q : Unit → State → Prop}
    (hx : Ensures x s Q fun e s' => e = .native .null ∧ Broken gone logCb s' ∧
      (s'.jni.pending = none → RteLive s')) : Ensures (orThrow env x msg) s Q LoadFails := by
  apply Ensures.bind (succeeds_ensures hx)
  rintro _ s' (⟨rfl, hQ⟩ | ⟨rfl, hbroken, hrte⟩)
  . exact Ensures.pure hQ
  . apply Ensures.bind (throwNewUnlessPending_ensures env msg hrte)
    intro _ t h
    exact Ensures.throw ⟨rfl, ⟨gone, logCb, hbroken.quiet h.1⟩, h.2⟩

theorem checkGlibc_builds : Builds (checkGlibc env) [] := by
  intro todo logCb s hrte hshape hs
  unfold checkGlibc
  split
  . apply Ensures.bind (throwNew_ensures env _ hs (hshape.rteLive hrte))
    intro _ t h
    exact Ensures.throw ⟨rfl, (hshape.quiet h.1).broken, h.2⟩
  . exact Ensures.pure ⟨hshape, hs⟩

def loadSlots : List Slot :=
  cacheInitSlots ++ (logInitSlots ++ (outputInitSlots ++ [.meth .getProp]))

def localSlots : List Slot :=
  [.meth .getProp, .meth .wrapperLogInit, .meth .factGet, .meth .nativeOrderMeth]

theorem load_ensures (henv : env.MakesByteOrder) {s : State} (hshape : Shape loadSlots false s)
    (hs : s.jni.pending = none) :
    Ensures (jniOnLoad.load env) s
      (fun _ s' => ∃ t, Shape localSlots true t ∧ t.jni.pending = none ∧ s' = { t with initOk := true })
      LoadFails := by
  apply Ensures.bind (orThrow_ensures env ((cacheReferences_ensures env henv hshape hs).mono_error
    fun _ _ h => ⟨h.exit, h.broken, fun hnone => absurd hnone h.pending⟩))
  intro _ s ⟨hshape, hs⟩
  apply (checkGlibc_builds env).run (by decide) hshape hs fun _ _ h => h.loadFails
  intro s hshape hs
  have hshape := hshape.perm List.perm_middle.symm
  apply Ensures.bind (orThrow_ensures env (javaLogInit_ensures env hshape (by decide) hs))
  intro _ s ⟨hshape, hs⟩
  apply Ensures.bind (orThrow_ensures env (((metricsInit_looks env).builds _ true s (by decide) hshape
    hs).mono_error fun _ _ h => ⟨h.exit, h.broken, fun hnone => absurd hnone h.pending⟩))
  intro _ s ⟨hshape, hs⟩
  have hshape := hshape.perm (List.perm_append_comm_assoc
    [Slot.meth .wrapperLogInit, Slot.meth .factGet, Slot.meth .nativeOrderMeth] outputInitSlots
    [Slot.meth .getProp])
  apply (initOutput_builds env).run (by decide) hshape hs fun _ _ h => h.loadFails
  intro s hshape hs
  apply Ensures.bind (csWrapperInit_ensures env hshape hs)
  intro _ s ⟨hshape, hs⟩
  have hshape := hshape.perm (List.perm_append_singleton (Slot.meth .getProp) _)
  apply Ensures.bind (getPwRunTimeoutChecked_ensures env (by decide) hshape hs)
  intro _ s hdone
  apply failIfPending_bind
  . intro hs
    rcases hdone with hshape | ⟨hbroken, _⟩
    . exact ⟨rfl, ⟨[], true, hshape.broken⟩, hs⟩
    . exact ⟨rfl, ⟨[], true, hbroken⟩, hs⟩
  . intro hs
    rcases hdone with hshape | ⟨_, hpending⟩
    . exact Ensures.of_ok (exec_modify _ _) ⟨s, hshape, hs, rfl⟩
    . exact absurd hs hpending

end Load

end Library

end Ddwaf
