import Ddwaf.Native.Library.Shape

/-!
This module contains `_cache_references`, and the steps that it shares with the other functions.
-/

open Program

namespace Ddwaf

namespace Library

open State

/--
The reference to the byte order is made. When it is not, `_cache_methods` is called nevertheless.
-/
def Env.MakesByteOrder (env : Env) : Prop :=
  ∀ n, env.outcome (.newWeakGlobalRef (.returned ⟨"java/nio/ByteOrder", "nativeOrder",
    "()Ljava/nio/ByteOrder;"⟩)) n = .success

section Steps

variable (env : Env)

theorem require_looks {c : Call} (hc : c.throwsForNull = true) : Looks (require env c) :=
  fun _ hs => require_ensures env c hc hs

theorem fetchFields_looks (className : String) (fields : List (String × String)) :
    Looks (fetchFields env className fields) :=
  (require_looks env rfl).bind (Looks.forM (fun _ => require_looks env rfl) fields)

theorem javaMethInitChecked_builds {jmeth : MethodVar} (className methodName sig : String)
    {type : JMethodType} {todo : List Slot} {logCb : Bool} {s : State}
    (htype : type ≠ .uninitialized) (hdouble : jmeth = .numberDoubleValue → type = .virtual)
    (hrte : .ref .jclsRte ∉ .meth jmeth :: todo) (hshape : Shape (.meth jmeth :: todo) logCb s)
    (hs : s.jni.pending = none) :
    Ensures (javaMethInitChecked env jmeth className methodName sig type) s
      (fun _ s' => Shape todo logCb s' ∧ s'.jni.pending = none ∧ (s'.meth jmeth).methId =
        some ⟨className, if type = .constructor then "<init>" else methodName, sig⟩)
      (Fails logCb) := by
  apply (javaMethInitChecked_ensures env jmeth className methodName sig htype hs (hshape.rteLive hrte)
    hshape.owns List.not_mem_nil (hshape.unused _ List.mem_cons_self)).mono
  . rintro _ s' ⟨howns, hs', j, hinit, hframe⟩
    have hj : s'.meth jmeth = j := by
      rw [hframe.meth]
      exact Function.update_self jmeth j s.meth
    refine ⟨hshape.setMeth hframe howns hinit hdouble, hs', ?_⟩
    rw [hj, hinit.methId]
  . rintro e s' ⟨he, hloses, hframe, hs'⟩
    refine ⟨he, ?_, hs'⟩
    have hmeth := hframe.meth
    have howns : ∃ lost, lost.length ≤ 1 ∧ Owns [] lost s' := by
      rcases hloses with howns | ⟨r, howns⟩
      . exact ⟨[], Nat.zero_le 1, howns⟩
      . exact ⟨[r], Nat.le_refl 1, howns⟩
    constructor
    . exact howns
    . unfold Typed
      rw [hmeth]
      exact hshape.typed
    . intro hcb
      have ⟨lost, _, howns⟩ := howns
      constructor
      . intro v hv
        have ⟨r, hr, _⟩ := (hshape.log hcb).live v hv
        have hr' : s'.ref v = some r := by rw [hframe.ref, hr]
        exact ⟨r, hr', howns.live (i := .ref v) List.not_mem_nil hr'⟩
      . rw [hmeth]
        exact (hshape.log hcb).methId
    . rw [hframe]
      exact hshape.callback
    . rw [hframe]
      exact hshape.initOk

theorem initMethod_builds (init : MethodInit) (htype : init.type ≠ .uninitialized)
    (hdouble : init.jmeth = .numberDoubleValue → init.type = .virtual) :
    Builds (initMethod env init) [.meth init.jmeth] := by
  intro todo logCb s hrte hshape hs
  apply Ensures.bind (javaMethInitChecked_builds env _ _ _ htype hdouble hrte hshape hs)
  intro _ s' ⟨hshape', hs', _⟩
  split
  . apply get_bind
    exact Ensures.of_ok (exec_modify _ _) ⟨hshape'.setVirtual init.jmeth, hs'⟩
  . exact Ensures.pure ⟨hshape', hs'⟩

theorem store_ensures {v : RefVar} {r : GlobalRef} {todo : List Slot} {logCb : Bool} {s s' : State}
    {E : Exit → State → Prop} (hshape : Shape (.ref v :: todo) logCb s) (hmakes : Makes r s s')
    (hweak : r.weak = (Slot.ref v).weak) (hs' : s'.jni.pending = none) :
    Ensures (store v (some r)) s' (fun _ t => Shape todo logCb t ∧ t.jni.pending = none) E := by
  have hexec : exec (store v (some r)) s' = (.ok (), s'.setRef v (some r)) := by
    rw [store, exec_bind, setRef, exec_modify]
    rfl
  exact Ensures.of_ok hexec ⟨hshape.fill hmakes hweak, hs'⟩

theorem Shape.exec_store_none {v : RefVar} {todo : List Slot} {logCb : Bool} {s : State}
    (hshape : Shape (.ref v :: todo) logCb s) :
    exec (store v none) s = (.error (.native .null), s) := by
  rw [store, exec_bind, Library.setRef, exec_modify]
  show exec (if (none : Option GlobalRef).isSome then _ else failed) (s.setRef v none) = _
  rw [hshape.setRef_none]
  rfl

theorem storeStaticField_builds {v : RefVar} (hweak : (Slot.ref v).weak = true)
    (className name sig : String) :
    Builds (do store v (← javaStaticFieldChecked env className name sig)) [.ref v] := by
  intro todo logCb s hrte hshape hs
  apply Ensures.bind (javaStaticFieldChecked_ensures env className name sig hs (hshape.rteLive hrte))
  rintro _ s' (⟨r, rfl, hmakes, hr, hs'⟩ | ⟨rfl, hquiet, hs'⟩)
  . exact store_ensures hshape hmakes (hr.trans hweak.symm) hs'
  . exact Ensures.of_error ((hshape.quiet hquiet).exec_store_none)
      ⟨rfl, (hshape.quiet hquiet).broken, hs'⟩

theorem cacheSingleClassWeak_ensures {out : RefVar} (hweak : (Slot.ref out).weak = true)
    (className : String) {todo : List Slot} {logCb : Bool} {s : State}
    (hshape : Shape (.ref out :: todo) logCb s) (hs : s.jni.pending = none) :
    Ensures (cacheSingleClassWeak env className out) s
      (fun _ s' => Shape todo logCb s' ∧ s'.jni.pending = none)
      (Fails logCb) := by
  apply Ensures.bind (call_ensures env _ hs)
  intro b s₁ hfind
  have hshape₁ := hshape.quiet hfind.quiet
  cases b with
  | true =>
    apply Ensures.bind (newRef_ensures env true _ (hfind.success rfl))
    rintro _ s' (⟨r, rfl, hmakes, hr, hs'⟩ | ⟨rfl, hquiet, hs'⟩)
    . exact store_ensures hshape₁ hmakes (hr.trans hweak.symm) hs'
    . exact Ensures.of_error ((hshape₁.quiet hquiet).exec_store_none)
        ⟨rfl, (hshape₁.quiet hquiet).broken, hs' rfl rfl⟩
  | false =>
    apply Ensures.bind (javaWrapExc_ensures env _ (hfind.throws rfl rfl) fun r hr =>
      hshape₁.owns.live (i := .ref .jclsRte) List.not_mem_nil hr)
    intro _ s' h
    exact Ensures.throw ⟨rfl, (hshape₁.quiet h.1).broken, h.2⟩

theorem cacheClasses_ensures {classes : List (String × RefVar)}
    (hweak : ∀ c ∈ classes, (Slot.ref c.2).weak = true) {todo : List Slot} {logCb : Bool} {s : State}
    (hshape : Shape (classes.map (fun c => Slot.ref c.2) ++ todo) logCb s)
    (hs : s.jni.pending = none) :
    Ensures (classes.forM fun (className, out) => cacheSingleClassWeak env className out) s
      (fun _ s' => Shape todo logCb s' ∧ s'.jni.pending = none)
      (Fails logCb) := by
  induction classes generalizing s with
  | nil => exact Ensures.pure ⟨hshape, hs⟩
  | cons c classes ih =>
    apply Ensures.bind (cacheSingleClassWeak_ensures env (hweak c List.mem_cons_self) c.1 hshape hs)
    intro _ s' h
    exact ih (fun d hd => hweak d (List.mem_cons_of_mem _ hd)) h.1 h.2

theorem fetchStaticFields_builds {fields : List (RefVar × String × String)} {disposeOf : Refs Unit}
    {L : List Slot} (hweak : ∀ f ∈ fields, (Slot.ref f.1).weak = true) (hdispose : Disposes disposeOf L)
    (hL : ∀ v ∈ logRefs, .ref v ∉ L) (className : String) :
    Builds (fetchStaticFields env className fields disposeOf)
      (fields.map fun f => Slot.ref f.1) := by
  have hfetch := (require_looks env (c := .findClass className) rfl).builds.bind
    (Builds.forM (fun f => Slot.ref f.1) fun (f : RefVar × String × String) hf =>
      storeStaticField_builds env (hweak f hf) className f.2.1 f.2.2)
  intro todo logCb s hrte hshape hs
  apply Ensures.bind (Fails.succeeds (hfetch todo logCb s hrte hshape hs))
  rintro _ s' (⟨rfl, h⟩ | ⟨rfl, hbroken, hs'⟩)
  . exact Ensures.pure h
  . have ⟨t, hexec, hbroken', hcleared⟩ := hbroken.dispose hdispose fun _ => hL
    apply Ensures.bind (Ensures.of_ok hexec (Q := fun _ t' => t' = t) rfl)
    rintro _ _ rfl
    refine Ensures.throw ⟨rfl, hbroken', ?_⟩
    rw [hcleared.eq]
    exact hs'

theorem fetchActionEnums_builds :
    Builds (fetchActionEnums env) [.ref .actionOk, .ref .actionMatch] :=
  fetchStaticFields_builds env (by decide) disposeOfActionEnums_disposes (by decide) _

theorem fetchResultWithDataFields_builds :
    Builds (fetchResultWithDataFields env) [.ref .resultWithDataOkNull, .ref .resultWithDataEmptyMap] :=
  fetchStaticFields_builds env (by decide) disposeOfResultWithDataFields_disposes (by decide) _

theorem fetchNativeHandleField_builds : Builds (fetchNativeHandleField env) [] := by
  intro todo logCb s hrte hshape hs
  apply Ensures.bind (call_ensures env _ hs)
  intro b s₁ hfind
  have hshape₁ := hshape.quiet hfind.quiet
  cases b with
  | true =>
    exact (require_looks env rfl).builds todo logCb s₁ hrte hshape₁ (hfind.success rfl)
  | false =>
    apply Ensures.bind (javaWrapExc_ensures env _ (hfind.throws rfl rfl)
      (hshape₁.rteLive hrte).live_of_eq)
    intro _ s' h
    exact Ensures.throw ⟨rfl, (hshape₁.quiet h.1).broken, h.2⟩

theorem cacheMethods_builds :
    Builds (cacheMethods env) (cachedMethods.map fun init => Slot.meth init.jmeth) :=
  Builds.forM _ fun init hinit =>
    initMethod_builds env init ((by decide : ∀ i ∈ cachedMethods, i.type ≠ .uninitialized) init hinit)
      ((by decide : ∀ i ∈ cachedMethods, i.jmeth = .numberDoubleValue → i.type = .virtual) init hinit)

theorem callInitialized_ensures {m : MethodVar} {methId : MethodId} {todo : List Slot} {logCb : Bool}
    {s : State} {E : Exit → State → Prop} (hrte : .ref .jclsRte ∉ todo) (hshape : Shape todo logCb s)
    (hs : s.jni.pending = none) (hmethId : (s.meth m).methId = some methId) :
    Ensures (javaMethCall env m) s
      (fun obj s' => Quiet s s' ∧ (obj = none ∨ obj = some (.returned methId))) E :=
  javaMethCall_ensures env hs (hshape.rteLive hrte)
    (fun _ hr => hshape.owns.live (i := .meth m) List.not_mem_nil hr) hmethId

theorem newWeakGlobalRef_ensures {obj : Option JObj} {s : State} {E : Exit → State → Prop}
    (hmakes : ∀ o n, obj = some o → env.outcome (.newWeakGlobalRef o) n = .success)
    (hs : s.jni.pending = none) :
    Ensures (newWeakGlobalRef env obj) s
      (fun r s' => s'.jni.pending = none ∧
        ((∃ r', r = some r' ∧ Makes r' s s' ∧ r'.weak = true) ∨ (r = none ∧ s' = s))) E := by
  cases obj with
  | none =>
    apply requireNoException_bind hs
    exact Ensures.pure ⟨hs, Or.inr ⟨rfl, rfl⟩⟩
  | some obj =>
    have hexec : exec (call env (.newWeakGlobalRef obj)) s =
        (.ok true, { s with jni := { s.jni with calls := s.jni.calls + 1 } }) :=
      exec_call_success env hs (hmakes obj _ rfl)
    apply Ensures.bind (Ensures.of_ok hexec (Q := fun b s' => b = true ∧ Quiet s s' ∧
      s'.jni.pending = none) ⟨rfl, rfl, hs⟩)
    rintro _ s' ⟨rfl, hquiet, hs'⟩
    apply get_bind
    apply modify_bind
    refine Ensures.pure ⟨hs', Or.inl ⟨⟨s'.made, true⟩, rfl, ⟨?_, ?_⟩, rfl⟩⟩
    . rw [hquiet]
    . rw [hquiet]

theorem fetchNativeOrderObj_ensures (henv : env.MakesByteOrder) {todo : List Slot} {logCb : Bool}
    {s : State} (hrte : .ref .jclsRte ∉ todo)
    (hshape : Shape (.meth .nativeOrderMeth :: .ref .nativeOrder :: todo) logCb s)
    (hs : s.jni.pending = none) :
    Ensures (fetchNativeOrderObj env) s
      (fun _ s' => Shape (.meth .nativeOrderMeth :: todo) logCb s' ∧ s'.jni.pending = none)
      (Fails logCb) := by
  have hrte' : Slot.ref .jclsRte ∉ .meth .nativeOrderMeth :: .ref .nativeOrder :: todo := by
    simp [hrte]
  have hnot := (List.nodup_cons.mp hshape.nodup).1
  apply Ensures.bind (javaMethInitChecked_builds env _ _ _ (by decide) (by decide) hrte' hshape hs)
  intro _ s₁ ⟨hshape₁, hs₁, hmethId⟩
  have hrte₁ : Slot.ref .jclsRte ∉ .ref .nativeOrder :: todo := by
    simp [hrte]
  apply Ensures.bind (callInitialized_ensures env hrte₁ hshape₁ hs₁ hmethId)
  intro natOrdObj s₂ ⟨hquiet₂, hobj⟩
  have hshape₂ := hshape₁.quiet hquiet₂
  have ⟨s₃, hexec₃, howns₃, hcleared₃⟩ := javaMethDestroy_disposes .nativeOrderMeth [] [] s₂
    hshape₂.owns hshape₂.typed fun _ _ => List.not_mem_nil
  have hshape₃ := (hshape₂.reopen hcleared₃ howns₃ hnot).perm (List.Perm.swap _ _ _)
  apply Ensures.bind (Ensures.of_ok hexec₃ (Q := fun _ t => t = s₃) rfl)
  rintro _ _ rfl
  apply exceptionCheck_bind
  . intro hs₃
    exact Ensures.throw ⟨rfl, hshape₃.broken, hs₃⟩
  . intro hs₃
    have hmakes (o : JObj) (n : Nat) (ho : natOrdObj = some o) :
        env.outcome (.newWeakGlobalRef o) n = .success := by
      rcases hobj with hobj | hobj
      . rw [hobj] at ho
        contradiction
      . rw [hobj] at ho
        cases ho
        exact henv n
    apply Ensures.bind (newWeakGlobalRef_ensures env hmakes hs₃)
    rintro _ s₄ ⟨hs₄, ⟨r, rfl, hmade, hweak⟩ | ⟨rfl, rfl⟩⟩
    . exact Ensures.of_ok (exec_modify _ _) ⟨hshape₃.fill hmade hweak, hs₄⟩
    . refine Ensures.of_ok (exec_modify _ _) ⟨?_, hs₄⟩
      rw [hshape₃.setRef_none]
      exact hshape₃.skip (by decide)

def cacheInitSlots : List Slot :=
  cachedClasses.map (fun c => Slot.ref c.2) ++ [.ref .actionOk, .ref .actionMatch] ++
    [.ref .resultWithDataOkNull, .ref .resultWithDataEmptyMap] ++
    [.meth .nativeOrderMeth, .ref .nativeOrder] ++ cachedMethods.map fun init => Slot.meth init.jmeth

theorem fetchRteConstrCause_builds : Builds (fetchRteConstrCause env) [] := by
  intro todo logCb s hrte hshape hs
  have ⟨r, hr, hlive⟩ := hshape.rteLive hrte
  apply get_bind
  apply use_bind hr hlive
  apply Ensures.bind (call_ensures env _ hs)
  intro found s' h
  apply modify_bind
  have hshape' := hshape.quiet h.quiet
  have hset : Shape todo logCb { s' with rteConstrCause := found } :=
    hshape'.congr (hshape'.owns.congr rfl rfl rfl) rfl rfl rfl rfl rfl
  cases found with
  | true => exact Ensures.pure ⟨hset, h.success rfl⟩
  | false => exact Ensures.throw ⟨rfl, hset.broken, h.throws rfl rfl⟩

theorem cache_ensures (henv : env.MakesByteOrder) {todo : List Slot} {logCb : Bool} {s : State}
    (hshape : Shape (cacheInitSlots ++ todo) logCb s) (hs : s.jni.pending = none) :
    Ensures (cacheReferences.cache env) s
      (fun _ s' => Shape (.meth .nativeOrderMeth :: todo) logCb s' ∧ s'.jni.pending = none)
      (Fails logCb) := by
  have hnodup := hshape.nodup
  simp only [cacheInitSlots, List.append_assoc] at hshape hnodup
  have hrte : Slot.ref .jclsRte ∉ todo := fun hmem =>
    List.disjoint_of_nodup_append hnodup (a := .ref .jclsRte) (by decide) (by simp [hmem])
  apply Ensures.bind (cacheClasses_ensures env (by decide) hshape hs)
  intro _ s ⟨hshape, hs⟩
  apply (fetchRteConstrCause_builds env).run (by simp [hrte]) hshape hs fun _ _ h => h
  intro s hshape hs
  apply (fetchActionEnums_builds env).run (by simp [hrte]) hshape hs fun _ _ h => h
  intro s hshape hs
  apply (fetchResultWithDataFields_builds env).run (by simp [hrte]) hshape hs fun _ _ h => h
  intro s hshape hs
  apply (fetchFields_looks env _ _).builds.run (by simp [hrte]) hshape hs fun _ _ h => h
  intro s hshape hs
  apply (fetchFields_looks env _ _).builds.run (by simp [hrte]) hshape hs fun _ _ h => h
  intro s hshape hs
  apply (fetchFields_looks env _ _).builds.run (by simp [hrte]) hshape hs fun _ _ h => h
  intro s hshape hs
  apply (fetchFields_looks env _ _).builds.run (by simp [hrte]) hshape hs fun _ _ h => h
  intro s hshape hs
  apply (fetchNativeHandleField_builds env).run (by simp [hrte]) hshape hs fun _ _ h => h
  intro s hshape hs
  apply Ensures.bind (fetchNativeOrderObj_ensures env henv (by simp [hrte]) hshape hs)
  intro _ s ⟨hshape, hs⟩
  have hshape : Shape (.meth .nativeOrderMeth ::
      (cachedMethods.map (fun init => Slot.meth init.jmeth) ++ todo)) logCb s := hshape
  have hshape := hshape.perm List.perm_middle.symm
  exact cacheMethods_builds env _ logCb s (by simp [hrte]) hshape hs

theorem cacheReferences_ensures (henv : env.MakesByteOrder) {todo : List Slot} {logCb : Bool}
    {s : State} (hshape : Shape (cacheInitSlots ++ todo) logCb s) (hs : s.jni.pending = none) :
    Ensures (cacheReferences env) s
      (fun _ s' => Shape (.meth .nativeOrderMeth :: todo) logCb s' ∧ s'.jni.pending = none)
      (Fails logCb) := by
  apply Ensures.bind (Fails.succeeds (cache_ensures env henv hshape hs))
  rintro _ s' (⟨rfl, h⟩ | ⟨rfl, hbroken, hs'⟩)
  . exact Ensures.pure h
  . have ⟨t, hexec, hbroken', hcleared⟩ := hbroken.dispose disposeOfCacheReferences_disposes
      fun _ => by decide
    apply Ensures.bind (Ensures.of_ok hexec (Q := fun _ t' => t' = t) rfl)
    rintro _ _ rfl
    refine Ensures.throw ⟨rfl, hbroken', ?_⟩
    rw [hcleared.eq]
    exact hs'

end Steps

end Library

end Ddwaf
