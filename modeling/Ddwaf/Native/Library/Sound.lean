import Ddwaf.Native.Library.Lifetime
import Ddwaf.Native.Library.Stage

/-!
This module contains the phases of the life of the native library, and what holds in all of them.
-/

open Program

namespace Ddwaf

namespace Library

open State

theorem State.unused_shape : Shape loadSlots false State.unused := by
  have hnone (i : Slot) : State.unused.slot i = none := by
    cases i with
    | ref v => rfl
    | meth m => rfl
  constructor
  . constructor
    . exact Holdings.empty hnone
    . intro i r _ hr
      rw [hnone] at hr
      contradiction
    . intro r hr
      exact absurd hr List.not_mem_nil
  . decide
  . exact fun i _ => hnone i
  . exact fun h => absurd (by decide) h
  . intro v hv h
    exact absurd ((by decide : ∀ v ∈ logRefs, Slot.ref v ∈ loadSlots) v hv) h
  . intro m hm
    exfalso
    apply hm
    cases m <;> decide
  . exact fun m _ => rfl
  . exact hnone _
  . intro hcb
    contradiction
  . rfl
  . rfl

namespace Lifetime

variable {ι : Type} {p q : Lifetime ι}

theorem run_ensures {α : Type} {x : Refs α} {Q : State → Prop}
    (h : Ensures x p.lib.enter (fun _ s' => Q s') fun _ _ => False) :
    ∃ lib, p.run x = { p with lib } ∧ Q lib := by
  cases hexec : exec x p.lib.enter with
  | mk r s' =>
    cases r with
    | ok a =>
      refine ⟨s', ?_, h.ok a s' hexec⟩
      simp [run, hexec, Except.isOk, Except.toBool]
    | error e => exact (h.error e s' hexec).elim

structure Unloaded (p : Lifetime ι) : Prop where
  loaded : p.loaded = false
  idle : ∀ t, p.deinitializing t = none
  broken : ∃ gone logCb, Broken gone logCb p.lib
  unused : p.triedInitializing = false → p.initialized = false ∧ Shape loadSlots false p.lib

structure Up (p : Lifetime ι) (count : Nat) (initOk : Bool) : Prop where
  loaded : p.loaded = true
  triedInitializing : p.triedInitializing = true
  initOk : p.lib.initOk = initOk
  stage : Stage count p.lib

inductive Phase (p : Lifetime ι) : Prop where
  | unloaded (h : Unloaded p)
  | running (h : Up p 0 true) (hidle : ∀ t, p.deinitializing t = none)
  | deinitializing (t : ι) (count : Nat) (h : Up p count false) (hcount : count ≤ 5)
    (ht : p.deinitializing t = some count) (hidle : ∀ u, u ≠ t → p.deinitializing u = none)
  | deinitialized (h : Up p 5 false) (hidle : ∀ t, p.deinitializing t = none)

theorem Up.quiet {count : Nat} {initOk : Bool} (h : Up p count initOk) {lib : State}
    (hquiet : Quiet p.lib lib) : Up { p with lib } count initOk := by
  refine ⟨h.loaded, h.triedInitializing, ?_, Loaded.quiet h.stage hquiet⟩
  show lib.initOk = initOk
  rw [hquiet]
  exact h.initOk

theorem Phase.quiet (h : Phase p) {lib : State} (hquiet : Quiet p.lib lib) : Phase { p with lib } := by
  cases h with
  | unloaded h =>
    have ⟨gone, logCb, hbroken⟩ := h.broken
    exact .unloaded ⟨h.loaded, h.idle, ⟨gone, logCb, hbroken.quiet hquiet⟩,
      fun htried => ⟨(h.unused htried).1, (h.unused htried).2.quiet hquiet⟩⟩
  | running h hidle => exact .running (h.quiet hquiet) hidle
  | deinitializing t count h hcount ht hidle =>
    exact .deinitializing t count (h.quiet hquiet) hcount ht hidle
  | deinitialized h hidle => exact .deinitialized (h.quiet hquiet) hidle

theorem Phase.unloaded_or_up (h : Phase p) : Unloaded p ∨ ∃ count initOk, Up p count initOk := by
  cases h with
  | unloaded h => exact Or.inl h
  | running h _ => exact Or.inr ⟨_, _, h⟩
  | deinitializing t count h _ _ _ => exact Or.inr ⟨_, _, h⟩
  | deinitialized h _ => exact Or.inr ⟨_, _, h⟩

theorem Phase.rteLive (h : Phase p) (hloaded : p.loaded = true) : RteLive p.lib := by
  rcases h.unloaded_or_up with h | ⟨_, _, h⟩
  . rw [h.loaded] at hloaded
    contradiction
  . exact h.stage.rte

theorem Phase.logReady (h : Phase p) (hcb : p.lib.logCb = true) : LogReady p.lib := by
  rcases h.unloaded_or_up with h | ⟨_, _, h⟩
  . have ⟨_, logCb, hbroken⟩ := h.broken
    exact hbroken.log (hbroken.callback.symm.trans hcb)
  . exact h.stage.logReady hcb

theorem enter_quiet (s : State) : Quiet s s.enter := rfl

section Steps

variable {env : Env}

theorem load_phase (henv : env.MakesByteOrder) (h : Unloaded p) (hshape : Shape loadSlots false p.lib)
    (htried : p.triedInitializing = true) : Phase (p.load env) ∧ (p.load env).crashed = p.crashed := by
  have hload := load_ensures env henv (hshape.quiet (enter_quiet p.lib)) rfl
  have hensures : Ensures (jniOnLoad env) p.lib.enter (fun _ s' =>
      (∃ t, Shape localSlots true t ∧ t.jni.pending = none ∧ s' = { t with initOk := true }) ∨
        ((∃ gone logCb, Broken gone logCb s') ∧ s'.jni.pending ≠ none)) fun _ _ => False := by
    apply Ensures.bind (succeeds_ensures (F := fun s' => (∃ gone logCb, Broken gone logCb s') ∧
      s'.jni.pending ≠ none) (hload.mono_error fun _ _ h => ⟨h.exit, h.broken, h.pending⟩))
    rintro _ s' (⟨_, h⟩ | ⟨_, h⟩)
    . exact Ensures.pure (Or.inl h)
    . exact Ensures.pure (Or.inr h)
  have ⟨lib, hrun, hlib⟩ := run_ensures (p := p) hensures
  rw [load, hrun]
  refine ⟨?_, rfl⟩
  rcases hlib with ⟨t, ht, hpending, rfl⟩ | ⟨hbroken, hpending⟩
  . refine .running ⟨?_, htried, rfl, ht.stage⟩ h.idle
    show t.jni.pending.isNone = true
    rw [hpending]
    rfl
  . apply Phase.unloaded
    refine ⟨?_, h.idle, hbroken, fun hnot => ?_⟩
    . show lib.jni.pending.isNone = false
      exact Option.isNone_eq_false_iff.mpr (Option.isSome_iff_ne_none.mpr hpending)
    . exact absurd (htried.symm.trans hnot) (by decide)

theorem wafInitialize_phase (henv : env.MakesByteOrder) (h : Phase p) (found : Bool) :
    Phase (p.wafInitialize env found) ∧ (p.wafInitialize env found).crashed = p.crashed := by
  unfold wafInitialize
  split
  . exact ⟨h, rfl⟩
  split
  . exact ⟨h, rfl⟩
  rename_i htried
  cases h with
  | unloaded h =>
    have ⟨hinit, hshape⟩ := h.unused (Bool.eq_false_iff.mpr htried)
    have htrying : Unloaded { p with triedInitializing := true } :=
      ⟨h.loaded, h.idle, h.broken, fun hnot => Bool.noConfusion hnot⟩
    split
    . exact load_phase henv htrying hshape rfl
    . exact ⟨.unloaded htrying, rfl⟩
  | running h _ => exact absurd h.triedInitializing htried
  | deinitializing t count h _ _ _ => exact absurd h.triedInitializing htried
  | deinitialized h _ => exact absurd h.triedInitializing htried

variable [DecidableEq ι]

theorem deinitializeJni_eq (p : Lifetime ι) (t : ι) :
    p.deinitializeJni t =
      if p.lib.initOk then
        { p with
          lib := { p.lib with initOk := false }
          deinitializing := Function.update p.deinitializing t (some 0) }
      else
        p := by
  have hexec : exec compareAndSwap p.lib = (.ok p.lib.initOk, { p.lib with initOk := false }) := rfl
  unfold deinitializeJni
  rw [hexec]
  cases h : p.lib.initOk with
  | true => rfl
  | false =>
    have hlib : { p.lib with initOk := false } = p.lib := by
      rw [← h]
    simp [hlib]

theorem deinitializeJni_phase (h : Phase p) (t : ι) (hloaded : p.loaded = true) :
    Phase (p.deinitializeJni t) ∧ (p.deinitializeJni t).crashed = p.crashed := by
  rw [deinitializeJni_eq]
  cases h with
  | unloaded h =>
    rw [h.loaded] at hloaded
    contradiction
  | running h hidle =>
    rw [if_pos h.initOk]
    refine ⟨.deinitializing t 0 ⟨h.loaded, h.triedInitializing, rfl, ?_⟩ (by decide) ?_ ?_, rfl⟩
    . exact ⟨h.stage.owns.congr rfl rfl rfl, h.stage.cleared, h.stage.rte, h.stage.typed,
        fun hcb => ⟨(h.stage.log hcb).live, (h.stage.log hcb).methId⟩, h.stage.callback⟩
    . exact Function.update_self _ _ _
    . intro u hu
      show Function.update p.deinitializing t (some 0) u = none
      rw [Function.update_of_ne hu]
      exact hidle u
  | deinitializing u count h hcount hu hidle =>
    rw [h.initOk]
    exact ⟨.deinitializing u count h hcount hu hidle, rfl⟩
  | deinitialized h hidle =>
    rw [h.initOk]
    exact ⟨.deinitialized h hidle, rfl⟩

theorem deinitializeNext_phase (h : Phase p) (t : ι) {count : Nat}
    (ht : p.deinitializing t = some count) :
    Phase (p.deinitializeNext env t count) ∧ (p.deinitializeNext env t count).crashed = p.crashed := by
  cases h with
  | unloaded h =>
    rw [h.idle] at ht
    contradiction
  | running h hidle =>
    rw [hidle] at ht
    contradiction
  | deinitialized h hidle =>
    rw [hidle] at ht
    contradiction
  | deinitializing u count' h hcount hu hidle =>
    have htu : t = u := by
      by_contra hne
      rw [hidle t hne] at ht
      contradiction
    rw [htu] at ht ⊢
    have hcounts : count = count' := Option.some.inj (ht.symm.trans hu)
    rw [hcounts]
    have hother (v : ι) (hv : v ≠ u) (n : Option Nat) :
        Function.update p.deinitializing u n v = none := by
      rw [Function.update_of_ne hv]
      exact hidle v hv
    unfold deinitializeNext
    cases hx : (deinitializeJni.calls env)[count']? with
    | some x =>
      have hlt : count' < 5 := (List.getElem?_eq_some_iff.mp hx).1
      have ⟨lib, hrun, hstage, hinit⟩ := run_ensures (p := p)
        (Stage.next (Loaded.quiet h.stage (enter_quiet p.lib)) hx)
      dsimp only
      rw [hrun]
      refine ⟨.deinitializing u (count' + 1) ?_ (by omega) (Function.update_self _ _ _) ?_, rfl⟩
      . exact ⟨h.loaded, h.triedInitializing, hinit.trans h.initOk, hstage⟩
      . exact fun v hv => hother v hv _
    | none =>
      have hle : 5 ≤ count' := List.getElem?_eq_none_iff.mp hx
      have heq : count' = 5 := by omega
      rw [heq] at h
      refine ⟨.deinitialized ⟨h.loaded, h.triedInitializing, h.initOk, h.stage⟩ ?_, rfl⟩
      intro v
      by_cases hv : v = u
      . rw [hv]
        exact Function.update_self _ _ _
      . exact hother v hv _

theorem step_phase (henv : env.MakesByteOrder) {event : LibraryEvent ι} (h : Phase p)
    (hstep : p.step env event q) : Phase q ∧ q.crashed = p.crashed := by
  cases event with
  | wafInitialize found =>
    rw [show q = _ from hstep]
    exact wafInitialize_phase henv h found
  | deinitializeJni t =>
    obtain ⟨hloaded, _, rfl⟩ := hstep
    exact deinitializeJni_phase h t hloaded
  | deinitializeNext t =>
    obtain ⟨count, ht, rfl⟩ := hstep
    exact deinitializeNext_phase h t ht
  | checkInit =>
    obtain ⟨hloaded, rfl⟩ := hstep
    have hrte := (h.rteLive hloaded).quiet (enter_quiet p.lib)
    have hensures : Ensures (checkInit env) p.lib.enter (fun _ s' => Quiet p.lib s')
        fun _ _ => False := by
      apply get_bind
      split
      . exact Ensures.pure (enter_quiet p.lib)
      . apply Ensures.bind (throwNew_ensures env _ rfl hrte)
        intro _ s' h'
        exact Ensures.pure ((enter_quiet p.lib).trans h'.1)
    have ⟨lib, hrun, hquiet⟩ := run_ensures (p := p) hensures
    rw [hrun]
    exact ⟨h.quiet hquiet, rfl⟩
  | log level message =>
    obtain ⟨hcb, rfl⟩ := hstep
    have hlog := (h.logReady hcb).quiet (enter_quiet p.lib)
    have ⟨lib, hrun, hquiet, _⟩ := run_ensures (p := p) (wafLoggingC_ensures env level message hlog)
    rw [hrun]
    exact ⟨h.quiet ((enter_quiet p.lib).trans hquiet), rfl⟩

end Steps

/-- What a process can rely on. -/
structure Sound (p : Lifetime ι) : Prop where
  -- No reference is used or deleted that is not live, and JNI is not called with an exception pending.
  crashed : p.crashed = false
  -- As long as the library is initialized, each variable has its own reference, and there are no others.
  owned : p.lib.initOk = true → p.lib.live.Nodup ∧ (∀ r, r ∈ p.lib.live ↔ ∃ i, p.lib.slot i = some r) ∧
    ∀ i j r, p.lib.slot i = some r → p.lib.slot j = some r → i = j
  logged : p.lib.logCb = true → LogReady p.lib
  thrown : p.loaded = true → RteLive p.lib
  once : ∀ t u, p.deinitializing t ≠ none → p.deinitializing u ≠ none → t = u
  released : p.loaded = true → p.lib.initOk = false → (∀ t, p.deinitializing t = none) →
    ∃ r, p.lib.ref .jclsRte = some r ∧ p.lib.live = [r]
  lost : ∃ l : List GlobalRef, l.length ≤ 1 ∧ ∀ r ∈ p.lib.live, r ∈ l ∨ ∃ i, p.lib.slot i = some r

theorem Phase.owns (h : Phase p) : ∃ gone lost, lost.length ≤ 1 ∧ Owns gone lost p.lib := by
  rcases h.unloaded_or_up with h | ⟨_, _, h⟩
  . have ⟨gone, _, hbroken⟩ := h.broken
    exact ⟨gone, hbroken.owns⟩
  . exact ⟨_, [], Nat.zero_le 1, h.stage.owns⟩

theorem Phase.sound (h : Phase p) (hcrashed : p.crashed = false) : Sound p := by
  constructor
  . exact hcrashed
  . intro hinitOk
    have howns : Owns [] [] p.lib := by
      cases h with
      | unloaded h =>
        have ⟨_, _, hbroken⟩ := h.broken
        rw [hbroken.initOk] at hinitOk
        contradiction
      | running h _ => exact h.stage.owns
      | deinitializing t count h _ _ _ =>
        rw [h.initOk] at hinitOk
        contradiction
      | deinitialized h _ =>
        rw [h.initOk] at hinitOk
        contradiction
    refine ⟨howns.holdings.nodup, ?_, ?_⟩
    . intro r
      rw [howns.holdings.mem_alive]
      simp
    . exact fun i j r => howns.holdings.unique i j r List.not_mem_nil List.not_mem_nil
  . exact h.logReady
  . exact h.rteLive
  . intro t u ht hu
    cases h with
    | unloaded h => exact absurd (h.idle t) ht
    | running _ hidle => exact absurd (hidle t) ht
    | deinitialized _ hidle => exact absurd (hidle t) ht
    | deinitializing v count _ _ _ hidle =>
      have htv : t = v := by
        by_contra hne
        exact ht (hidle t hne)
      have huv : u = v := by
        by_contra hne
        exact hu (hidle u hne)
      rw [htv, huv]
  . intro hloaded hinitOk hidle
    cases h with
    | unloaded h =>
      rw [h.loaded] at hloaded
      contradiction
    | running h _ =>
      rw [h.initOk] at hinitOk
      contradiction
    | deinitializing t count _ _ ht _ =>
      rw [hidle t] at ht
      contradiction
    | deinitialized h _ => exact h.stage.released
  . have ⟨gone, lost, hlost, howns⟩ := h.owns
    refine ⟨lost, hlost, ?_⟩
    intro r hr
    rcases (howns.holdings.mem_alive r).mp hr with hmem | ⟨i, _, hi⟩
    . exact Or.inl hmem
    . exact Or.inr ⟨i, hi⟩

variable [DecidableEq ι]

theorem phase_invariant {env : Env} (henv : env.MakesByteOrder) :
    (lifetimes env ι).Invariant fun p => Phase p ∧ p.crashed = false where
  init := by
    rintro p rfl
    have hshape := State.unused_shape
    exact ⟨.unloaded ⟨rfl, fun _ => rfl, ⟨[], false, hshape.broken⟩, fun _ => ⟨rfl, hshape⟩⟩, rfl⟩
  step := by
    rintro p event q ⟨hphase, hcrashed⟩ hstep
    have ⟨hphase', hcrashed'⟩ := step_phase henv hphase hstep
    exact ⟨hphase', hcrashed'.trans hcrashed⟩

end Lifetime

theorem lifetime_sound {env : Env} (henv : env.MakesByteOrder) {ι : Type} [DecidableEq ι]
    {events : List (LibraryEvent ι)} {p : Lifetime ι} (hrun : (lifetimes env ι).Reaches events p) :
    p.Sound := by
  have ⟨hphase, hcrashed⟩ := (Lifetime.phase_invariant henv).reaches hrun
  exact hphase.sound hcrashed

def Env.sample : Env where
  jvm := {
    outcome := fun _ _ => .success
    alloc := fun _ => .total
    rteConstrCause := false
    jclsRte := false
    minLevel := .trace
    place := fun _ => ⟨[], [], 0⟩
    ddwafRunLogs := fun _ => []
  }
  outcome _ _ := .success
  throws_for_null := by simp
  newObject_throws := by simp
  loggable _ := false
  forGlibc := true
  glibcVersionFound := true
  timeoutIsSet := false
  timeoutIsNumber := false

/-- The library is deinitialized by one thread, while another one finds that there is nothing to do. -/
theorem lifetime_sound_sample :
    ∃ p, (lifetimes .sample Bool).Reaches
        [.wafInitialize true, .log .error (cstr "message"), .deinitializeJni false,
          .deinitializeNext false, .deinitializeJni true, .deinitializeNext false,
          .deinitializeNext false, .deinitializeNext false, .deinitializeNext false,
          .deinitializeNext false, .checkInit] p ∧
      p.Sound ∧ p.loaded = true ∧ p.lib.initOk = false ∧ ∀ t, p.deinitializing t = none := by
  let M := lifetimes .sample Bool
  let p₀ : Lifetime Bool := ⟨.unused, false, false, false, fun _ => none, false⟩
  let p₁ := p₀.wafInitialize .sample true
  let p₂ := p₁.run (wafLoggingC .sample .error (cstr "message"))
  let p₃ := p₂.deinitializeJni false
  let p₄ := p₃.deinitializeNext .sample false 0
  let p₅ := p₄.deinitializeJni true
  let p₆ := p₅.deinitializeNext .sample false 1
  let p₇ := p₆.deinitializeNext .sample false 2
  let p₈ := p₇.deinitializeNext .sample false 3
  let p₉ := p₈.deinitializeNext .sample false 4
  let p₁₀ := p₉.deinitializeNext .sample false 5
  have hload : M.step p₀ (.wafInitialize true) p₁ := rfl
  have hlog : M.step p₁ (.log .error (cstr "message")) p₂ := ⟨by decide +kernel, rfl⟩
  have hbegin : M.step p₂ (.deinitializeJni false) p₃ :=
    ⟨by decide +kernel, by decide +kernel, rfl⟩
  have hfirst : M.step p₃ (.deinitializeNext false) p₄ := ⟨0, by decide +kernel, rfl⟩
  have hother : M.step p₄ (.deinitializeJni true) p₅ :=
    ⟨by decide +kernel, by decide +kernel, rfl⟩
  have hsecond : M.step p₅ (.deinitializeNext false) p₆ := ⟨1, by decide +kernel, rfl⟩
  have hthird : M.step p₆ (.deinitializeNext false) p₇ := ⟨2, by decide +kernel, rfl⟩
  have hfourth : M.step p₇ (.deinitializeNext false) p₈ := ⟨3, by decide +kernel, rfl⟩
  have hfifth : M.step p₈ (.deinitializeNext false) p₉ := ⟨4, by decide +kernel, rfl⟩
  have hend : M.step p₉ (.deinitializeNext false) p₁₀ := ⟨5, by decide +kernel, rfl⟩
  have hcheck : M.step p₁₀ .checkInit (p₁₀.run (checkInit .sample)) := ⟨by decide +kernel, rfl⟩
  have hbegun : M.Reaches _ p₄ := ((((System.Reaches.init rfl).step hload).step hlog).step hbegin).step
    hfirst
  have hended : M.Reaches _ p₁₀ :=
    (((((hbegun.step hother).step hsecond).step hthird).step hfourth).step hfifth).step hend
  have hrun := hended.step hcheck
  exact ⟨_, hrun, lifetime_sound (fun _ => rfl) hrun, by decide +kernel, by decide +kernel,
    by decide +kernel⟩

end Library

end Ddwaf
