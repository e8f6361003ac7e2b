import Ddwaf.Native.Library.Lemmas

/-!
This module contains what holds while the library is loaded. The variables are filled in one order, and
when a step fails, at most one reference is lost.
-/

open Program

namespace Ddwaf

namespace Library

open State

/-- What holds between two steps: the variables of `todo` are not used yet. -/
structure Shape (todo : List Slot) (logCb : Bool) (s : State) : Prop where
  owns : Owns [] [] s
  nodup : todo.Nodup
  unused : ∀ i ∈ todo, s.slot i = none
  rte : .ref .jclsRte ∉ todo → s.ref .jclsRte ≠ none
  logVars : ∀ v ∈ logRefs, .ref v ∉ todo → s.ref v ≠ none
  methId : ∀ m, .meth m ∉ todo → (s.meth m).methId ≠ none
  typed : Typed s
  doubleValue : s.slot (.meth .numberDoubleValue) = none
  log : logCb = true → LogReady s
  callback : s.logCb = logCb
  initOk : s.initOk = false

structure Broken (gone : List Slot) (logCb : Bool) (s : State) : Prop where
  owns : ∃ lost, lost.length ≤ 1 ∧ Owns gone lost s
  typed : Typed s
  log : logCb = true → LogReady s
  callback : s.logCb = logCb
  initOk : s.initOk = false

namespace Shape

variable {todo : List Slot} {logCb : Bool} {s s' : State}

theorem rteLive (h : Shape todo logCb s) (hrte : .ref .jclsRte ∉ todo) : RteLive s := by
  have ⟨r, hr⟩ := Option.ne_none_iff_exists'.mp (h.rte hrte)
  exact ⟨r, hr, h.owns.live (i := .ref .jclsRte) List.not_mem_nil hr⟩

theorem congr (h : Shape todo logCb s) (howns : Owns [] [] s') (href : s'.ref = s.ref)
    (hmeth : s'.meth = s.meth) (hlive : s'.live = s.live) (hcb : s'.logCb = s.logCb)
    (hinit : s'.initOk = s.initOk) : Shape todo logCb s' := by
  have hslot : s'.slot = s.slot := by
    funext i
    cases i with
    | ref v => exact congrFun href v
    | meth m => exact congrArg JMethod.classGlob (congrFun hmeth m)
  constructor
  . exact howns
  . exact h.nodup
  . rw [hslot]
    exact h.unused
  . rw [href]
    exact h.rte
  . rw [href]
    exact h.logVars
  . rw [hmeth]
    exact h.methId
  . unfold Typed
    rw [hmeth]
    exact h.typed
  . rw [hslot]
    exact h.doubleValue
  . intro hlog
    constructor
    . rw [href, hlive]
      exact (h.log hlog).live
    . rw [hmeth]
      exact (h.log hlog).methId
  . rw [hcb]
    exact h.callback
  . rw [hinit]
    exact h.initOk

theorem quiet (h : Shape todo logCb s) (hquiet : Quiet s s') : Shape todo logCb s' := by
  have howns := h.owns.quiet hquiet
  unfold Quiet at hquiet
  rw [hquiet] at howns ⊢
  exact h.congr howns rfl rfl rfl rfl rfl

theorem perm {todo' : List Slot} (h : Shape todo logCb s) (hperm : todo.Perm todo') :
    Shape todo' logCb s :=
  { h with
    nodup := hperm.nodup_iff.mp h.nodup
    unused := fun i hi => h.unused i (hperm.mem_iff.mpr hi)
    rte := fun hi => h.rte fun hmem => hi (hperm.mem_iff.mp hmem)
    logVars := fun v hv hi => h.logVars v hv fun hmem => hi (hperm.mem_iff.mp hmem)
    methId := fun m hm => h.methId m fun hmem => hm (hperm.mem_iff.mp hmem) }

theorem broken (h : Shape todo logCb s) : Broken [] logCb s where
  owns := ⟨[], Nat.zero_le 1, h.owns⟩
  typed := h.typed
  log := h.log
  callback := h.callback
  initOk := h.initOk

theorem logReady_of_live (h : LogReady s) (howns : Owns [] [] s')
    (href : ∀ v ∈ logRefs, s'.ref v = s.ref v) (hmethId : (s'.meth .logMeth).methId ≠ none) : LogReady s' := by
  constructor
  . intro v hv
    have ⟨r, hr, _⟩ := h.live v hv
    have hr' : s'.ref v = some r := (href v hv).trans hr
    exact ⟨r, hr', howns.live (i := .ref v) List.not_mem_nil hr'⟩
  . exact hmethId

theorem setMeth {m : MethodVar} {j : JMethod} {methId : MethodId} {type : JMethodType}
    (h : Shape (.meth m :: todo) logCb s) (hframe : Frame (s.setMeth m j) s') (howns : Owns [] [] s')
    (hinit : Initialized methId type j) (hdouble : m = .numberDoubleValue → type = .virtual) :
    Shape todo logCb s' := by
  have hnot := (List.nodup_cons.mp h.nodup).1
  have hslot : s'.slot = Function.update s.slot (.meth m) j.classGlob := by
    rw [hframe.slot, slot_setMeth]
  have hmeth : s'.meth = Function.update s.meth m j := hframe.meth
  have href : s'.ref = s.ref := hframe.ref
  have hmethId (n : MethodVar) (hn : .meth n ∉ todo) : (s'.meth n).methId ≠ none := by
    rw [hmeth]
    by_cases hnm : n = m
    . rw [hnm, Function.update_self, hinit.methId]
      simp
    . rw [Function.update_of_ne hnm]
      apply h.methId
      rw [List.mem_cons, not_or]
      exact ⟨fun heq => hnm (Slot.meth.inj heq), hn⟩
  constructor
  . exact howns
  . exact (List.nodup_cons.mp h.nodup).2
  . intro i hi
    have hne : i ≠ .meth m := fun heq => hnot (heq ▸ hi)
    rw [hslot, Function.update_of_ne hne]
    exact h.unused i (List.mem_cons_of_mem _ hi)
  . intro hi
    rw [href]
    exact h.rte (by simp [hi])
  . intro v hv hi
    rw [href]
    exact h.logVars v hv (by simp [hi])
  . exact hmethId
  . intro n hn
    rw [hmeth] at hn ⊢
    by_cases hnm : n = m
    . rw [hnm, Function.update_self] at hn
      exact absurd hn hinit.initialized
    . rw [Function.update_of_ne hnm] at hn ⊢
      exact h.typed n hn
  . rw [hslot]
    by_cases hm : m = .numberDoubleValue
    . rw [hm, Function.update_self]
      exact hinit.virtual (hdouble hm)
    . rw [Function.update_of_ne fun heq => hm (Slot.meth.inj heq).symm]
      exact h.doubleValue
  . intro hcb
    apply logReady_of_live (h.log hcb) howns fun v _ => congrFun href v
    rw [hmeth]
    by_cases hm : m = .logMeth
    . rw [hm, Function.update_self, hinit.methId]
      simp
    . rw [Function.update_of_ne fun heq => hm heq.symm]
      exact (h.log hcb).methId
  . rw [hframe]
    exact h.callback
  . rw [hframe]
    exact h.initOk

theorem setRef {v : RefVar} {r : Option GlobalRef} (h : Shape (.ref v :: todo) logCb s)
    (hframe : Frame (s.setRef v r) s') (howns : Owns [] [] s')
    (hsome : v ∈ RefVar.jclsRte :: logRefs → r ≠ none) : Shape todo logCb s' := by
  have hnot := (List.nodup_cons.mp h.nodup).1
  have hslot : s'.slot = Function.update s.slot (.ref v) r := by
    rw [hframe.slot, slot_setRef]
  have hmeth : s'.meth = s.meth := hframe.meth
  have href : s'.ref = Function.update s.ref v r := hframe.ref
  have hne {w : RefVar} (hwv : w ≠ v) (hw : .ref w ∉ todo) : Slot.ref w ∉ Slot.ref v :: todo := by
    rw [List.mem_cons, not_or]
    exact ⟨fun heq => hwv (Slot.ref.inj heq), hw⟩
  constructor
  . exact howns
  . exact (List.nodup_cons.mp h.nodup).2
  . intro i hi
    have hne : i ≠ .ref v := fun heq => hnot (heq ▸ hi)
    rw [hslot, Function.update_of_ne hne]
    exact h.unused i (List.mem_cons_of_mem _ hi)
  . intro hi
    rw [href]
    by_cases hv : .jclsRte = v
    . rw [← hv, Function.update_self]
      exact hsome (hv ▸ List.mem_cons_self)
    . rw [Function.update_of_ne hv]
      exact h.rte (hne hv hi)
  . intro w hw hi
    rw [href]
    by_cases hwv : w = v
    . rw [← hwv, Function.update_self]
      exact hsome (hwv ▸ List.mem_cons_of_mem _ hw)
    . rw [Function.update_of_ne hwv]
      exact h.logVars w hw (hne hwv hi)
  . intro m hm
    rw [hmeth]
    exact h.methId m (by simp [hm])
  . unfold Typed
    rw [hmeth]
    exact h.typed
  . rw [hslot, Function.update_of_ne (by simp)]
    exact h.doubleValue
  . intro hcb
    refine logReady_of_live (h.log hcb) howns ?_ (hmeth ▸ (h.log hcb).methId)
    intro w hw
    rw [href]
    by_cases hwv : w = v
    . have ⟨r', hr', _⟩ := (h.log hcb).live w hw
      have hnone : s.ref w = none := h.unused (.ref w) (hwv ▸ List.mem_cons_self)
      rw [hnone] at hr'
      contradiction
    . rw [Function.update_of_ne hwv]
  . rw [hframe]
    exact h.callback
  . rw [hframe]
    exact h.initOk

theorem fill {v : RefVar} {r : GlobalRef} (h : Shape (.ref v :: todo) logCb s) (hmakes : Makes r s s')
    (hweak : r.weak = (Slot.ref v).weak) : Shape todo logCb (s'.setRef v (some r)) := by
  apply h.setRef (hmakes.frame.setRef v (some r))
  . exact h.owns.acquire (t := s'.setRef v (some r)) hmakes List.not_mem_nil
      (h.unused _ List.mem_cons_self) hweak rfl rfl (slot_setRef s' v (some r))
  . intro _
    simp

theorem setRef_none {v : RefVar} (h : Shape (.ref v :: todo) logCb s) : s.setRef v none = s := by
  have hnone : s.ref v = none := h.unused (.ref v) List.mem_cons_self
  rw [State.setRef, ← hnone, Function.update_eq_self]

theorem skip {v : RefVar} (h : Shape (.ref v :: todo) logCb s)
    (hv : v ∉ RefVar.jclsRte :: State.logRefs) : Shape todo logCb s := by
  have hframe : Frame (s.setRef v none) s := by
    rw [h.setRef_none]
    exact (Quiet.refl s).frame
  exact h.setRef hframe h.owns fun hmem => absurd hmem hv

theorem setVirtual (h : Shape todo logCb s) (m : MethodVar) :
    Shape todo logCb (s.setMeth m { s.meth m with type := .virtual }) := by
  have hslot : (s.setMeth m { s.meth m with type := .virtual }).slot = s.slot :=
    (slot_setMeth s m _).trans (Function.update_eq_self (Slot.meth m) s.slot)
  have hmethId (n : MethodVar) :
      ((s.setMeth m { s.meth m with type := .virtual }).meth n).methId = (s.meth n).methId := by
    by_cases hnm : n = m
    . rw [hnm]
      simp [State.setMeth]
    . simp [State.setMeth, Function.update_of_ne, hnm]
  have hother {n : MethodVar} (hnm : n ≠ m) :
      (s.setMeth m { s.meth m with type := .virtual }).meth n = s.meth n :=
    Function.update_of_ne hnm _ _
  constructor
  . exact h.owns.congr rfl rfl hslot
  . exact h.nodup
  . rw [hslot]
    exact h.unused
  . exact h.rte
  . exact h.logVars
  . intro n hn
    rw [hmethId]
    exact h.methId n hn
  . intro n hn
    by_cases hnm : n = m
    . rw [hnm] at hn
      simp [State.setMeth] at hn
    . rw [hother hnm] at hn ⊢
      exact h.typed n hn
  . rw [hslot]
    exact h.doubleValue
  . intro hcb
    exact ⟨(h.log hcb).live, (hmethId _).symm ▸ (h.log hcb).methId⟩
  . exact h.callback
  . exact h.initOk

theorem reopen {m : MethodVar} (h : Shape todo logCb s) (hcleared : Cleared [.meth m] s s')
    (howns : Owns [] [] s') (hm : .meth m ∉ todo) : Shape (.meth m :: todo) logCb s' := by
  have hslot {i : Slot} (hi : i ≠ .meth m) : s'.slot i = s.slot i :=
    hcleared.kept i fun hmem => hi (List.mem_singleton.mp hmem)
  have hnone {i : Slot} (hi : s.slot i = none) : s'.slot i = none := by
    by_cases him : i = .meth m
    . rw [him]
      exact hcleared.cleared _ (List.mem_singleton_self _)
    . rw [hslot him, hi]
  have href (v : RefVar) : s'.ref v = s.ref v := hslot (i := .ref v) (by simp)
  constructor
  . exact howns
  . exact List.nodup_cons.mpr ⟨hm, h.nodup⟩
  . intro i hi
    rcases List.mem_cons.mp hi with him | hi
    . exact hcleared.cleared i (List.mem_singleton.mpr him)
    . exact hnone (h.unused i hi)
  . intro hi
    rw [href]
    exact h.rte fun hmem => hi (List.mem_cons_of_mem _ hmem)
  . intro v hv hi
    rw [href]
    exact h.logVars v hv fun hmem => hi (List.mem_cons_of_mem _ hmem)
  . intro n hn
    rw [hcleared.methId]
    exact h.methId n fun hmem => hn (List.mem_cons_of_mem _ hmem)
  . exact h.typed.cleared hcleared
  . exact hnone h.doubleValue
  . intro hcb
    exact logReady_of_live (h.log hcb) howns (fun v _ => href v)
      ((hcleared.methId _).symm ▸ (h.log hcb).methId)
  . rw [hcleared.eq]
    exact h.callback
  . rw [hcleared.eq]
    exact h.initOk

end Shape

theorem Broken.live_of_eq {logCb : Bool} {s : State} (h : Broken [] logCb s) :
    ∀ r, s.ref .jclsRte = some r → r ∈ s.live := by
  intro r hr
  have ⟨lost, _, howns⟩ := h.owns
  exact howns.live (i := .ref .jclsRte) List.not_mem_nil hr

theorem Broken.quiet {gone : List Slot} {logCb : Bool} {s s' : State}
    (h : Broken gone logCb s) (hquiet : Quiet s s') : Broken gone logCb s' := by
  have ⟨lost, hlost, howns⟩ := h.owns
  have howns' := howns.quiet hquiet
  unfold Quiet at hquiet
  rw [hquiet] at howns' ⊢
  exact ⟨⟨lost, hlost, howns'⟩, h.typed, fun hcb => ⟨(h.log hcb).live, (h.log hcb).methId⟩,
    h.callback, h.initOk⟩

theorem Broken.dispose {x : Refs Unit} {L : List Slot} {logCb : Bool} {s : State}
    (hx : Disposes x L) (hL : logCb = true → ∀ v ∈ logRefs, .ref v ∉ L) (h : Broken [] logCb s) :
    ∃ s', exec x s = (.ok (), s') ∧ Broken [] logCb s' ∧ Cleared L s s' := by
  have ⟨lost, hlost, howns⟩ := h.owns
  have ⟨s', hexec, howns', hcleared⟩ := hx [] lost s howns h.typed fun _ _ => List.not_mem_nil
  refine ⟨s', hexec, ?_, hcleared⟩
  constructor
  . exact ⟨lost, hlost, howns'⟩
  . exact h.typed.cleared hcleared
  . intro hcb
    constructor
    . intro v hv
      have ⟨r, hr, _⟩ := (h.log hcb).live v hv
      have hr' : s'.ref v = some r := (hcleared.kept (.ref v) (hL hcb v hv)).trans hr
      exact ⟨r, hr', howns'.live (i := .ref v) List.not_mem_nil hr'⟩
    . rw [hcleared.methId]
      exact (h.log hcb).methId
  . rw [hcleared.eq]
    exact h.callback
  . rw [hcleared.eq]
    exact h.initOk

structure Fails (logCb : Bool) (e : Exit) (s : State) : Prop where
  exit : e = .native .null
  broken : Broken [] logCb s
  pending : s.jni.pending ≠ none

theorem Fails.succeeds {x : Refs Unit} {logCb : Bool} {s : State}
    {Q : Unit → State → Prop} {E : Exit → State → Prop} (h : Ensures x s Q (Fails logCb)) :
    Ensures (succeeds x) s (fun b s' => (b = true ∧ Q () s') ∨
      (b = false ∧ Broken [] logCb s' ∧ s'.jni.pending ≠ none)) E :=
  succeeds_ensures (h.mono_error fun _ _ hfails => ⟨hfails.exit, hfails.broken, hfails.pending⟩)

def Builds (x : Refs Unit) (vs : List Slot) : Prop :=
  ∀ todo logCb s, .ref .jclsRte ∉ vs ++ todo → Shape (vs ++ todo) logCb s → s.jni.pending = none →
    Ensures x s (fun _ s' => Shape todo logCb s' ∧ s'.jni.pending = none)
      (Fails logCb)

def Looks (x : Refs Unit) : Prop :=
  ∀ s, s.jni.pending = none → Ensures x s (fun _ s' => Quiet s s' ∧ s'.jni.pending = none)
    (fun e s' => e = .native .null ∧ Quiet s s' ∧ s'.jni.pending ≠ none)

theorem Looks.builds {x : Refs Unit} (h : Looks x) : Builds x [] := by
  intro todo logCb s _ hshape hs
  apply (h s hs).mono
  . intro _ s' h
    exact ⟨hshape.quiet h.1, h.2⟩
  . intro e s' h
    exact ⟨h.1, (hshape.quiet h.2.1).broken, h.2.2⟩

theorem Looks.bind {x y : Refs Unit} (hx : Looks x) (hy : Looks y) : Looks (do x; y) := by
  intro s hs
  apply Ensures.bind (hx s hs)
  intro _ s' h
  apply (hy s' h.2).mono
  . intro _ s'' h'
    exact ⟨h.1.trans h'.1, h'.2⟩
  . intro e s'' h'
    exact ⟨h'.1, h.1.trans h'.2.1, h'.2.2⟩

theorem Looks.forM {α : Type} {f : α → Refs Unit} (h : ∀ a, Looks (f a)) (as : List α) :
    Looks (as.forM f) := by
  induction as with
  | nil => exact fun s hs => Ensures.pure ⟨rfl, hs⟩
  | cons a as ih => exact (h a).bind ih

theorem Builds.bind {x y : Refs Unit} {vs ws : List Slot} (hx : Builds x vs) (hy : Builds y ws) :
    Builds (do x; y) (vs ++ ws) := by
  intro todo logCb s hrte hshape hs
  rw [List.append_assoc] at hrte hshape
  apply Ensures.bind (hx (ws ++ todo) logCb s hrte hshape hs)
  intro _ s' h
  exact hy todo logCb s' (fun hmem => hrte (List.mem_append_right _ hmem)) h.1 h.2

theorem Builds.run {α : Type} {x : Refs Unit} {f : Refs α} {vs todo : List Slot} {logCb : Bool}
    {s : State} {Q : α → State → Prop} {E : Exit → State → Prop} (hx : Builds x vs)
    (hrte : .ref .jclsRte ∉ vs ++ todo) (hshape : Shape (vs ++ todo) logCb s)
    (hs : s.jni.pending = none) (hE : ∀ e s', Fails logCb e s' → E e s')
    (hf : ∀ s', Shape todo logCb s' → s'.jni.pending = none → Ensures f s' Q E) :
    Ensures (do x; f) s Q E := by
  apply Ensures.bind ((hx todo logCb s hrte hshape hs).mono_error hE)
  intro _ s' h
  exact hf s' h.1 h.2

theorem Builds.forM {α : Type} {f : α → Refs Unit} (slot : α → Slot) {as : List α}
    (h : ∀ a ∈ as, Builds (f a) [slot a]) : Builds (as.forM f) (as.map slot) := by
  induction as with
  | nil => exact fun todo logCb s _ hshape hs => Ensures.pure ⟨hshape, hs⟩
  | cons a as ih =>
    exact (h a List.mem_cons_self).bind (ih fun b hb => h b (List.mem_cons_of_mem _ hb))

end Library

end Ddwaf
