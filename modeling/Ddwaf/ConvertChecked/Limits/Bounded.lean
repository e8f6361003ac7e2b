import Mathlib.Algebra.GroupWithZero.Nat
import Ddwaf.ConvertChecked.Limits.Impl

/-!
This module contains the proof that the limits hold for any Java values.
-/

namespace Ddwaf

namespace DdwafObject

mutual

def nodes : DdwafObject → Nat
  | .array a => nodesArray a + 1
  | .map a => nodesMap a + 1
  | _ => 1

def nodesArray : List DdwafObject → Nat
  | [] => 0
  | o :: os => o.nodes + nodesArray os

def nodesMap : List (List UInt8 × DdwafObject) → Nat
  | [] => 0
  | (_, o) :: es => o.nodes + nodesMap es

end

mutual

def emptyAt (level : Nat) : DdwafObject → Bool
  | .array a => if level = 0 then a.isEmpty else emptyAtArray (level - 1) a
  | .map a => if level = 0 then a.isEmpty else emptyAtMap (level - 1) a
  | _ => true

def emptyAtArray (level : Nat) : List DdwafObject → Bool
  | [] => true
  | o :: os => o.emptyAt level && emptyAtArray level os

def emptyAtMap (level : Nat) : List (List UInt8 × DdwafObject) → Bool
  | [] => true
  | (_, o) :: es => o.emptyAt level && emptyAtMap level es

end

theorem nodesArray_eq (a : List DdwafObject) : nodesArray a = (a.map nodes).sum := by
  induction a with
  | nil => rfl
  | cons o os ih => rw [nodesArray, ih, List.map_cons, List.sum_cons]

theorem nodesMap_eq (a : List (List UInt8 × DdwafObject)) :
    nodesMap a = (a.map fun e => e.2.nodes).sum := by
  induction a with
  | nil => rfl
  | cons e es ih => rw [nodesMap, ih, List.map_cons, List.sum_cons]

theorem one_le_nodes (o : DdwafObject) : 1 ≤ o.nodes := by
  cases o with
  | array a => exact Nat.le_add_left 1 _
  | map a => exact Nat.le_add_left 1 _
  | invalid | signed _ | unsigned _ | string _ | bool _ | float _ | null => exact Nat.le_refl 1

theorem emptyAtArray_eq (level : Nat) (a : List DdwafObject) :
    emptyAtArray level a = a.all fun o => o.emptyAt level := by
  induction a with
  | nil => rfl
  | cons o os ih => rw [emptyAtArray, ih, List.all_cons]

theorem emptyAtMap_eq (level : Nat) (a : List (List UInt8 × DdwafObject)) :
    emptyAtMap level a = a.all fun e => e.2.emptyAt level := by
  induction a with
  | nil => rfl
  | cons e es ih => rw [emptyAtMap, ih, List.all_cons]

theorem emptyAt_of_height {o : DdwafObject} {level : Nat} (h : o.height ≤ level) :
    o.emptyAt level = true := by
  induction o using DdwafObject.ind generalizing level with
  | array a ih =>
    rw [height, ← Nat.lt_succ_iff, Nat.succ_eq_add_one, heightArray_lt_iff] at h
    rw [emptyAt]
    split
    . next hzero =>
      cases a with
      | nil => rfl
      | cons o os =>
        have := h o List.mem_cons_self
        omega
    . next hpos =>
      rw [emptyAtArray_eq, List.all_eq_true]
      intro o ho
      apply ih o ho
      have := h o ho
      omega
  | map a ih =>
    rw [height, ← Nat.lt_succ_iff, Nat.succ_eq_add_one, heightMap_lt_iff] at h
    rw [emptyAt]
    split
    . next hzero =>
      cases a with
      | nil => rfl
      | cons e es =>
        have := h e List.mem_cons_self
        omega
    . next hpos =>
      rw [emptyAtMap_eq, List.all_eq_true]
      intro e he
      apply ih e he
      have := h e he
      omega
  | invalid | signed _ | unsigned _ | string _ | bool _ | float _ | null => rfl

end DdwafObject

namespace ConvertLimits

open Program

variable {W ρ α : Type}

def Budget (total : Nat) (s : State W) : Prop :=
  0 ≤ s.maxElements ∧ s.maxElements + s.conversions = total

def Later (s s' : State W) : Prop := s.conversions ≤ s'.conversions

instance : IsPreorder (State W) Later where
  refl s := Nat.le_refl s.conversions
  trans _ _ _ h h' := Nat.le_trans h h'

def ThrownOrUndefined (env : JavaEnv W ρ) (e : Abort) : Prop :=
  (∃ exc, e = .thrown exc) ∨ (e = .undefined ∧ ¬env.Defined)

/--
However it ends, a call keeps the budget. When it returns a value, that has no more nodes than the
conversions that have been made for it.
-/
abbrev Bounded (env : JavaEnv W ρ) (total : Nat) (x : Convert W α) (s : State W)
    (Q : α → State W → Prop) : Prop :=
  Keeps (Budget total) Later (ThrownOrUndefined env) x s Q

def Unchanged (s s' : State W) : Prop :=
  s'.maxElements = s.maxElements ∧ s'.conversions = s.conversions

section Calls

variable {total : Nat} {s : State W}

theorem Budget.of_unchanged {s' : State W} (h : Budget total s) (hs : Unchanged s s') :
    Budget total s' := by
  unfold Budget at h ⊢
  rw [hs.1, hs.2]
  exact h

theorem Later.of_unchanged {s' : State W} (hs : Unchanged s s') : Later s s' := by
  rw [Later, hs.2]

variable (env : JavaEnv W ρ)

theorem exec_call (f : W → α × W) (s : State W) :
    exec (call f) s = (.ok (f s.world).1, { s with world := (f s.world).2 }) := by
  rfl

theorem call_bounded (f : W → α × W) (hs : Budget total s) :
    Bounded env total (call f) s (fun a s' => Unchanged s s' ∧ (f s.world).1 = a) :=
  Keeps.of_ok _ _ (exec_call f s) (hs.of_unchanged ⟨rfl, rfl⟩) (Later.of_unchanged ⟨rfl, rfl⟩)
    ⟨⟨rfl, rfl⟩, rfl⟩

theorem callChecked_returns (f : W → Except Throwable α × W) (hs : Budget total s) :
    Bounded env total (callChecked f) s
      (fun a s' => Unchanged s s' ∧ ∃ w, (f w).1 = .ok a) := by
  apply Keeps.bind (call_bounded env f hs)
  intro r s' hs' _ ⟨hunchanged, hr⟩
  cases r with
  | ok a => exact Keeps.pure hs' ⟨hunchanged, _, hr⟩
  | error exc => exact Keeps.throw hs' (Or.inl ⟨exc, rfl⟩)

theorem callChecked_bounded (f : W → Except Throwable α × W) (hs : Budget total s) :
    Bounded env total (callChecked f) s (fun _ s' => Unchanged s s') :=
  (callChecked_returns env f hs).mono (fun _ h => h) fun _ _ _ _ h => h.1

theorem log_bounded (hs : Budget total s) :
    Bounded env total (log env) s (fun _ s' => Unchanged s s') :=
  Keeps.modify (hs.of_unchanged ⟨rfl, rfl⟩) (Later.of_unchanged ⟨rfl, rfl⟩) ⟨rfl, rfl⟩

theorem succeeds_bounded (msg : String) (hs : Budget total s) :
    Bounded env total (succeeds env msg) s (fun _ s' => Unchanged s s') := by
  apply Keeps.bind (call_bounded env env.ddwafObject hs)
  intro b s' hs' _ ⟨hunchanged, _⟩
  cases b with
  | true => exact Keeps.pure hs' hunchanged
  | false => exact Keeps.throw hs' (Or.inl ⟨_, rfl⟩)

theorem undefined_bounded {Q : α → State W → Prop} (hs : Budget total s) (h : ¬env.Defined) :
    Bounded env total (throw .undefined : Convert W α) s Q :=
  Keeps.throw hs (Or.inr ⟨rfl, h⟩)

theorem arrayElement_bounded (obj : ρ) (i : Nat) (hs : Budget total s) :
    Bounded env total (arrayElement env obj i) s (fun _ s' => Unchanged s s') := by
  unfold arrayElement
  split
  . next hprimitive =>
    apply undefined_bounded env hs
    intro h
    rw [h.element obj] at hprimitive
    contradiction
  . exact (call_bounded env _ hs).mono (fun _ h => h) fun _ _ _ _ h => h.1

theorem keyJstr_bounded {keyObj : ρ} (hkey : env.Defined → env.isNull keyObj = false)
    (hs : Budget total s) :
    Bounded env total (keyJstr env keyObj) s
      (fun keyJstr s' => Unchanged s s' ∧ (env.Defined → env.isNull keyJstr = false)) := by
  unfold keyJstr
  split
  . next hnull =>
    apply undefined_bounded env hs
    intro h
    rw [hkey h] at hnull
    contradiction
  . apply Keeps.bind (call_bounded env (env.toString keyObj) hs)
    intro r s' hs' _ ⟨hunchanged, hr⟩
    cases r with
    | ok keyJstr => exact Keeps.pure hs' ⟨hunchanged, fun h => h.string _ _ _ hr⟩
    | error exc =>
      apply Keeps.bind (call_bounded env (env.javaWrapExc _ exc) hs')
      intro wrapped s'' hs'' _ _
      exact Keeps.throw hs'' (Or.inl ⟨wrapped, rfl⟩)

theorem keyCstr_bounded (lims : WafLimits) {keyJstr : ρ}
    (hstring : env.Defined → env.isNull keyJstr = false) (hs : Budget total s) :
    Bounded env total (keyCstr env lims keyJstr) s (fun _ s' => Unchanged s s') := by
  unfold keyCstr
  split
  . next hnull =>
    apply undefined_bounded env hs
    intro h
    rw [hstring h] at hnull
    contradiction
  . exact callChecked_bounded env _ hs

theorem isArray_bounded (obj : ρ) (hs : Budget total s) :
    Bounded env total (isArray env obj) s (fun _ s' => Unchanged s s') := by
  unfold isArray
  split
  . exact Keeps.pure hs ⟨rfl, rfl⟩
  . exact callChecked_bounded env _ hs

end Calls

section Loops

variable {total : Nat} (env : JavaEnv W ρ)

structure Made (P : α → Prop) (weight : α → Nat) (elements : List α) (s : State W)
    (made : List α) (s' : State W) : Prop where
  all : ∀ a ∈ made, P a
  weight_le : (made.map weight).sum + s.conversions ≤ (elements.map weight).sum + s'.conversions

theorem Made.refl {P : α → Prop} {weight : α → Nat} {elements : List α} {s s' : State W}
    (h : ∀ a ∈ elements, P a) (hs : Unchanged s s') : Made P weight elements s elements s' :=
  ⟨h, by rw [hs.2]⟩

theorem Made.cons {P : α → Prop} {weight : α → Nat} {elements made : List α} {a : α}
    {s s' s'' : State W} (h : Made P weight (elements ++ [a]) s' made s'')
    (ha : weight a + s.conversions ≤ s'.conversions) : Made P weight elements s made s'' := by
  refine ⟨h.all, ?_⟩
  have hle := h.weight_le
  simp only [List.map_append, List.map_singleton, List.sum_append, List.sum_singleton] at hle
  omega

theorem forall_mem_concat {P : α → Prop} {elements : List α} {a : α} (h : ∀ b ∈ elements, P b)
    (ha : P a) : ∀ b ∈ elements ++ [a], P b := by
  intro b hb
  rw [List.mem_append, List.mem_singleton] at hb
  cases hb with
  | inl hb => exact h b hb
  | inr hb =>
    rw [hb]
    exact ha

def Makes (env : JavaEnv W ρ) (total : Nat) (P : α → Prop) (weight : α → Nat) (x : Convert W α) : Prop :=
  ∀ s, Budget total s → 0 < s.maxElements →
    Bounded env total x s fun a s' => P a ∧ weight a + s.conversions ≤ s'.conversions

theorem Budget.maxElements_lt {s s' : State W} {a : α} {weight : α → Nat} (hs : Budget total s)
    (hs' : Budget total s') (hweight : ∀ a, 1 ≤ weight a)
    (h : weight a + s.conversions ≤ s'.conversions) : s'.maxElements < s.maxElements := by
  have := hweight a
  have hbudget := hs.2
  have hbudget' := hs'.2
  omega

theorem arrayLoop_bounded {P : DdwafObject → Prop} {item : ρ → Convert W DdwafObject} (obj : ρ)
    (hitem : ∀ element, Makes env total P DdwafObject.nodes (item element)) (i n : Nat)
    {elements : List DdwafObject} (helements : ∀ o ∈ elements, P o) {s : State W}
    (hs : Budget total s) :
    Bounded env total (arrayLoop env item obj i n elements) s
      (Made P DdwafObject.nodes elements s) := by
  induction n generalizing i elements s with
  | zero => exact Keeps.pure hs (Made.refl helements ⟨rfl, rfl⟩)
  | succ n ih =>
    apply Keeps.get_bind
    split
    . next hdone =>
      apply Keeps.bind (log_bounded env hs)
      intro _ s' hs' _ hunchanged
      exact Keeps.pure hs' (Made.refl helements hunchanged)
    . next hleft =>
      apply Keeps.bind (arrayElement_bounded env obj i hs)
      intro element s₁ hs₁ _ h₁
      apply Keeps.bind (hitem element s₁ hs₁ (by rw [h₁.1]; omega))
      intro value s₂ hs₂ _ ⟨hvalue, hweight⟩
      rw [h₁.2] at hweight
      apply Keeps.bind (succeeds_bounded env _ hs₂)
      intro _ s₃ hs₃ _ h₃
      apply (ih (i + 1) (forall_mem_concat helements hvalue) hs₃).mono (fun _ h => h)
      intro made s₄ _ _ hmade
      exact hmade.cons (by rw [h₃.2]; exact hweight)

theorem iteratorLoop_bounded {P : α → Prop} {weight : α → Nat} (hpos : ∀ a, 1 ≤ weight a)
    {item : Convert W α} (it : ρ) (hitem : Makes env total P weight item) (turns : Nat)
    {elements : List α} (helements : ∀ a ∈ elements, P a) {s : State W} (hs : Budget total s)
    (hturns : s.maxElements < turns) :
    Bounded env total (iteratorLoop env item it turns elements) s fun r =>
      Made P weight elements s r.1 := by
  induction turns generalizing elements s with
  | zero =>
    have := hs.1
    omega
  | succ turns ih =>
    apply Keeps.bind (call_bounded env (env.iteratorHasNext it) hs)
    intro next s₁ hs₁ _ ⟨h₁, _⟩
    split
    . next pending => exact Keeps.pure hs₁ (Made.refl helements h₁)
    . next exc _ => exact Keeps.throw hs₁ (Or.inl ⟨exc, rfl⟩)
    . apply Keeps.get_bind
      split
      . next hdone =>
        apply Keeps.bind (log_bounded env hs₁)
        intro _ s₂ hs₂ _ h₂
        exact Keeps.pure hs₂ (Made.refl helements ⟨h₂.1.trans h₁.1, h₂.2.trans h₁.2⟩)
      . next hleft =>
        apply Keeps.bind (hitem s₁ hs₁ (by omega))
        intro a s₂ hs₂ _ ⟨ha, hweight⟩
        have hlt := hs₁.maxElements_lt hs₂ hpos hweight
        rw [h₁.2] at hweight
        rw [h₁.1] at hlt
        apply (ih (forall_mem_concat helements ha) hs₂ (by omega)).mono (fun _ h => h)
        intro made s₃ _ _ hmade
        exact hmade.cons hweight

theorem iterableItem_makes {P : DdwafObject → Prop} {item : ρ → Convert W DdwafObject} (it : ρ)
    (hitem : ∀ element, Makes env total P DdwafObject.nodes (item element)) :
    Makes env total P DdwafObject.nodes (iterableItem env item it) := by
  intro s hs hleft
  apply Keeps.bind (callChecked_bounded env (env.iteratorNext it) hs)
  intro element s₁ hs₁ _ h₁
  apply Keeps.bind (hitem element s₁ hs₁ (by rw [h₁.1]; exact hleft))
  intro value s₂ hs₂ _ ⟨hvalue, hweight⟩
  apply Keeps.bind (succeeds_bounded env _ hs₂)
  intro _ s₃ hs₃ _ h₃
  apply Keeps.pure hs₃
  rw [h₃.2, ← h₁.2]
  exact ⟨hvalue, hweight⟩

theorem mapItem_makes {P : DdwafObject → Prop} (lims : WafLimits)
    {item : ρ → Convert W DdwafObject} (it : ρ)
    (hitem : ∀ element, Makes env total P DdwafObject.nodes (item element)) :
    Makes env total (fun e : List UInt8 × DdwafObject => P e.2) (fun e => e.2.nodes)
      (mapItem env lims item it) := by
  intro s hs hleft
  apply Keeps.bind (callChecked_bounded env (env.iteratorNext it) hs)
  intro entry s₁ hs₁ _ h₁
  apply Keeps.bind (callChecked_returns env (env.entryKey entry) hs₁)
  intro keyObj s₂ hs₂ _ ⟨h₂, _, hkey⟩
  apply Keeps.bind (keyJstr_bounded env (fun h => h.key _ _ _ hkey) hs₂)
  intro keyJstr s₃ hs₃ _ ⟨h₃, hstring⟩
  apply Keeps.bind (callChecked_bounded env (env.entryValue entry) hs₃)
  intro valueObj s₄ hs₄ _ h₄
  have hmax : s₄.maxElements = s.maxElements := by rw [h₄.1, h₃.1, h₂.1, h₁.1]
  have hconversions : s₄.conversions = s.conversions := by rw [h₄.2, h₃.2, h₂.2, h₁.2]
  apply Keeps.bind (hitem valueObj s₄ hs₄ (by rw [hmax]; exact hleft))
  intro value s₅ hs₅ _ ⟨hvalue, hweight⟩
  apply Keeps.bind (keyCstr_bounded env lims hstring hs₅)
  intro keyCstr s₆ hs₆ _ h₆
  apply Keeps.bind (succeeds_bounded env _ hs₆)
  intro _ s₇ hs₇ _ h₇
  apply Keeps.pure hs₇
  rw [h₇.2, h₆.2, ← hconversions]
  exact ⟨hvalue, hweight⟩

end Loops

section Containers

variable {total : Nat} (env : JavaEnv W ρ) (lims : WafLimits)

def Fits (recLevel : Nat) (s : State W) (o : DdwafObject) (s' : State W) : Prop :=
  o.height + recLevel ≤ lims.maxDepth ∧ o.nodes + s.conversions ≤ s'.conversions + 1

variable {lims}

theorem Fits.array {recLevel : Nat} {s s' : State W} {elements : List DdwafObject}
    (hlevel : recLevel < lims.maxDepth)
    (h : Made (fun o => o.height + (recLevel + 1) ≤ lims.maxDepth) DdwafObject.nodes [] s elements s') :
    Fits lims recLevel s (.array elements) s' := by
  have hweight := h.weight_le
  rw [List.map_nil, List.sum_nil] at hweight
  constructor
  . have hheight : DdwafObject.heightArray elements < lims.maxDepth - recLevel + 1 := by
      rw [DdwafObject.heightArray_lt_iff]
      intro o ho
      have := h.all o ho
      omega
    rw [DdwafObject.height]
    omega
  . rw [DdwafObject.nodes, DdwafObject.nodesArray_eq]
    omega

theorem Fits.map {recLevel : Nat} {s s' : State W} {entries : List (List UInt8 × DdwafObject)}
    (hlevel : recLevel < lims.maxDepth)
    (h : Made (fun e : List UInt8 × DdwafObject => e.2.height + (recLevel + 1) ≤ lims.maxDepth)
      (fun e => e.2.nodes) [] s entries s') : Fits lims recLevel s (.map entries) s' := by
  have hweight := h.weight_le
  rw [List.map_nil, List.sum_nil] at hweight
  constructor
  . have hheight : DdwafObject.heightMap entries < lims.maxDepth - recLevel + 1 := by
      rw [DdwafObject.heightMap_lt_iff]
      intro e he
      have := h.all e he
      omega
    rw [DdwafObject.height]
    omega
  . rw [DdwafObject.nodes, DdwafObject.nodesMap_eq]
    omega

theorem Fits.of_single {recLevel : Nat} {s s' : State W} {o : DdwafObject} (hheight : o.height = 0)
    (hnodes : o.nodes = 1) (hlevel : recLevel ≤ lims.maxDepth)
    (hs : s.conversions ≤ s'.conversions) : Fits lims recLevel s o s' := by
  constructor
  . omega
  . omega

variable {recLevel : Nat} (hrec : recLevel ≤ lims.maxDepth)
variable {item : ρ → Convert W DdwafObject}
variable (hitem : recLevel < lims.maxDepth → ∀ element, Makes env total
  (fun o => o.height + (recLevel + 1) ≤ lims.maxDepth) DdwafObject.nodes (item element))

include hrec

theorem convertLeaf_bounded (obj : ρ) {s : State W} (hs : Budget total s) :
    Bounded env total (convertLeaf env lims obj) s (Fits lims recLevel s) := by
  have hmake : ∀ {β : Type} (f : W → Except Throwable β × W) (msg : String)
      (make : β → DdwafObject), (∀ b, (make b).height = 0 ∧ (make b).nodes = 1) →
      Bounded env total (do
        let b ← callChecked f
        succeeds env msg
        return make b) s (Fits lims recLevel s) := by
    intro β f msg make hsingle
    apply Keeps.bind (callChecked_bounded env f hs)
    intro b s₁ hs₁ h₁ _
    apply Keeps.bind (succeeds_bounded env msg hs₁)
    intro _ s₂ hs₂ h₂ _
    exact Keeps.pure hs₂ (.of_single (hsingle b).1 (hsingle b).2 hrec (Nat.le_trans h₁ h₂))
  unfold convertLeaf
  split
  . exact hmake _ _ .string fun _ => ⟨rfl, rfl⟩
  . split
    . exact hmake _ _ .string fun _ => ⟨rfl, rfl⟩
    . split
      . split
        . exact hmake _ _ .float fun _ => ⟨rfl, rfl⟩
        . exact hmake _ _ .signed fun _ => ⟨rfl, rfl⟩
      . split
        . exact hmake _ _ .bool fun _ => ⟨rfl, rfl⟩
        . apply Keeps.bind (log_bounded env hs)
          intro _ s₁ hs₁ h₁ _
          exact Keeps.pure hs₁ (.of_single rfl rfl hrec h₁)

include hitem

theorem convertArray_bounded (obj : ρ) {s : State W} (hs : Budget total s) :
    Bounded env total (convertArray env lims item recLevel obj) s fun r => Fits lims recLevel s r.1 := by
  unfold convertArray
  split
  . apply Keeps.bind (log_bounded env hs)
    intro _ s₁ hs₁ h₁ _
    exact Keeps.pure hs₁ (.of_single rfl rfl hrec h₁)
  . next hlevel =>
    have hlt : recLevel < lims.maxDepth := by omega
    apply Keeps.bind (arrayLoop_bounded env obj (hitem hlt) 0 _ (by simp) hs)
    intro elements s₁ hs₁ _ hmade
    exact Keeps.pure hs₁ (.array hlt hmade)

variable {turns : Nat} (hturns : total < turns)

include hturns

theorem convertMap_bounded (obj : ρ) {s : State W} (hs : Budget total s) :
    Bounded env total (convertMap env lims turns item recLevel obj) s fun r =>
      Fits lims recLevel s r.1 := by
  unfold convertMap
  split
  . apply Keeps.bind (log_bounded env hs)
    intro _ s₁ hs₁ h₁ _
    exact Keeps.pure hs₁ (.of_single rfl rfl hrec h₁)
  . next hlevel =>
    have hlt : recLevel < lims.maxDepth := by omega
    apply Keeps.bind (callChecked_bounded env _ hs)
    intro entrySet s₁ hs₁ _ h₁
    apply Keeps.bind (callChecked_bounded env _ hs₁)
    intro entrySetIt s₂ hs₂ _ h₂
    have hbudget := hs₂.2
    apply Keeps.bind (iteratorLoop_bounded env (fun e => e.2.one_le_nodes) entrySetIt
      (mapItem_makes env lims entrySetIt (hitem hlt)) turns (by simp) hs₂ (by omega))
    intro r s₃ hs₃ _ hmade
    have hconversions : s₂.conversions = s.conversions := h₂.2.trans h₁.2
    have hfits := Fits.map hlt hmade
    rw [Fits, hconversions] at hfits
    exact Keeps.pure hs₃ hfits

theorem convertIterable_bounded (obj : ρ) {s : State W} (hs : Budget total s) :
    Bounded env total (convertIterable env lims turns item recLevel obj) s fun r =>
      Fits lims recLevel s r.1 := by
  unfold convertIterable
  split
  . apply Keeps.bind (log_bounded env hs)
    intro _ s₁ hs₁ h₁ _
    exact Keeps.pure hs₁ (.of_single rfl rfl hrec h₁)
  . next hlevel =>
    have hlt : recLevel < lims.maxDepth := by omega
    apply Keeps.bind (callChecked_bounded env _ hs)
    intro it s₁ hs₁ _ h₁
    have hbudget := hs₁.2
    apply Keeps.bind (iteratorLoop_bounded env DdwafObject.one_le_nodes it
      (iterableItem_makes env it (hitem hlt)) turns (by simp) hs₁ (by omega))
    intro r s₂ hs₂ _ hmade
    have hfits := Fits.array hlt hmade
    rw [Fits, h₁.2] at hfits
    exact Keeps.pure hs₂ hfits

end Containers

/--
A conversion that has an element left never goes too deep: the three kinds of containers stop before
the level after the last one.
-/
theorem convertChecked_bounded (env : JavaEnv W ρ) (lims : WafLimits) {total turns : Nat}
    (hturns : total < turns) (fuel recLevel : Nat) (hrec : recLevel ≤ lims.maxDepth)
    (hfuel : lims.maxDepth < recLevel + fuel) (obj : ρ) {s : State W} (hs : Budget total s)
    (hleft : 0 < s.maxElements) :
    Bounded env total (convertChecked env lims turns fuel recLevel obj) s fun r s' =>
      r.1.height + recLevel ≤ lims.maxDepth ∧ r.1.nodes + s.conversions ≤ s'.conversions := by
  induction fuel generalizing recLevel obj s with
  | zero => omega
  | succ fuel ih =>
    have hitem : recLevel < lims.maxDepth → ∀ element, Makes env total
        (fun o => o.height + (recLevel + 1) ≤ lims.maxDepth) DdwafObject.nodes
        (valueChecked (convertChecked env lims turns fuel (recLevel + 1) element)) := by
      intro hlt element s₁ hs₁ hleft₁
      apply Keeps.bind (ih (recLevel + 1) hlt (by omega) element hs₁ hleft₁)
      intro r s₂ hs₂ _ hr
      cases r with
      | mk value pending =>
        cases pending with
        | none => exact Keeps.pure hs₂ hr
        | some exc => exact Keeps.throw hs₂ (Or.inl ⟨exc, rfl⟩)
    generalize hs₀ : ({ s with
      maxElements := s.maxElements - 1
      conversions := s.conversions + 1 } : State W) = s₀
    have hconversions : s₀.conversions = s.conversions + 1 := by rw [← hs₀]
    have hbudget : Budget total s₀ := by
      have hsum := hs.2
      rw [← hs₀]
      constructor
      . dsimp
        omega
      . dsimp
        omega
    have hpost : ∀ (r : DdwafObject × Option Throwable) s',
        Fits lims recLevel s₀ r.1 s' →
          r.1.height + recLevel ≤ lims.maxDepth ∧ r.1.nodes + s.conversions ≤ s'.conversions := by
      intro r s' hfits
      refine ⟨hfits.1, ?_⟩
      have := hfits.2
      omega
    apply Keeps.modify_bind Later
    . rw [hs₀, if_neg (Nat.not_lt.mpr hrec)]
      apply Keeps.bind (isArray_bounded env obj hbudget)
      intro isArray s₁ hs₁ _ h₁
      have hpost₁ : ∀ (r : DdwafObject × Option Throwable) s', Budget total s' → Later s₁ s' →
          Fits lims recLevel s₁ r.1 s' →
            r.1.height + recLevel ≤ lims.maxDepth ∧
              r.1.nodes + s.conversions ≤ s'.conversions := by
        intro r s' _ _ hfits
        rw [Fits, h₁.2] at hfits
        exact hpost r s' hfits
      split
      . exact Keeps.pure hs₁ (hpost₁ _ _ hs₁ (refl s₁) (.of_single rfl rfl hrec (Nat.le_refl _)))
      . split
        . exact (convertArray_bounded env hrec hitem obj hs₁).mono (fun _ h => h) hpost₁
        . split
          . exact (convertMap_bounded env hrec hitem hturns obj hs₁).mono (fun _ h => h) hpost₁
          . split
            . exact (convertIterable_bounded env hrec hitem hturns obj hs₁).mono (fun _ h => h) hpost₁
            . apply Keeps.bind (convertLeaf_bounded env hrec obj hs₁)
              intro o s₂ hs₂ hlater hfits
              exact Keeps.pure hs₂ (hpost₁ (o, none) s₂ hs₂ hlater hfits)
    . intro s' hlater
      rw [hs₀] at hlater
      unfold Later at hlater ⊢
      omega

/--
Whatever the calls into Java return or throw, the conversion of a configuration ends, with an object
within the limits and without the branch for too many levels. It is only aborted by an exception, or by a
call of JNI that is not defined.
-/
theorem convertConfig_bounded (env : JavaEnv W ρ) (configuration : ρ) (world : W) {fuel : Nat}
    (hfuel : configLimits.maxElements < fuel) :
    (convertConfig env fuel configuration world).2.conversions ≤ configLimits.maxElements ∧
    (∀ e, (convertConfig env fuel configuration world).1 = .error e →
      (∃ exc, e = .thrown exc) ∨ (e = .undefined ∧ ¬env.Defined)) ∧
    (resultOf (convertConfig env fuel configuration world).1).height ≤ configLimits.maxDepth ∧
    (resultOf (convertConfig env fuel configuration world).1).emptyAt configLimits.maxDepth = true ∧
    (resultOf (convertConfig env fuel configuration world).1).nodes ≤ configLimits.maxElements := by
  have hmax : configLimits.maxDepth < configLimits.maxElements := by decide
  have hpos : 1 ≤ configLimits.maxElements := by decide
  have hbounded := convertChecked_bounded env configLimits (s := ⟨world, configLimits.maxElements, 0⟩)
    hfuel fuel 0 (Nat.zero_le _) (by omega) configuration (by constructor <;> simp) (by simp; omega)
  have hinv := hbounded.inv
  have hpost := hbounded.post
  have herr := hbounded.err
  unfold convertConfig
  generalize exec (convertChecked env configLimits fuel fuel 0 configuration)
    ⟨world, configLimits.maxElements, 0⟩ = r at hinv hpost herr
  have hconversions : r.2.conversions ≤ configLimits.maxElements := by
    have := hinv.1
    have := hinv.2
    omega
  have hresult : (resultOf r.1).height ≤ configLimits.maxDepth ∧
      (resultOf r.1).nodes ≤ configLimits.maxElements := by
    cases hr : r.1 with
    | error e => exact ⟨Nat.zero_le _, hpos⟩
    | ok made =>
      have ⟨hheight, hnodes⟩ := hpost made hr
      dsimp only [resultOf]
      dsimp only at hnodes
      omega
  exact ⟨hconversions, herr, hresult.1, DdwafObject.emptyAt_of_height hresult.1, hresult.2⟩

def endlessEnv : JavaEnv Unit Unit :=
  {
    isNull := fun _ => false
    isMap := fun _ => false
    isIterable := fun _ => true
    isString := fun _ => false
    isCharSequence := fun _ => false
    isNumber := fun _ => false
    isFloating := fun _ => false
    isBoolean := fun _ => false
    classIsArray := fun _ w => (.ok false, w)
    isPrimitive := fun _ => false
    arrayLength := fun _ => 0
    arrayElement := fun _ _ w => ((), w)
    mapEntryset := fun _ w => (.ok (), w)
    iterableIterator := fun _ w => (.ok (), w)
    iteratorHasNext := fun _ w => ((true, none), w)
    iteratorNext := fun _ w => (.ok (), w)
    entryKey := fun _ w => (.ok (), w)
    entryValue := fun _ w => (.ok (), w)
    toString := fun _ w => (.ok (), w)
    javaToUtf8LimitedChecked := fun _ _ w => (.ok [], w)
    charSequenceToUtf8 := fun _ _ w => (.ok [], w)
    numberDoubleValue := fun _ w => (.ok 0, w)
    numberLongValue := fun _ w => (.ok 0, w)
    booleanValue := fun _ w => (.ok false, w)
    javaWrapExc := fun _ exc w => (exc, w)
    javaLog := fun w => w
    ddwafObject := fun w => (true, w)
  }

theorem convertConfig_bounded_endless :
    (convertConfig endlessEnv 1000001 () ()).2.conversions ≤ 1000000 ∧
    (resultOf (convertConfig endlessEnv 1000001 () ()).1).height ≤ 20 ∧
    (resultOf (convertConfig endlessEnv 1000001 () ()).1).nodes ≤ 1000000 := by
  have hfuel : configLimits.maxElements < 1000001 := by decide
  have h := convertConfig_bounded endlessEnv () () hfuel
  exact ⟨h.1, h.2.2.1, h.2.2.2.2⟩

end ConvertLimits

end Ddwaf
