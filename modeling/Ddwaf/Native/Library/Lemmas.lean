import Ddwaf.Native.JavaCall.Lemmas
import Ddwaf.Native.Library.Impl

open Program

namespace Ddwaf

namespace Library

open State

def cacheSlots : List Slot :=
  [.actionOk, .actionMatch, .resultWithDataOkNull, .resultWithDataEmptyMap, .jclsIae, .charSequenceCls,
    .bufferCls, .charBufferCls, .stringCls, .doubleCls, .floatCls, .bigdecimalCls, .nativeOrder].map
      Slot.ref ++ destroyedMethods.map Slot.meth

def outputSlots : List Slot :=
  [.rsiInit, .sectInfoErrInit, .sectInfoNormalInit, .arrayListInit, .arrayListAdd, .linkedHmInit,
    .mapPut, .longValueOf, .doubleValueOf, .booleanValueOf].map Slot.meth ++
      [.longCls, .outputDoubleCls, .booleanCls].map Slot.ref

def logMethSlots : List Slot := [.meth .logMeth, .meth .isLoggable]

def logRefSlots : List Slot := (javaLogShutdown.refs.map fun p => Slot.ref p.2).reverse

section Dispose

theorem dispose_disposes (v : RefVar) {weak : Bool} (hweak : weak = (Slot.ref v).weak) :
    Disposes (dispose weak v) [.ref v] := by
  apply Disposes.of_exec
  . intro s hnone
    have href : s.ref v = none := hnone
    rw [dispose, exec_bind, exec_get]
    dsimp only
    rw [href]
    rfl
  . intro s r hr hlive hr'
    have href : s.ref v = some r := hr
    refine ⟨_, ?_, rfl, slot_setRef { s with live := s.live.erase r } v none, fun _ => rfl, fun _ => rfl⟩
    rw [dispose, exec_bind, exec_get]
    dsimp only
    rw [href]
    dsimp only
    rw [exec_bind, exec_deleteRef hlive (hr'.trans hweak.symm)]
    rfl

theorem destroyMeth_disposes (m : MethodVar) : Disposes (destroyMeth m) [.meth m] := by
  intro gone lost s howns htyped hgone
  by_cases htype : (s.meth m).type = .uninitialized
  . have hexec : exec (destroyMeth m) s = (.ok (), s) := by
      rw [destroyMeth, exec_bind, exec_get]
      dsimp only
      rw [if_neg (not_not.mpr htype)]
      rfl
    refine ⟨s, hexec, howns, rfl, ?_, fun _ _ => rfl, fun _ => rfl, fun _ => rfl⟩
    intro i hi
    rw [List.mem_singleton.mp hi]
    exact htyped m htype
  . have hexec : exec (destroyMeth m) s = exec (javaMethDestroy m) s := by
      rw [destroyMeth, exec_bind, exec_get]
      dsimp only
      rw [if_pos htype]
    rw [hexec]
    exact javaMethDestroy_disposes m gone lost s howns htyped hgone

theorem disposeOfActionEnums_disposes :
    Disposes disposeOfActionEnums [.ref .actionOk, .ref .actionMatch] :=
  (dispose_disposes .actionOk rfl).bind (dispose_disposes .actionMatch rfl)

theorem disposeOfResultWithDataFields_disposes :
    Disposes disposeOfResultWithDataFields
      [.ref .resultWithDataOkNull, .ref .resultWithDataEmptyMap] :=
  (dispose_disposes .resultWithDataOkNull rfl).bind (dispose_disposes .resultWithDataEmptyMap rfl)

theorem disposeOfWeakClasses_disposes :
    Disposes disposeOfWeakClasses ([.jclsIae, .charSequenceCls, .bufferCls, .charBufferCls, .stringCls,
      .doubleCls, .floatCls, .bigdecimalCls].map Slot.ref) :=
  (dispose_disposes .jclsIae rfl).bind <| (dispose_disposes .charSequenceCls rfl).bind <|
    (dispose_disposes .bufferCls rfl).bind <| (dispose_disposes .charBufferCls rfl).bind <|
    (dispose_disposes .stringCls rfl).bind <| (dispose_disposes .doubleCls rfl).bind <|
    (dispose_disposes .floatCls rfl).bind (dispose_disposes .bigdecimalCls rfl)

theorem disposeOfCacheReferences_disposes : Disposes disposeOfCacheReferences cacheSlots :=
  disposeOfActionEnums_disposes.bind <| disposeOfResultWithDataFields_disposes.bind <|
    disposeOfWeakClasses_disposes.bind <| (dispose_disposes .nativeOrder rfl).bind
    (Disposes.forM destroyMeth_disposes destroyedMethods)

theorem outputShutdown_disposes : Disposes outputShutdown outputSlots :=
  (javaMethDestroy_disposes .rsiInit).bind <| (javaMethDestroy_disposes .sectInfoErrInit).bind <|
    (javaMethDestroy_disposes .sectInfoNormalInit).bind <|
    (javaMethDestroy_disposes .arrayListInit).bind <| (javaMethDestroy_disposes .arrayListAdd).bind <|
    (javaMethDestroy_disposes .linkedHmInit).bind <| (javaMethDestroy_disposes .mapPut).bind <|
    (javaMethDestroy_disposes .longValueOf).bind <| (javaMethDestroy_disposes .doubleValueOf).bind <|
    (javaMethDestroy_disposes .booleanValueOf).bind <| (dispose_disposes .longCls rfl).bind <|
    (dispose_disposes .outputDoubleCls rfl).bind (dispose_disposes .booleanCls rfl)

end Dispose

section LogShutdown

variable {gone : List Slot} {lost : List GlobalRef} {s s' : State}

def Deletes (s s' : State) : Prop := s' = { s with live := s'.live }

theorem Deletes.cleared (h : Deletes s s') : Cleared [] s s' := by
  unfold Deletes at h
  rw [h]
  exact ⟨rfl, fun _ h => absurd h List.not_mem_nil, fun _ _ => rfl, fun _ => rfl, fun _ => rfl⟩

theorem exec_release {v : RefVar} {weak : Bool} (hweak : weak = (Slot.ref v).weak)
    (howns : Owns gone lost s) (hgone : .ref v ∉ gone) :
    ∃ s', exec (javaLogShutdown.release weak v) s = (.ok (), s') ∧ Owns (.ref v :: gone) lost s' ∧
      Deletes s s' := by
  rw [javaLogShutdown.release, exec_bind, exec_get]
  cases hr : s.ref v with
  | none =>
    refine ⟨s, ?_, howns.ignore hr, rfl⟩
    dsimp only
    rw [hr]
    rfl
  | some r =>
    have hdelete := exec_deleteRef (howns.live hgone hr) ((howns.weak _ r hgone hr).trans hweak.symm)
    refine ⟨{ s with live := s.live.erase r }, ?_, howns.leave hgone hr rfl rfl rfl, rfl⟩
    dsimp only
    rw [hr]
    exact hdelete

theorem exec_forM_release (refs : List (Bool × RefVar)) (hweak : ∀ p ∈ refs, p.1 = (Slot.ref p.2).weak)
    (hnodup : (refs.map Prod.snd).Nodup) (howns : Owns gone lost s)
    (hgone : ∀ p ∈ refs, .ref p.2 ∉ gone) :
    ∃ s', exec (refs.forM fun (weak, v) => javaLogShutdown.release weak v) s = (.ok (), s') ∧
      Owns ((refs.map fun p => Slot.ref p.2).reverse ++ gone) lost s' ∧ Deletes s s' := by
  induction refs generalizing gone s with
  | nil => exact ⟨s, rfl, howns, rfl⟩
  | cons p refs ih =>
    have ⟨hnot, hnodup⟩ := List.nodup_cons.mp hnodup
    have ⟨s₁, hexec₁, howns₁, hs₁⟩ := exec_release (hweak p List.mem_cons_self) howns
      (hgone p List.mem_cons_self)
    have hgone₁ (q : Bool × RefVar) (hq : q ∈ refs) : Slot.ref q.2 ∉ Slot.ref p.2 :: gone := by
      rw [List.mem_cons, not_or]
      refine ⟨?_, hgone q (List.mem_cons_of_mem _ hq)⟩
      intro heq
      apply hnot
      rw [← Slot.ref.inj heq]
      exact List.mem_map_of_mem hq
    have ⟨s₂, hexec₂, howns₂, hs₂⟩ := ih (fun q hq => hweak q (List.mem_cons_of_mem _ hq)) hnodup howns₁
      hgone₁
    refine ⟨s₂, ?_, ?_, ?_⟩
    . show exec (javaLogShutdown.release p.1 p.2 >>= fun _ => refs.forM _) s = _
      rw [exec_bind, hexec₁]
      exact hexec₂
    . rw [List.map_cons, List.reverse_cons, List.append_assoc]
      exact howns₂
    . unfold Deletes at hs₁ hs₂ ⊢
      rw [hs₂, hs₁]

theorem exec_javaLogShutdown (howns : Owns gone lost s) (htyped : Typed s)
    (hgone : ∀ i ∈ logRefSlots ++ logMethSlots, i ∉ gone) :
    ∃ s', exec javaLogShutdown s = (.ok (), s') ∧ Owns (logRefSlots ++ gone) lost s' ∧
      Cleared logMethSlots s s' := by
  have ⟨s₁, hexec₁, howns₁, hs₁⟩ := exec_forM_release javaLogShutdown.refs (by decide)
    (by decide) howns fun p hp =>
      hgone _ (List.mem_append_left _ (List.mem_reverse.mpr (List.mem_map_of_mem hp)))
  have hcleared := hs₁.cleared
  have hgone₁ (i : Slot) (hi : i ∈ logMethSlots) :
      i ∉ (javaLogShutdown.refs.map fun p => Slot.ref p.2).reverse ++ gone := by
    rw [List.mem_append, not_or]
    refine ⟨?_, hgone i (List.mem_append_right _ hi)⟩
    revert i
    decide
  have ⟨s₂, hexec₂, howns₂, hcleared₂⟩ :=
    ((javaMethDestroy_disposes .logMeth).bind (javaMethDestroy_disposes .isLoggable)) _ lost s₁ howns₁
      (htyped.cleared hcleared) hgone₁
  refine ⟨s₂, ?_, howns₂, hcleared.trans hcleared₂⟩
  rw [javaLogShutdown, exec_bind, hexec₁]
  exact hexec₂

end LogShutdown

end Library

end Ddwaf
