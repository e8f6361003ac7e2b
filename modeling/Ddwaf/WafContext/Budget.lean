import Ddwaf.Native.CreateResult.Faithful
import Ddwaf.WafContext.Impl

/-!
This module contains the budget of a run: what `ddwaf_run` is called with is what is left of the
general budget, and at most the budget of the run.
-/

namespace Ddwaf

theorem toNat_toUInt64 (x : Int64) : (x.toUInt64.toNat : Int) = x.toInt % 2 ^ 64 := by
  have h := BitVec.toInt_eq_toNat_bmod x.toBitVec
  have hlt := x.toUInt64.toNat_lt
  rw [Int64.toNat_toBitVec, Int64.toInt_toBitVec] at h
  rw [h, Int.bmod_def]
  split
  . omega
  . omega

theorem toInt_sub_of_nonneg {a b : Int64} (ha : 0 ≤ a.toInt) (hb : 0 ≤ b.toInt) :
    (a - b).toInt = a.toInt - b.toInt := by
  have h₁ := a.toInt_lt
  have h₂ := b.toInt_lt
  rw [Int64.toInt_sub]
  apply Int.bmod_eq_of_le
  . omega
  . omega

theorem toInt_div_1000 (a : Int64) : (a / 1000).toInt = a.toInt.tdiv 1000 := by
  exact Int64.toInt_div_of_ne_right a 1000 (by decide)

theorem toInt_clamp (a : Int64) : (if a < 0 then 0 else a).toInt = max a.toInt 0 := by
  split
  . next h =>
    rw [Int64.lt_iff_toInt_lt, Int64.toInt_zero] at h
    rw [Int64.toInt_zero, Int.max_eq_right (Int.le_of_lt h)]
  . next h =>
    rw [Int64.lt_iff_toInt_lt, Int64.toInt_zero, Int.not_lt] at h
    rw [Int.max_eq_left h]

theorem reduceBudget_generalBudgetInUs {limits : Waf.Limits} {amountInUs : Int64}
    (hgeneral : 0 ≤ limits.generalBudgetInUs.toInt) (hamount : 0 ≤ amountInUs.toInt) :
    (limits.reduceBudget amountInUs).generalBudgetInUs.toInt =
      max (limits.generalBudgetInUs.toInt - amountInUs.toInt) 0 := by
  simp only [Waf.Limits.reduceBudget]
  rw [toInt_clamp, toInt_sub_of_nonneg hgeneral hamount]

theorem getRemainingBudget_toInt {limits : NativeLimits} {start fin : Timespec}
    (hgeneral : 0 ≤ limits.generalBudgetInUs.toInt)
    (hdiff : 0 ≤ (timespecDiffNs fin start / 1000).toInt) :
    (getRemainingBudget start fin limits).toInt =
      max (limits.generalBudgetInUs.toInt - (timespecDiffNs fin start / 1000).toInt) 0 := by
  simp only [getRemainingBudget]
  rw [toInt_clamp, toInt_sub_of_nonneg hgeneral hdiff]

theorem remGenBudgetInUs_toInt {limits : Waf.Limits} {amountInUs : Int64} {start fin : Timespec}
    (hgeneral : 0 ≤ limits.generalBudgetInUs.toInt) (hamount : 0 ≤ amountInUs.toInt)
    (hdiff : 0 ≤ (timespecDiffNs fin start / 1000).toInt) (pwRunTimeout : Int64) :
    (getRemainingBudget start fin
        (fetchLimitsChecked pwRunTimeout (limits.reduceBudget amountInUs))).toInt =
      max (limits.generalBudgetInUs.toInt -
        (amountInUs.toInt + (timespecDiffNs fin start / 1000).toInt)) 0 := by
  have hreduce := reduceBudget_generalBudgetInUs hgeneral hamount
  have hfetch : (fetchLimitsChecked pwRunTimeout
      (limits.reduceBudget amountInUs)).generalBudgetInUs.toInt = _ := hreduce
  rw [getRemainingBudget_toInt (hfetch ▸ Int.le_max_right _ _) hdiff, hfetch]
  omega

theorem exhausted_iff {limits : Waf.Limits} {amountInUs : Int64} {start fin : Timespec}
    (hgeneral : 0 ≤ limits.generalBudgetInUs.toInt) (hamount : 0 ≤ amountInUs.toInt)
    (hdiff : 0 ≤ (timespecDiffNs fin start / 1000).toInt) (pwRunTimeout : Int64) :
    ((limits.reduceBudget amountInUs).generalBudgetInUs = 0 ∨ getRemainingBudget start fin
        (fetchLimitsChecked pwRunTimeout (limits.reduceBudget amountInUs)) = 0) ↔
      limits.generalBudgetInUs.toInt ≤
        amountInUs.toInt + (timespecDiffNs fin start / 1000).toInt := by
  have hreduce := reduceBudget_generalBudgetInUs hgeneral hamount
  have hrem := remGenBudgetInUs_toInt hgeneral hamount hdiff pwRunTimeout
  rw [← Int64.toInt_inj, ← Int64.toInt_inj, Int64.toInt_zero]
  omega

theorem getRunBudget_iff {limits : NativeLimits} {remGenBudgetInUs : Int64}
    (hrem : 0 ≤ remGenBudgetInUs.toInt) :
    ((getRunBudget remGenBudgetInUs limits).toNat : Int) ≤ remGenBudgetInUs.toInt ↔
      0 ≤ limits.runBudgetInUs.toInt := by
  have hlt := remGenBudgetInUs.toInt_lt
  have hle := limits.runBudgetInUs.le_toInt
  unfold getRunBudget
  split
  . next h =>
    rw [gt_iff_lt, Int64.lt_iff_toInt_lt] at h
    rw [toNat_toUInt64]
    omega
  . next h =>
    rw [gt_iff_lt, Int64.lt_iff_toInt_lt] at h
    rw [toNat_toUInt64]
    omega

theorem getRunBudget_le {limits : NativeLimits} {remGenBudgetInUs : Int64}
    (hrem : 0 ≤ remGenBudgetInUs.toInt) (hrun : 0 ≤ limits.runBudgetInUs.toInt) :
    ((getRunBudget remGenBudgetInUs limits).toNat : Int) ≤ limits.runBudgetInUs.toInt := by
  have hlt := limits.runBudgetInUs.toInt_lt
  unfold getRunBudget
  split
  . next h =>
    rw [toNat_toUInt64]
    omega
  . next h =>
    rw [gt_iff_lt, Int64.lt_iff_toInt_lt] at h
    rw [toNat_toUInt64]
    omega

theorem fetchLimitsChecked_runBudgetInUs (pwRunTimeout : Int64) (limits : Waf.Limits) :
    (fetchLimitsChecked pwRunTimeout limits).runBudgetInUs.toInt =
      if 0 < limits.runBudgetInUs.toInt then limits.runBudgetInUs.toInt else pwRunTimeout.toInt := by
  have hpos : limits.runBudgetInUs > 0 ↔ 0 < limits.runBudgetInUs.toInt := by
    rw [gt_iff_lt, Int64.lt_iff_toInt_lt, Int64.toInt_zero]
  simp only [fetchLimitsChecked, hpos, apply_ite Int64.toInt]

def WithinBudget (limits : Waf.Limits) (elapsedUs : Int) (runBudget : UInt64) : Prop :=
  (runBudget.toNat : Int) ≤ limits.generalBudgetInUs.toInt - elapsedUs ∧
    (0 < limits.runBudgetInUs.toInt → (runBudget.toNat : Int) ≤ limits.runBudgetInUs.toInt)

def RunOutcome.IsTimeout (o : RunOutcome) : Prop :=
  o.runBudgets = [] ∧ o.result = .error (.waf .timeout)

structure RunOutcome.RespectsBudget (limits : Waf.Limits) (elapsedUs : Int) (o : RunOutcome) :
    Prop where
  calls : ∀ runBudget ∈ o.runBudgets, WithinBudget limits elapsedUs runBudget
  timeout : limits.generalBudgetInUs.toInt ≤ elapsedUs → o.IsTimeout
  timeout_or_call : o.IsTimeout ∨ ∃ runBudget, o.runBudgets = [runBudget]

structure RunEnv.Ready {D : Type} (env : RunEnv D) (persistentData ephemeralData : Option D)
    (start convEnd : Timespec) : Prop where
  online : env.online = true
  initOk : env.initOk = true
  start : env.start = some start
  convEnd : env.convEnd = some convEnd
  input : ∃ persistentBuffer ephemeralBuffer input,
    encodeParameters env persistentData ephemeralData = .ok (persistentBuffer, ephemeralBuffer) ∧
      runInput env persistentBuffer ephemeralBuffer = .ok input

namespace WafContext

variable {D : Type} {env : RunEnv D} {persistentData ephemeralData : Option D}
variable {start convEnd : Timespec} {limits : Waf.Limits}

theorem run_eq (hready : env.Ready persistentData ephemeralData start convEnd)
    (limits : Waf.Limits) :
    ∃ result : UInt64 → Except RunStop ResultWithData,
      run env persistentData ephemeralData (some limits) =
        let newLimits := limits.reduceBudget ((env.serialized - env.before) / 1000)
        let nativeLimits := fetchLimitsChecked env.pwRunTimeout newLimits
        let remGenBudgetInUs := getRemainingBudget start convEnd nativeLimits
        if newLimits.generalBudgetInUs = 0 ∨ remGenBudgetInUs = 0 then
          .stop (.waf .timeout)
        else
          let runBudget := getRunBudget remGenBudgetInUs nativeLimits
          ⟨[runBudget], result runBudget⟩ := by
  obtain ⟨persistentBuffer, ephemeralBuffer, input, hencode, hinput⟩ := hready.input
  refine ⟨fun runBudget => catchRuntimeException env
    (runResult env
      (env.ddwafRun input.context input.persistentInputPtr input.ephemeralInputPtr runBudget).1
      (env.ddwafRun input.context input.persistentInputPtr input.ephemeralInputPtr runBudget).2), ?_⟩
  simp only [run, runOnline, hready.online, hencode, Bool.not_true, Bool.false_eq_true, if_false]
  split
  . next h =>
    simp [h]
    rfl
  . next h =>
    simp only [h, false_or, runWafContextCommon, hready.start, hready.convEnd, hready.initOk,
      hinput, checkInit, Bool.not_true, Bool.false_eq_true, if_false]
    split
    . rfl
    . rfl

theorem respectsBudget_timeout (elapsedUs : Int) :
    (RunOutcome.stop (.waf .timeout)).RespectsBudget limits elapsedUs := by
  constructor
  . intro runBudget h
    cases h
  . intro h
    exact ⟨rfl, rfl⟩
  . left
    exact ⟨rfl, rfl⟩

theorem respectsBudget_call_iff {elapsedUs : Int} {runBudget : UInt64}
    {result : Except RunStop ResultWithData} (h : elapsedUs < limits.generalBudgetInUs.toInt) :
    (RunOutcome.mk [runBudget] result).RespectsBudget limits elapsedUs ↔
      WithinBudget limits elapsedUs runBudget := by
  constructor
  . intro ho
    exact ho.calls runBudget (List.mem_singleton_self runBudget)
  . intro hwithin
    constructor
    . intro b hb
      rw [List.mem_singleton.mp hb]
      exact hwithin
    . intro hle
      omega
    . right
      exact ⟨runBudget, rfl⟩

theorem withinBudget_iff {pwRunTimeout : Int64} {newLimits : Waf.Limits} {remGenBudgetInUs : Int64}
    {elapsedUs : Int} (hrun : newLimits.runBudgetInUs = limits.runBudgetInUs)
    (hrem : remGenBudgetInUs.toInt = limits.generalBudgetInUs.toInt - elapsedUs)
    (hpos : 0 ≤ remGenBudgetInUs.toInt) :
    WithinBudget limits elapsedUs
        (getRunBudget remGenBudgetInUs (fetchLimitsChecked pwRunTimeout newLimits)) ↔
      0 < limits.runBudgetInUs.toInt ∨ 0 ≤ pwRunTimeout.toInt := by
  have hfetch := fetchLimitsChecked_runBudgetInUs pwRunTimeout newLimits
  rw [hrun] at hfetch
  unfold WithinBudget
  rw [← hrem, getRunBudget_iff hpos, hfetch]
  split at hfetch
  . next hrunBudget =>
    apply iff_of_true _ (.inl hrunBudget)
    rw [if_pos hrunBudget]
    refine ⟨Int.le_of_lt hrunBudget, ?_⟩
    intro _
    rw [← hfetch]
    apply getRunBudget_le hpos
    rw [hfetch]
    exact Int.le_of_lt hrunBudget
  . next hrunBudget =>
    rw [if_neg hrunBudget]
    constructor
    . intro h
      exact .inr h.1
    . intro h
      exact ⟨h.resolve_left hrunBudget, fun hr => absurd hr hrunBudget⟩

theorem run_respectsBudget_iff (hready : env.Ready persistentData ephemeralData start convEnd)
    (hgeneral : 0 ≤ limits.generalBudgetInUs.toInt)
    (hserialization : 0 ≤ (env.serialized - env.before).toInt)
    (hconversion : 0 ≤ (timespecDiffNs convEnd start).toInt)
    {ddwafRunTimeout : Int64} {property : Option (List UInt16)}
    (hpw : getPwRunTimeoutChecked ddwafRunTimeout property = .ok env.pwRunTimeout) :
    (run env persistentData ephemeralData (some limits)).RespectsBudget limits
        (((env.serialized - env.before) / 1000).toInt +
          (timespecDiffNs convEnd start / 1000).toInt) ↔
      limits.generalBudgetInUs.toInt ≤ ((env.serialized - env.before) / 1000).toInt +
          (timespecDiffNs convEnd start / 1000).toInt ∨
        0 < limits.runBudgetInUs.toInt ∨
        ∃ pwRunTimeout, getPwRunTimeoutChecked ddwafRunTimeout property = .ok pwRunTimeout ∧
          0 ≤ pwRunTimeout.toInt := by
  have hpwRunTimeout : (∃ pwRunTimeout, getPwRunTimeoutChecked ddwafRunTimeout property =
      .ok pwRunTimeout ∧ 0 ≤ pwRunTimeout.toInt) ↔ 0 ≤ env.pwRunTimeout.toInt := by
    rw [hpw]
    simp
  have h₁ : 0 ≤ ((env.serialized - env.before) / 1000).toInt := by
    rw [toInt_div_1000]
    exact Int.tdiv_nonneg hserialization (by decide)
  have h₂ : 0 ≤ (timespecDiffNs convEnd start / 1000).toInt := by
    rw [toInt_div_1000]
    exact Int.tdiv_nonneg hconversion (by decide)
  obtain ⟨result, hrun⟩ := run_eq hready limits
  rw [hrun, hpwRunTimeout]
  have hrem := remGenBudgetInUs_toInt hgeneral h₁ h₂ env.pwRunTimeout
  have hexhausted := exhausted_iff hgeneral h₁ h₂ env.pwRunTimeout
  simp only [hexhausted]
  split
  . next hle =>
    exact iff_of_true (respectsBudget_timeout _) (.inl hle)
  . next hlt =>
    rw [respectsBudget_call_iff (by omega), or_iff_right hlt]
    apply withinBudget_iff
    . rfl
    . omega
    . omega

section Sample

def sampleEnv (pwRunTimeout : Int64) : RunEnv Unit where
  ext := .firstEntry
  wafHandle := "WafHandle"
  online := true
  initOk := true
  ptr := 1
  pwRunTimeout
  before := 0
  serialized := 2500
  start := some ⟨10, 999999000⟩
  convEnd := some ⟨11, 2500⟩
  serializePersistent _ := .ok ⟨some 64, 4096⟩
  serializeEphemeral _ := .ok ⟨some 8256, 4096⟩
  ddwafRun _ _ _ _ := (.ok, .map [])

def sampleLimits : Waf.Limits := ⟨20, 256, 4096, 1000, 0⟩

theorem sampleEnv_ready (pwRunTimeout : Int64) :
    (sampleEnv pwRunTimeout).Ready (some ()) none ⟨10, 999999000⟩ ⟨11, 2500⟩ := by
  constructor
  . rfl
  . rfl
  . rfl
  . rfl
  . exact ⟨some ⟨some 64, 4096⟩, none, ⟨1, some 64, none⟩, rfl, rfl⟩

theorem run_respectsBudget_default :
    (run (sampleEnv 5000) (some ()) none (some sampleLimits)).RespectsBudget sampleLimits
      ((2500 / 1000 : Int64).toInt + (3500 / 1000 : Int64).toInt) := by
  have hpw : getPwRunTimeoutChecked 5000 none = .ok (sampleEnv 5000).pwRunTimeout := rfl
  refine (run_respectsBudget_iff (sampleEnv_ready 5000) (by decide) (by decide) (by decide)
    hpw).mpr ?_
  right
  right
  exact ⟨5000, rfl, by decide⟩

theorem run_unbounded :
    getPwRunTimeoutChecked 5000 (some [0x2D, 0x31]) = .ok (-1) ∧
      (run (sampleEnv (-1)) (some ()) none (some sampleLimits)).runBudgets =
        [18446744073709551615] ∧
      ¬ (run (sampleEnv (-1)) (some ()) none (some sampleLimits)).RespectsBudget sampleLimits
        ((2500 / 1000 : Int64).toInt + (3500 / 1000 : Int64).toInt) := by
  have hbudgets : (run (sampleEnv (-1)) (some ()) none (some sampleLimits)).runBudgets =
      [18446744073709551615] := by
    decide +kernel
  refine ⟨rfl, hbudgets, ?_⟩
  intro h
  have hcall := h.calls 18446744073709551615 (by rw [hbudgets]; exact List.mem_singleton_self _)
  exact absurd hcall.1 (by decide)

end Sample

end WafContext

end Ddwaf
