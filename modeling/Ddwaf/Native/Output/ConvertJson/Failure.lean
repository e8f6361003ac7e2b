import Ddwaf.Native.Output.ConvertJson.Lemmas
import Mathlib.Data.List.Nodup

/-!
This module contains what is left when an allocation fails: no segment is returned, and all that have
been allocated are freed.
-/

namespace Ddwaf

inductive Ends : Native (Option SegPtr × JsonHeap) → Prop where
  | seg (h : JsonHeap) (hl : h.IsLinked) : Ends (.ok (some h.last, h))
  | null (h : JsonHeap) (hl : h.IsLinked) : Ends (.ok (none, h))

theorem Writes.ends {alloc : Alloc} {h : JsonHeap} {t : List UInt8}
    {r : Native (Option SegPtr × JsonHeap)} (hr : Writes alloc h True t r) : Ends r := by
  cases hr with
  | done h' _ hl _ => exact .seg h' hl
  | null h' hl _ => exact .null h' hl
  | stop e hp => exact absurd trivial hp

theorem Writes.of_seg {alloc : Alloc} {h h' : JsonHeap} {p : Prop} {t : List UInt8} {q : SegPtr}
    (hr : Writes alloc h p t (.ok (some q, h'))) : p ∧ h'.text = h.text ++ t := by
  generalize hres : (Except.ok (some q, h') : Native (Option SegPtr × JsonHeap)) = res at hr
  cases hr with
  | done h'' hp _ htext =>
    rw [Except.ok.injEq, Prod.mk.injEq] at hres
    rw [hres.2]
    exact ⟨hp, htext⟩
  | null => simp at hres
  | stop => contradiction

theorem Writes.of_null {alloc : Alloc} {h h' : JsonHeap} {p : Prop} {t : List UInt8}
    (hr : Writes alloc h p t (.ok (none, h'))) : ¬p ∨ ∃ n, alloc n = false := by
  generalize hres : (Except.ok (none, h') : Native (Option SegPtr × JsonHeap)) = res at hr
  cases hr with
  | done => simp at hres
  | null _ _ hp => exact hp
  | stop => contradiction

theorem Ends.bind {r : Native (Option SegPtr × JsonHeap)} (hr : Ends r)
    {f : Option SegPtr × JsonHeap → Native (Option SegPtr × JsonHeap)}
    (hf : ∀ h : JsonHeap, h.IsLinked → Ends (f (some h.last, h)))
    (hnull : ∀ h, f (none, h) = .ok (none, h)) : Ends (r >>= f) := by
  cases hr with
  | seg h hl => exact hf h hl
  | null h hl =>
    rw [ok_bind, hnull]
    exact .null h hl

def hasSize (str : List UInt8) : Bool := (jsonEncodeStrTo str).length < 2 ^ 64

def DdwafObject.hasSizes : DdwafObject → Bool
  | .string str => hasSize str
  | .map entries => entries.all fun e => hasSize e.1
  | _ => true

section Convert

variable {alloc : Alloc} {h : JsonHeap}

theorem append_ends (hl : h.IsLinked) (data : List UInt8) (hlen : data.length ≤ 20) :
    Ends (jsonAppend alloc (some h.last) data h) :=
  (append_writes hl data hlen).ends

theorem separator_ends (hl : h.IsLinked) (rest : List α) :
    Ends (jsonAppendSeparator alloc rest (some h.last) h) :=
  (separator_writes hl rest).ends

theorem encodeStr_ends (hl : h.IsLinked) {str : List UInt8} (hsize : hasSize str = true) :
    Ends (jsonEncodeStr alloc (some h.last) str h) := by
  by_cases hfits : (jsonEncodeStrTo str).length ≤ uint32Max
  . exact ((jsonEncodeStr_spec alloc hl str).congr (iff_true_intro hfits) rfl).ends
  . rw [jsonEncodeStr_too_long alloc h.last h (by omega) (by simpa [hasSize] using hsize)]
    exact .null h hl

theorem convertJsonArray_ends {array : List DdwafObject} {depth : Nat}
    (ih : ∀ o ∈ array, ∀ h : JsonHeap, h.IsLinked → Ends (convertJson alloc o depth (some h.last) h))
    (hl : h.IsLinked) : Ends (convertJsonArray alloc array depth (some h.last) h) := by
  induction array generalizing h with
  | nil => exact .seg h hl
  | cons o rest ihRest =>
    rw [List.forall_mem_cons] at ih
    rw [convertJsonArray]
    apply Ends.bind (ih.1 h hl)
    . intro h hl
      apply Ends.bind (separator_ends hl rest)
      . intro h hl
        exact ihRest ih.2 hl
      . simp
    . simp

theorem convertJsonMap_ends {array : List (List UInt8 × DdwafObject)} {depth : Nat}
    (hsize : ∀ e ∈ array, hasSize e.1 = true)
    (ih : ∀ e ∈ array, ∀ h : JsonHeap, h.IsLinked →
      Ends (convertJson alloc e.2 depth (some h.last) h))
    (hl : h.IsLinked) : Ends (convertJsonMap alloc array depth (some h.last) h) := by
  induction array generalizing h with
  | nil => exact .seg h hl
  | cons e rest ihRest =>
    rw [List.forall_mem_cons] at ih hsize
    rw [convertJsonMap]
    apply Ends.bind (append_ends hl [0x22] (by decide))
    . intro h hl
      apply Ends.bind (encodeStr_ends hl hsize.1)
      . intro h hl
        apply Ends.bind (append_ends hl [0x22, 0x3A] (by decide))
        . intro h hl
          apply Ends.bind (ih.1 h hl)
          . intro h hl
            apply Ends.bind (separator_ends hl rest)
            . intro h hl
              exact ihRest hsize.2 ih.2 hl
            . simp
          . simp
        . simp
      . simp
    . simp

theorem convertJson_ends (alloc : Alloc) {o : DdwafObject}
    (hsize : o.all DdwafObject.hasSizes = true) (depth : Nat) {h : JsonHeap} (hl : h.IsLinked) :
    Ends (convertJson alloc o depth (some h.last) h) := by
  induction o using DdwafObject.ind generalizing depth h with
  | array array ih =>
    rw [DdwafObject.all, DdwafObject.allArray_eq, Bool.and_eq_true, List.all_eq_true] at hsize
    rw [convertJson.eq_def]
    split
    . exact .null h hl
    . apply Ends.bind (append_ends hl [0x5B] (by decide))
      . intro h hl
        apply Ends.bind
        . apply convertJsonArray_ends
          . intro o ho h hl
            exact ih o ho (hsize.2 o ho) (depth + 1) hl
          . exact hl
        . intro h hl
          exact append_ends hl [0x5D] (by decide)
        . simp
      . simp
  | map array ih =>
    rw [DdwafObject.all, DdwafObject.allMap_eq, Bool.and_eq_true, List.all_eq_true] at hsize
    rw [convertJson.eq_def]
    split
    . exact .null h hl
    . apply Ends.bind (append_ends hl [0x7B] (by decide))
      . intro h hl
        apply Ends.bind
        . apply convertJsonMap_ends
          . exact List.all_eq_true.mp hsize.1
          . intro e he h hl
            exact ih e he (hsize.2 e he) (depth + 1) hl
          . exact hl
        . intro h hl
          exact append_ends hl [0x7D] (by decide)
        . simp
      . simp
  | string str =>
    rw [convertJson.eq_def]
    split
    . exact .null h hl
    . apply Ends.bind (append_ends hl [0x22] (by decide))
      . intro h hl
        apply Ends.bind (encodeStr_ends hl hsize)
        . intro h hl
          exact append_ends hl [0x22] (by decide)
        . simp
      . simp
  | invalid =>
    rw [convertJson.eq_def]
    split
    . exact .null h hl
    . exact .null h hl
  | signed val =>
    rw [convertJson.eq_def]
    split
    . exact .null h hl
    . simp only [sprintfStr_eq (length_formatI64_le val), ok_bind]
      exact append_ends hl _ (length_formatI64_le val)
  | unsigned val =>
    rw [convertJson.eq_def]
    split
    . exact .null h hl
    . simp only [sprintfStr_eq (length_formatU64_le val), ok_bind]
      exact append_ends hl _ (length_formatU64_le val)
  | bool b =>
    rw [convertJson.eq_def]
    split
    . exact .null h hl
    . cases b with
      | true => exact append_ends hl _ (by decide)
      | false => exact append_ends hl _ (by decide)
  | float v =>
    rw [convertJson.eq_def]
    split
    . exact .null h hl
    . exact .seg h hl
  | null =>
    rw [convertJson.eq_def]
    split
    . exact .null h hl
    . exact .seg h hl

end Convert

namespace jsonSegFree

variable {h : JsonHeap} {init : List JsonSegment.Cell} {last : JsonSegment.Cell}

theorem run_eq (hl : h.Linked init last) (fuel k : Nat) (hk : k ≤ init.length)
    (hfuel : init.length + 2 ≤ fuel + k) :
    Loop.run body .diverges fuel ⟨some k, { h with freed := (List.range k).reverse }⟩ =
      .ok { h with freed := (List.range h.cells.length).reverse } := by
  have hlength : h.cells.length = init.length + 1 := by simp [hl.cells_eq]
  induction fuel generalizing k with
  | zero => omega
  | succ fuel ih =>
    have hlt : k < h.cells.length := by omega
    obtain ⟨cell, hcell⟩ : ∃ cell, h.cells[k]? = some cell := ⟨_, List.getElem?_eq_getElem hlt⟩
    have hget : ({ h with freed := (List.range k).reverse } : JsonHeap).get k = .ok cell := by
      rw [JsonHeap.get, if_neg (by simp), load, hcell]
    have hfreed : k :: (List.range k).reverse = (List.range (k + 1)).reverse := by
      simp [List.range_succ]
    have hbody : body ⟨some k, { h with freed := (List.range k).reverse }⟩ =
        .ok (.next ⟨cell.next, { h with freed := (List.range (k + 1)).reverse }⟩) := by
      simp only [body, hget, ok_bind, pure_eq_ok, hfreed]
    rw [Loop.run_next hbody, hl.next_eq hcell]
    split
    . exact ih (k + 1) (by omega) (by omega)
    . have hlast : k + 1 = h.cells.length := by omega
      cases fuel with
      | zero => omega
      | succ fuel =>
        rw [Loop.run_done (a := { h with freed := (List.range (k + 1)).reverse }) rfl, hlast]

theorem linked_eq (hl : h.IsLinked) :
    jsonSegFree (some 0) h = .ok { h with freed := (List.range h.cells.length).reverse } := by
  obtain ⟨init, last, hl⟩ := hl
  have hlength : h.cells.length = init.length + 1 := by simp [hl.cells_eq]
  have hfreed : h = { h with freed := (List.range 0).reverse } := by
    rw [List.range_zero, List.reverse_nil, ← hl.freed]
  have hrun := run_eq hl (h.cells.length + 1) 0 (Nat.zero_le _) (by omega)
  rw [← hfreed] at hrun
  exact hrun

end jsonSegFree

/--
What `output_convert_json` leaves behind: the complete chain, or no segment that is not freed.
-/
inductive AllOrNothing (o : DdwafObject) : Option SegPtr → JsonHeap → Prop where
  | all (h : JsonHeap) (hfreed : h.freed = [])
      (hreached : h.chainFrom 0 = h.cells.map JsonSegment.Cell.toJsonSegment)
      (htext : outputText (outputConvertJson .total o) = some (jsonContent (h.chainFrom 0))) :
      AllOrNothing o (some 0) h
  | nothing (h : JsonHeap) (hnodup : h.freed.Nodup)
      (hfreed : ∀ p, p ∈ h.freed ↔ p < h.cells.length) :
      AllOrNothing o none h

theorem outputConvertJson_all_or_nothing (alloc : Alloc) {o : DdwafObject}
    (hsize : o.all DdwafObject.hasSizes = true) :
    ∃ seg h, outputConvertJson alloc o = .ok (seg, h) ∧ AllOrNothing o seg h ∧
      ((∀ n, alloc n = true) →
        (seg = none ↔ maxJsonDepth < o.height ∨ o.all DdwafObject.writable = false)) := by
  cases halloc : alloc 0 with
  | false =>
    refine ⟨none, ⟨[], [], 1⟩, ?_, .nothing _ List.nodup_nil (by simp), ?_⟩
    . rw [outputConvertJson, jsonSegNew_fail _ (by decide) halloc]
      rfl
    . intro h
      rw [h 0] at halloc
      contradiction
  | true =>
    obtain ⟨h₀, hlast, hnew, hl₀, htext₀⟩ := jsonSegNew_first halloc
    have hends := convertJson_ends alloc hsize 0 hl₀
    have hwrites := convertJson_spec alloc o 0 hl₀
    rw [outputConvertJson, hnew]
    generalize hrun : convertJson alloc o 0 (some h₀.last) h₀ = r at hends hwrites
    simp only [hrun]
    cases hends with
    | seg h hl =>
      obtain ⟨hw, htext⟩ := hwrites.of_seg
      rw [htext₀, List.nil_append] at htext
      refine ⟨some 0, h, ?_, .all h ?_ hl.chain_eq ?_, ?_⟩
      . rw [hlast]
        rfl
      . obtain ⟨init, last, hl⟩ := hl
        exact hl.freed
      . rw [outputConvertJson_total, jsonContent_chain hl]
        exact ⟨hw, htext⟩
      . intro _
        have hheight := hw.height
        simp [hw.all]
        omega
    | null h hl =>
      refine ⟨none, _, ?_, .nothing { h with freed := (List.range h.cells.length).reverse } ?_ ?_, ?_⟩
      . simp only [ok_bind, ne_eq, not_true_eq_false, ↓reduceIte, hlast, jsonSegFree.linked_eq hl]
        rfl
      . exact List.nodup_reverse.mpr List.nodup_range
      . simp
      . intro htotal
        rcases hwrites.of_null with hw | ⟨n, hn⟩
        . simp only [true_iff]
          by_contra hnot
          rw [not_or, Bool.not_eq_false] at hnot
          exact hw ⟨by omega, hnot.2⟩
        . rw [htotal n] at hn
          contradiction

theorem outputText_of_long {str : List UInt8} (hlong : uint32Max < str.length) :
    outputText (outputConvertJson .total (.string str)) = none := by
  rcases outputConvertJson_cases .total (.string str) with ⟨-, hw⟩ | ⟨hnone, -⟩
  . have hfits := hw.all
    simp only [DdwafObject.all, DdwafObject.writable] at hfits
    rw [fitsSegment, decide_eq_true_eq] at hfits
    have hle := (length_le_jsonEncodeStrTo str).1
    omega
  . exact hnone

def DdwafObject.isValid : DdwafObject → Bool
  | .invalid => false
  | _ => true

theorem outputConvertJson_long_string :
    (∃ str, str = List.replicate (uint32Max + 1) 0x61 ∧
      outputText (outputConvertJson .total (.string str)) = none ∧
      (DdwafObject.string str).height = 0 ∧
      (DdwafObject.string str).all DdwafObject.isValid = true) := by
  obtain ⟨str, hstr, hlong⟩ : ∃ str : List UInt8, str = List.replicate (uint32Max + 1) 0x61 ∧
      uint32Max < str.length := by
    refine ⟨_, rfl, ?_⟩
    rw [List.length_replicate]
    exact Nat.lt_succ_self _
  exact ⟨str, hstr, outputText_of_long hlong, rfl, rfl⟩

def longStrings : DdwafObject :=
  .array [.string (List.replicate 217 0x61), .string (List.replicate 218 0x62)]

theorem longStrings_fails :
    (outputConvertJson (fun n => n < 3) longStrings).toOption.map
      (fun s => (s.1, s.2.cells.length)) = some (none, 3) := by
  decide +kernel

theorem longStrings_converts :
    (outputConvertJson .total longStrings).toOption.map
      (fun s => (s.1, s.2.cells.length)) = some (some 0, 5) := by
  decide +kernel

/-- The fourth segment cannot be allocated, and the three that there are are freed. -/
theorem outputConvertJson_all_or_nothing_array :
    ∃ h h', outputConvertJson (fun n => n < 3) longStrings = .ok (none, h) ∧ h.cells.length = 3 ∧
      AllOrNothing longStrings none h ∧
      outputConvertJson .total longStrings = .ok (some 0, h') ∧ h'.cells.length = 5 ∧
      AllOrNothing longStrings (some 0) h' := by
  have hsize : longStrings.all DdwafObject.hasSizes = true := by decide +kernel
  obtain ⟨seg, h, hrun, hall, -⟩ := outputConvertJson_all_or_nothing (fun n => n < 3) hsize
  obtain ⟨seg', h', hrun', hall', -⟩ := outputConvertJson_all_or_nothing .total hsize
  have hfails := longStrings_fails
  have hconverts := longStrings_converts
  rw [hrun] at hfails
  rw [hrun'] at hconverts
  obtain ⟨hseg, hlength⟩ := Prod.mk.inj (Option.some.inj hfails)
  obtain ⟨hseg', hlength'⟩ := Prod.mk.inj (Option.some.inj hconverts)
  subst hseg hseg'
  exact ⟨h, h', hrun, hlength, hall, hrun', hlength', hall'⟩

end Ddwaf
