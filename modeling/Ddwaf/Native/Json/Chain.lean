import Mathlib.Algebra.GroupWithZero.Nat
import Ddwaf.Native.Json.Lemmas.Read
import Ddwaf.Native.Json.Lemmas.Write

/-!
This module contains what a chain of segments is for: calls that write to it, each with the pointer that
the one before has returned, append to one text, and calls that read from it take it apart again.
-/

namespace Ddwaf

inductive JsonCall where
  | append (data : List UInt8)
  | encodeStr (rawStr : List UInt8)

namespace JsonCall

def data : JsonCall → List UInt8
  | append data => data
  | encodeStr rawStr => rawStr

def text : JsonCall → List UInt8
  | append data => data
  | encodeStr rawStr => jsonEncodeStrTo rawStr

def fits (call : JsonCall) : Bool := call.text.length ≤ uint32Max

def run (alloc : Alloc) : JsonCall → Option SegPtr × JsonHeap → Native (Option SegPtr × JsonHeap)
  | append data, (seg, h) => jsonAppend alloc seg data h
  | encodeStr rawStr, (seg, h) => jsonEncodeStr alloc seg rawStr h

def runAll (alloc : Alloc) :
    List JsonCall → Option SegPtr × JsonHeap → Native (Option SegPtr × JsonHeap)
  | [], s => .ok s
  | call :: calls, s => do
    let s ← call.run alloc s
    runAll alloc calls s

def appended (calls : List JsonCall) : List UInt8 := (calls.takeWhile fits).flatMap text

end JsonCall

def jsonReads (it : JsonIterator) : List Nat → Native (List (List UInt8))
  | [] => .ok []
  | outLen :: sizes => do
    let s ← jsonItRead it outLen
    let outs ← jsonReads s.it sizes
    return s.written :: outs

namespace JsonHeap

def LinksKept (h h' : JsonHeap) : Prop :=
  ∀ (p q : Nat) (cell : JsonSegment.Cell), h.cells[p]? = some cell → cell.next = some q →
    ∃ cell' : JsonSegment.Cell, h'.cells[p]? = some cell' ∧ cell'.next = some q

theorem IsLinked.linksKept {h h' : JsonHeap} (hl : h.IsLinked) (hl' : h'.IsLinked)
    (hle : h.cells.length ≤ h'.cells.length) : LinksKept h h' := by
  obtain ⟨init, last, hl⟩ := hl
  obtain ⟨init', last', hl'⟩ := hl'
  intro p q cell hcell hnext
  rw [hl.next_eq hcell] at hnext
  split at hnext
  . next hlt =>
    have hp : p < h'.cells.length := by omega
    refine ⟨h'.cells[p], List.getElem?_eq_getElem hp, ?_⟩
    rw [hl'.next_eq (List.getElem?_eq_getElem hp), if_pos (by omega)]
    exact hnext
  . contradiction

end JsonHeap

section Length

variable {alloc : Alloc} {seg seg' : Option SegPtr} {h h' : JsonHeap}

theorem length_le_jsonSegNew (alloc : Alloc) (minSize : Nat) (h : JsonHeap) :
    h.cells.length ≤ (jsonSegNew alloc minSize h).2.cells.length := by
  unfold jsonSegNew
  split
  . exact Nat.le_refl _
  . split
    . simp
    . exact Nat.le_refl _

theorem length_le_jsonSegEnsure {dataLen : Nat}
    (hr : jsonSegEnsure alloc seg dataLen h = .ok (seg', h')) :
    h.cells.length ≤ h'.cells.length := by
  unfold jsonSegEnsure at hr
  split at hr
  . cases hr
    exact Nat.le_refl _
  . split at hr
    . cases hr
      exact Nat.le_refl _
    . obtain ⟨cell, -, hr⟩ := bind_eq_ok hr
      have hle := length_le_jsonSegNew alloc dataLen h
      dsimp only at hr
      split at hr
      . cases hr
        exact Nat.le_refl _
      . split at hr
        . next hnew =>
          cases hr
          rw [hnew] at hle
          exact hle
        . next hnew =>
          cases hr
          rw [hnew] at hle
          simpa using hle

theorem length_eq_write {p : SegPtr} {data : List UInt8} {len : Nat}
    (hr : h.write p data len = .ok h') : h'.cells.length = h.cells.length := by
  obtain ⟨cell, -, hr⟩ := bind_eq_ok hr
  split at hr
  . cases hr
    simp
  . contradiction

theorem JsonCall.length_le_run {call : JsonCall} (hr : call.run alloc (seg, h) = .ok (seg', h')) :
    h.cells.length ≤ h'.cells.length := by
  cases call with
  | append data =>
    obtain ⟨⟨seg₁, h₁⟩, hensure, hr⟩ := bind_eq_ok hr
    have hle := length_le_jsonSegEnsure hensure
    cases seg₁ with
    | none =>
      cases hr
      exact hle
    | some p =>
      obtain ⟨h₂, hwrite, hr⟩ := bind_eq_ok hr
      cases hr
      rw [length_eq_write hwrite]
      exact hle
  | encodeStr rawStr =>
    obtain ⟨⟨seg₁, h₁⟩, hensure, hr⟩ := bind_eq_ok hr
    have hle := length_le_jsonSegEnsure hensure
    cases seg₁ with
    | none =>
      cases hr
      exact hle
    | some p =>
      dsimp only at hr
      split at hr
      . obtain ⟨h₂, hwrite, hr⟩ := bind_eq_ok hr
        cases hr
        rw [length_eq_write hwrite]
        exact hle
      . obtain ⟨h₂, hwrite, hr⟩ := bind_eq_ok hr
        cases hr
        rw [length_eq_write hwrite]
        exact hle

end Length

namespace JsonCall

variable {alloc : Alloc} {h : JsonHeap}

theorem run_none (call : JsonCall) (h : JsonHeap) : call.run alloc (none, h) = .ok (none, h) := by
  cases call with
  | append data => exact jsonAppend_none alloc data h
  | encodeStr rawStr => exact jsonEncodeStr_none alloc rawStr h

theorem runAll_none (calls : List JsonCall) (h : JsonHeap) :
    runAll alloc calls (none, h) = .ok (none, h) := by
  induction calls with
  | nil => rfl
  | cons call calls ih =>
    rw [runAll, run_none]
    exact ih

theorem run_writes (hl : h.IsLinked) {call : JsonCall} (hlen : call.data.length ≤ uint32Max) :
    Writes alloc h (call.fits = true) call.text (call.run alloc (some h.last, h)) := by
  cases call with
  | append data =>
    apply (jsonAppend_spec alloc hl hlen).congr _ rfl
    exact (iff_true_intro (decide_eq_true hlen)).symm
  | encodeStr rawStr =>
    apply (jsonEncodeStr_spec alloc hl rawStr).congr _ rfl
    exact (decide_eq_true_iff).symm

theorem run_of_not_fits {call : JsonCall} (hlen : call.data.length ≤ uint32Max)
    (hfits : call.fits = false) : call.run alloc (some h.last, h) = .ok (none, h) := by
  have hfits : uint32Max < call.text.length := by
    simpa [fits] using hfits
  cases call with
  | append data => exact absurd hlen (Nat.not_le.mpr hfits)
  | encodeStr rawStr =>
    apply jsonEncodeStr_too_long alloc h.last h hfits
    have hle := (length_le_jsonEncodeStrTo rawStr).2
    have : rawStr.length ≤ uint32Max := hlen
    unfold uint32Max at this
    omega

theorem run_cases (halloc : ∀ n, alloc n = true) (hl : h.IsLinked) {call : JsonCall}
    (hlen : call.data.length ≤ uint32Max) :
    (call.fits = true ∧ ∃ h', call.run alloc (some h.last, h) = .ok (some h'.last, h') ∧
      h'.IsLinked ∧ h'.text = h.text ++ call.text) ∨
    (call.fits = false ∧ call.run alloc (some h.last, h) = .ok (none, h)) := by
  cases hfits : call.fits with
  | false => exact Or.inr ⟨rfl, run_of_not_fits hlen hfits⟩
  | true =>
    left
    refine ⟨rfl, ?_⟩
    have hwrites : Writes alloc h (call.fits = true) call.text _ := run_writes hl hlen
    generalize hrun : call.run alloc (some h.last, h) = r at hwrites
    cases hwrites with
    | done h' _ hl' htext => exact ⟨h', rfl, hl', htext⟩
    | null h' _ hp =>
      rcases hp with hp | ⟨n, hn⟩
      . exact absurd hfits hp
      . rw [halloc n] at hn
        contradiction
    | stop e hp => exact absurd hfits hp

theorem runAll_spec (halloc : ∀ n, alloc n = true) (hl : h.IsLinked) {calls : List JsonCall}
    (hlen : ∀ call ∈ calls, call.data.length ≤ uint32Max) :
    ∃ h', runAll alloc calls (some h.last, h) =
        .ok (if calls.all fits then some h'.last else none, h') ∧
      h'.IsLinked ∧ h'.text = h.text ++ appended calls := by
  induction calls generalizing h with
  | nil => exact ⟨h, rfl, hl, (List.append_nil _).symm⟩
  | cons call calls ih =>
    obtain ⟨hcall, hcalls⟩ := List.forall_mem_cons.mp hlen
    rcases run_cases halloc hl hcall with ⟨hfits, h₁, hrun, hl₁, htext⟩ | ⟨hfits, hrun⟩
    . obtain ⟨h₂, hrun₂, hl₂, htext₂⟩ := ih hl₁ hcalls
      refine ⟨h₂, ?_, hl₂, ?_⟩
      . rw [runAll, hrun, ok_bind, hrun₂, List.all_cons, hfits, Bool.true_and]
      . rw [htext₂, htext, appended, appended, List.takeWhile_cons, if_pos hfits, List.flatMap_cons,
          List.append_assoc]
    . refine ⟨h, ?_, hl, ?_⟩
      . rw [runAll, hrun, ok_bind, runAll_none, List.all_cons, hfits]
        rfl
      . rw [appended, List.takeWhile_cons, if_neg (by simp [hfits])]
        simp

end JsonCall

theorem jsonReads_spec {it : JsonIterator} (hit : it.InSegment) {sizes : List Nat}
    (hsizes : ∀ n ∈ sizes, n ≤ sizeMax) :
    ∃ outs, jsonReads it sizes = .ok outs ∧ outs.length = sizes.length ∧
      (∀ k out size, outs[k]? = some out → sizes[k]? = some size → out.length ≤ size ∧
        (out.length < size → (outs.take (k + 1)).flatten = it.content)) ∧
      outs.flatten = it.content.take sizes.sum := by
  induction sizes generalizing it with
  | nil => exact ⟨[], rfl, rfl, by simp, by simp⟩
  | cons outLen sizes ih =>
    obtain ⟨houtLen, hsizes⟩ := List.forall_mem_cons.mp hsizes
    obtain ⟨s, hread, hcomplete⟩ := jsonItRead_eq hit houtLen
    obtain ⟨outs, hreads, hlength, hk, hflatten⟩ := ih hcomplete.inSegment hsizes
    have hsplit : s.written ++ s.it.content = it.content := by
      rw [hcomplete.written_eq, hcomplete.content_eq, List.take_append_drop]
    refine ⟨s.written :: outs, ?_, ?_, ?_, ?_⟩
    . rw [jsonReads, hread, ok_bind, hreads]
      rfl
    . simp [hlength]
    . intro k out size hout hsize
      cases k with
      | zero =>
        cases hout
        cases hsize
        have hlen : s.written.length = min outLen it.content.length := by
          rw [hcomplete.written_eq, List.length_take]
        refine ⟨by omega, ?_⟩
        intro hlt
        rw [List.take_succ_cons, List.take_zero, List.flatten_singleton, hcomplete.written_eq]
        apply List.take_of_length_le
        omega
      | succ k =>
        obtain ⟨hle, hend⟩ := hk k out size hout hsize
        refine ⟨hle, ?_⟩
        intro hlt
        rw [List.take_succ_cons, List.flatten_cons, hend hlt, hsplit]
    . rw [List.flatten_cons, hflatten, hcomplete.written_eq, hcomplete.content_eq, List.sum_cons,
        List.take_add]

/-- The chain is one text, whatever the segments are. -/
theorem jsonChain_refines {alloc : Alloc} (halloc : ∀ n, alloc n = true) {calls : List JsonCall}
    (hlen : ∀ call ∈ calls, call.data.length ≤ uint32Max) :
    ∃ h₀ h seg, h₀.last = 0 ∧ jsonSegNew alloc 0 .empty = (some h₀.last, h₀) ∧
      JsonCall.runAll alloc calls (some h₀.last, h₀) = .ok (seg, h) ∧
      seg = (if calls.all JsonCall.fits then some h.last else none) ∧ h.IsLinked ∧
      jsonContent (h.chainFrom 0) = JsonCall.appended calls ∧
      jsonLength (h.chainFrom 0) = (JsonCall.appended calls).length % 2 ^ 64 ∧
      (∀ call : JsonCall, call.data.length ≤ uint32Max →
        ∃ seg' h', call.run alloc (seg, h) = .ok (seg', h') ∧ JsonHeap.LinksKept h h') ∧
      ∀ sizes, (∀ n ∈ sizes, n ≤ sizeMax) →
        ∃ outs, jsonReads ⟨h.chainFrom 0, 0⟩ sizes = .ok outs ∧ outs.length = sizes.length ∧
          (∀ k out size, outs[k]? = some out → sizes[k]? = some size → out.length ≤ size ∧
            (out.length < size → (outs.take (k + 1)).flatten = JsonCall.appended calls)) ∧
          outs.flatten = (JsonCall.appended calls).take sizes.sum := by
  obtain ⟨h₀, hzero, hnew, hl₀, htext₀⟩ := jsonSegNew_first (halloc 0)
  obtain ⟨h, hrun, hl, htext⟩ := JsonCall.runAll_spec halloc hl₀ hlen
  rw [htext₀, List.nil_append] at htext
  have hcontent : jsonContent (h.chainFrom 0) = JsonCall.appended calls := by
    rw [jsonContent_chain hl, htext]
  refine ⟨h₀, h, _, hzero, hnew, hrun, rfl, hl, hcontent, ?_, ?_, ?_⟩
  . rw [jsonLength_eq, hcontent]
  . intro call hcall
    split
    . rcases JsonCall.run_cases halloc hl hcall with ⟨-, h', hcall, hl', -⟩ | ⟨-, hcall⟩
      . exact ⟨_, h', hcall, hl.linksKept hl' (JsonCall.length_le_run hcall)⟩
      . exact ⟨_, h, hcall, hl.linksKept hl (Nat.le_refl _)⟩
    . exact ⟨_, h, JsonCall.run_none call h, hl.linksKept hl (Nat.le_refl _)⟩
  . intro sizes hsizes
    have hit : (JsonIterator.mk (h.chainFrom 0) 0).InSegment := by
      unfold JsonIterator.InSegment
      split
      . trivial
      . exact Nat.zero_le _
    have := jsonReads_spec hit hsizes
    rw [JsonIterator.content, List.drop_zero, hcontent] at this
    exact this

theorem jsonEncodeStr_text_too_long :
    ∃ (h₀ : JsonHeap) (call : JsonCall), call.data.length ≤ uint32Max ∧
      jsonSegNew .total 0 .empty = (some h₀.last, h₀) ∧
      call.run .total (some h₀.last, h₀) = .ok (none, h₀) ∧
      jsonContent (h₀.chainFrom 0) ≠ call.text := by
  obtain ⟨h₀, -, hnew, hl₀, htext₀⟩ := jsonSegNew_first (show Alloc.total 0 = true from rfl)
  have hlength := length_jsonEncodeStrTo_replicate 715827883
  refine ⟨h₀, .encodeStr (List.replicate 715827883 1), ?_, hnew, ?_, ?_⟩
  . rw [JsonCall.data, List.length_replicate]
    decide
  . apply jsonEncodeStr_too_long
    . rw [hlength]
      decide
    . rw [hlength]
      decide
  . rw [jsonContent_chain hl₀, htext₀, JsonCall.text]
    intro h
    rw [← h] at hlength
    contradiction

def quotes : List JsonCall := [.append [0x22], .encodeStr (List.replicate 150 0x22), .append [0x22]]

def quotesText : List UInt8 := 0x22 :: (List.replicate 150 [0x5C, 0x22]).flatten ++ [0x22]

theorem quotes_appended : JsonCall.appended quotes = quotesText := by
  decide +kernel

theorem quotes_segments {h₀ h : JsonHeap} {seg : Option SegPtr}
    (hnew : jsonSegNew .total 0 .empty = (some h₀.last, h₀))
    (hrun : JsonCall.runAll .total quotes (some h₀.last, h₀) = .ok (seg, h)) :
    (h.chainFrom 0).length = 3 := by
  have hlength : (JsonCall.runAll .total quotes (jsonSegNew .total 0 .empty)).toOption.map
      (fun s => (s.2.chainFrom 0).length) = some 3 := by
    decide +kernel
  rw [hnew, hrun] at hlength
  exact Option.some.inj hlength

theorem jsonChain_refines_quotes :
    ∃ h₀ h seg outs, JsonCall.runAll .total quotes (some h₀.last, h₀) = .ok (seg, h) ∧
      (h.chainFrom 0).length = 3 ∧ jsonContent (h.chainFrom 0) = quotesText ∧
      jsonReads ⟨h.chainFrom 0, 0⟩ [100, 0, 150] = .ok outs ∧ outs.flatten = quotesText.take 250 := by
  have hlen : ∀ call ∈ quotes, call.data.length ≤ uint32Max := by
    simp [quotes, JsonCall.data, uint32Max]
  obtain ⟨h₀, h, seg, -, hnew, hrun, -, -, hcontent, -, -, hreads⟩ :=
    jsonChain_refines (fun _ => rfl) hlen
  obtain ⟨outs, houts, -, -, hflatten⟩ := hreads [100, 0, 150] (by decide)
  rw [quotes_appended] at hcontent hflatten
  exact ⟨h₀, h, seg, outs, hrun, quotes_segments hnew hrun, hcontent, houts, hflatten⟩

end Ddwaf
