import Ddwaf.Native.Json.Impl
import Mathlib.Data.List.Basic

namespace Ddwaf

namespace JsonHeap

structure Linked (h : JsonHeap) (init : List JsonSegment.Cell) (last : JsonSegment.Cell) : Prop where
  cells_eq : h.cells = init ++ [last]
  next_init : ∀ i cell, init[i]? = some cell → cell.next = some (i + 1)
  next_last : last.next = none
  freed : h.freed = []

def text (h : JsonHeap) : List UInt8 := h.cells.flatMap fun cell => cell.data

def last (h : JsonHeap) : SegPtr := h.cells.length - 1

def IsLinked (h : JsonHeap) : Prop := ∃ init last, h.Linked init last

variable {h : JsonHeap} {init : List JsonSegment.Cell} {cell : JsonSegment.Cell}

theorem Linked.last_eq (hl : h.Linked init cell) : h.last = init.length := by
  simp [last, hl.cells_eq]

theorem Linked.get_last (hl : h.Linked init cell) : h.get h.last = .ok cell := by
  rw [get, hl.freed, hl.last_eq, hl.cells_eq]
  simp [load]

theorem Linked.set_last (hl : h.Linked init cell) (cell' : JsonSegment.Cell)
    (hnext : cell'.next = none) :
    { h with cells := h.cells.set h.last cell' }.Linked init cell' := by
  constructor
  . simp [hl.last_eq, hl.cells_eq]
  . exact hl.next_init
  . exact hnext
  . exact hl.freed

theorem Linked.push (hl : h.Linked init cell) {cell' : JsonSegment.Cell} (mallocs : Nat)
    (hnext : cell'.next = none) :
    (JsonHeap.mk ((h.cells ++ [cell']).set h.last { cell with next := some h.cells.length })
      h.freed mallocs).Linked
      (init ++ [{ cell with next := some h.cells.length }]) cell' := by
  constructor
  . simp [hl.last_eq, hl.cells_eq]
  . intro i c hc
    rw [List.getElem?_append] at hc
    split at hc
    . exact hl.next_init i c hc
    . next hi =>
      rw [List.getElem?_singleton] at hc
      split at hc
      . next hzero =>
        have hi' : i = init.length := by omega
        rw [Option.some.injEq] at hc
        rw [← hc, hi', hl.cells_eq, List.length_append, List.length_singleton]
      . contradiction
  . exact hnext
  . exact hl.freed

theorem Linked.next_eq {cell' : JsonSegment.Cell} (hl : h.Linked init cell) {p : Nat}
    (hcell : h.cells[p]? = some cell') :
    cell'.next = if p + 1 < h.cells.length then some (p + 1) else none := by
  have hlength : h.cells.length = init.length + 1 := by simp [hl.cells_eq]
  rw [hl.cells_eq, List.getElem?_append] at hcell
  split at hcell
  . next hlt =>
    rw [if_pos (by omega)]
    exact hl.next_init p cell' hcell
  . next hge =>
    rw [if_neg (by omega)]
    rw [List.getElem?_singleton] at hcell
    split at hcell
    . cases hcell
      exact hl.next_last
    . contradiction

theorem Linked.text_eq (hl : h.Linked init cell) :
    h.text = (init.flatMap fun c => c.data) ++ cell.data := by
  simp [text, hl.cells_eq]

theorem Linked.chain_drop (hl : h.Linked init cell) (fuel k : Nat) (hk : k ≤ init.length)
    (hfuel : init.length < fuel + k) :
    h.chain (fuel + 1) (some k) = (h.cells.drop k).map JsonSegment.Cell.toJsonSegment := by
  induction fuel generalizing k with
  | zero => omega
  | succ fuel ih =>
    by_cases hlt : k < init.length
    . have hnext : init[k].next = some (k + 1) := hl.next_init k _ (by simp [hlt])
      have hcell : h.cells[k]? = some init[k] := by
        rw [hl.cells_eq, List.getElem?_append_left hlt, List.getElem?_eq_getElem hlt]
      have hdrop : h.cells.drop k = init[k] :: h.cells.drop (k + 1) := by
        rw [hl.cells_eq, List.drop_append_of_le_length hk, List.drop_append_of_le_length hlt,
          List.drop_eq_getElem_cons hlt, List.cons_append]
      rw [chain, hcell, hdrop]
      simp only [hnext, List.map_cons]
      rw [ih (k + 1) hlt (by omega)]
    . have hk' : k = init.length := by omega
      subst hk'
      have hcell : h.cells[init.length]? = some cell := by simp [hl.cells_eq]
      rw [chain, hcell]
      simp [hl.next_last, chain, hl.cells_eq]

theorem IsLinked.chain_eq (hl : h.IsLinked) :
    h.chainFrom 0 = h.cells.map JsonSegment.Cell.toJsonSegment := by
  obtain ⟨init, cell, hl⟩ := hl
  have hlen : h.cells.length = init.length + 1 := by simp [hl.cells_eq]
  have := hl.chain_drop h.cells.length 0 (Nat.zero_le _) (by omega)
  rw [List.drop_zero] at this
  exact this

end JsonHeap

theorem jsonContent_chain {h : JsonHeap} (hl : h.IsLinked) :
    jsonContent (h.chainFrom 0) = h.text := by
  rw [hl.chain_eq, jsonContent, JsonHeap.text, List.flatMap_map]

/--
What becomes of a write: when `p` holds and allocation succeeds, `t` stands behind the text that has
been there before. Otherwise there is no segment to go on with, or the write goes out of bounds.
-/
inductive Writes (alloc : Alloc) (h : JsonHeap) (p : Prop) (t : List UInt8) :
    Native (Option SegPtr × JsonHeap) → Prop
  | done (h' : JsonHeap) (hp : p) (hl : h'.IsLinked) (htext : h'.text = h.text ++ t) :
    Writes alloc h p t (.ok (some h'.last, h'))
  | null (h' : JsonHeap) (hl : h'.IsLinked) (hp : ¬ p ∨ ∃ n, alloc n = false) :
    Writes alloc h p t (.ok (none, h'))
  | stop (e : Stop) (hp : ¬ p) : Writes alloc h p t (.error e)

namespace Writes

variable {alloc : Alloc} {h : JsonHeap} {p q : Prop} {t u : List UInt8}
  {r : Native (Option SegPtr × JsonHeap)}

theorem congr (hr : Writes alloc h p t r) (hp : p ↔ q) (ht : t = u) : Writes alloc h q u r := by
  rw [← propext hp, ← ht]
  exact hr

theorem skip (hl : h.IsLinked) : Writes alloc h True [] (.ok (some h.last, h)) :=
  done h trivial hl (List.append_nil _).symm

theorem bind (hr : Writes alloc h p t r)
    {f : Option SegPtr × JsonHeap → Native (Option SegPtr × JsonHeap)}
    (hf : ∀ h' : JsonHeap, h'.IsLinked → Writes alloc h' q u (f (some h'.last, h')))
    (hnull : ∀ h', f (none, h') = .ok (none, h')) :
    Writes alloc h (p ∧ q) (t ++ u) (r >>= f) := by
  cases hr with
  | done h' hp hl htext =>
    rw [ok_bind]
    generalize hres : f (some h'.last, h') = res
    have hf := hf h' hl
    rw [hres] at hf
    cases hf with
    | done h'' hq hl' htext' =>
      apply done h'' ⟨hp, hq⟩ hl'
      rw [htext', htext, List.append_assoc]
    | null h'' hl' hq =>
      apply null h'' hl'
      rcases hq with hq | hq
      . exact Or.inl (fun hpq => hq hpq.2)
      . exact Or.inr hq
    | stop e hq => exact stop e (fun hpq => hq hpq.2)
  | null h' hl hp =>
    rw [ok_bind, hnull]
    apply null h' hl
    rcases hp with hp | hp
    . exact Or.inl (fun hpq => hp hpq.1)
    . exact Or.inr hp
  | stop e hp => exact stop e (fun hpq => hp hpq.1)

end Writes

section Ensure

variable {alloc : Alloc} {h : JsonHeap}

theorem jsonSegNew_le {minSize : Nat} (h : JsonHeap) (hmin : minSize ≤ uint32Max)
    (halloc : alloc h.mallocs = true) :
    ∃ cell, jsonSegNew alloc minSize h =
        (some h.cells.length, { h with cells := h.cells ++ [cell], mallocs := h.mallocs + 1 }) ∧
      cell.data = [] ∧ minSize ≤ cell.size ∧ cell.next = none := by
  rw [jsonSegNew, dif_neg (by omega), if_pos halloc]
  exact ⟨_, rfl, rfl, Nat.le_max_left _ _, rfl⟩

theorem jsonSegNew_fail {minSize : Nat} (h : JsonHeap) (hmin : minSize ≤ uint32Max)
    (halloc : alloc h.mallocs = false) :
    jsonSegNew alloc minSize h = (none, { h with mallocs := h.mallocs + 1 }) := by
  rw [jsonSegNew, dif_neg (by omega), if_neg (by simp [halloc])]

theorem jsonSegNew_first (halloc : alloc 0 = true) :
    ∃ h : JsonHeap, h.last = 0 ∧ jsonSegNew alloc 0 .empty = (some h.last, h) ∧ h.IsLinked ∧
      h.text = [] := by
  obtain ⟨cell, hnew, hdata, -, hnext⟩ := jsonSegNew_le .empty (by decide : 0 ≤ uint32Max) halloc
  refine ⟨⟨[cell], [], 1⟩, rfl, hnew, ⟨[], cell, ?_⟩, ?_⟩
  . constructor
    . rfl
    . simp
    . exact hnext
    . rfl
  . simp [JsonHeap.text, hdata]

theorem jsonSegEnsure_spec (alloc : Alloc) (hl : h.IsLinked) {dataLen : Nat} (hlen : dataLen ≤ uint32Max) :
    (∃ h' init cell, jsonSegEnsure alloc (some h.last) dataLen h = .ok (some h'.last, h') ∧
      h'.Linked init cell ∧ h'.text = h.text ∧ cell.len + dataLen ≤ cell.size) ∨
    (∃ h' : JsonHeap, jsonSegEnsure alloc (some h.last) dataLen h = .ok (none, h') ∧
      h'.IsLinked ∧ ∃ n, alloc n = false) := by
  obtain ⟨init, cell, hl⟩ := hl
  have havail : subUint32 cell.size cell.len = cell.size - cell.len :=
    subUint32_of_le cell.len_le cell.size_le
  have hle : cell.len ≤ cell.size := cell.len_le
  rw [jsonSegEnsure, if_neg (by omega), hl.get_last, ok_bind, havail]
  by_cases hroom : cell.size - cell.len ≥ dataLen
  . rw [if_pos hroom]
    exact Or.inl ⟨h, init, cell, rfl, hl, rfl, by omega⟩
  . rw [if_neg hroom]
    cases halloc : alloc h.mallocs with
    | false =>
      rw [jsonSegNew_fail h hlen halloc]
      refine Or.inr ⟨_, rfl, ⟨init, cell, ?_⟩, _, halloc⟩
      exact ⟨hl.cells_eq, hl.next_init, hl.next_last, hl.freed⟩
    | true =>
      obtain ⟨cell', hnew, hdata, hsize, hnext⟩ := jsonSegNew_le h hlen halloc
      have hpush := hl.push (h.mallocs + 1) hnext
      rw [hnew]
      refine Or.inl ⟨_, _, cell', ?_, hpush, ?_, ?_⟩
      . rw [hpush.last_eq]
        simp [hl.cells_eq]
      . rw [hpush.text_eq, hl.text_eq, hdata]
        simp
      . simpa [JsonSegment.len, hdata] using hsize

end Ensure

theorem JsonHeap.Linked.write {h : JsonHeap} {init : List JsonSegment.Cell} {cell : JsonSegment.Cell}
    (hl : h.Linked init cell) {data : List UInt8} (hroom : cell.len + data.length ≤ cell.size) :
    ∃ h' : JsonHeap, h.write h.last data data.length = .ok h' ∧ h'.IsLinked ∧
      h'.last = h.last ∧ h'.text = h.text ++ data := by
  have hset := hl.set_last { cell with
    data := cell.data ++ data, len_le := by rw [List.length_append]; exact hroom } hl.next_last
  rw [JsonHeap.write, hl.get_last, ok_bind, dif_pos ⟨hroom, rfl⟩]
  refine ⟨_, rfl, ⟨_, _, hset⟩, ?_, ?_⟩
  . rw [hset.last_eq, hl.last_eq]
  . rw [hset.text_eq, hl.text_eq, List.append_assoc]

@[simp]
theorem jsonAppend_none (alloc : Alloc) (data : List UInt8) (h : JsonHeap) :
    jsonAppend alloc none data h = .ok (none, h) := by
  rfl

theorem jsonAppend_spec (alloc : Alloc) {h : JsonHeap} (hl : h.IsLinked) {data : List UInt8}
    (hlen : data.length ≤ uint32Max) :
    Writes alloc h True data (jsonAppend alloc (some h.last) data h) := by
  unfold jsonAppend
  rcases jsonSegEnsure_spec alloc hl hlen with
    ⟨h', init, cell, hensure, hl', htext, hroom⟩ | ⟨h', hensure, hl', halloc⟩
  . obtain ⟨h'', hwrite, hl'', hlast, htext'⟩ := hl'.write hroom
    rw [hensure, ok_bind]
    simp only [hwrite, ok_bind, pure_eq_ok]
    rw [← hlast]
    apply Writes.done h'' trivial hl''
    rw [htext', htext]
  . rw [hensure]
    exact Writes.null h' hl' (Or.inr halloc)

section EncodeStr

theorem length_jsonEscape (c : UInt8) :
    (jsonEscape c).length = if c = 0x5C ∨ c = 0x22 then 2 else if isControl c then 6 else 1 := by
  unfold jsonEscape
  split
  . rfl
  . split
    . rfl
    . rfl

@[simp]
theorem jsonEncodeStrTo_nil : jsonEncodeStrTo [] = [] := by
  rfl

@[simp]
theorem jsonEncodeStrTo_cons (c : UInt8) (str : List UInt8) :
    jsonEncodeStrTo (c :: str) = jsonEscape c ++ jsonEncodeStrTo str := by
  rfl

theorem length_jsonEncodeStrTo_replicate (n : Nat) :
    (jsonEncodeStrTo (List.replicate n 1)).length = 6 * n := by
  induction n with
  | zero => rfl
  | succ n ih =>
    rw [List.replicate_succ, jsonEncodeStrTo_cons, List.length_append, ih,
      show (jsonEscape 1).length = 6 by decide]
    omega

theorem jsonStrEncodedSize_eq (str : List UInt8) :
    jsonStrEncodedSize str = (jsonEncodeStrTo str).length % 2 ^ 64 := by
  have hfold : ∀ res, str.foldl
      (fun res c =>
        if c = 0x5C ∨ c = 0x22 then (res + 2) % 2 ^ 64
        else if isControl c then (res + 6) % 2 ^ 64
        else (res + 1) % 2 ^ 64)
      (res % 2 ^ 64) = (res + (jsonEncodeStrTo str).length) % 2 ^ 64 := by
    induction str with
    | nil => simp
    | cons c str ih =>
      intro res
      rw [List.foldl_cons, jsonEncodeStrTo_cons, List.length_append, length_jsonEscape]
      split
      . rw [Nat.mod_add_mod, ih, Nat.add_assoc]
      . split
        . rw [Nat.mod_add_mod, ih, Nat.add_assoc]
        . rw [Nat.mod_add_mod, ih, Nat.add_assoc]
  have := hfold 0
  rw [Nat.zero_add] at this
  exact this

theorem jsonEscape_eq_self {c : UInt8} (h : (jsonEscape c).length = 1) : jsonEscape c = [c] := by
  rw [length_jsonEscape] at h
  split at h
  . omega
  . next hc =>
    split at h
    . omega
    . next hc' => rw [jsonEscape, if_neg hc, if_neg hc']

theorem length_le_jsonEncodeStrTo (str : List UInt8) :
    str.length ≤ (jsonEncodeStrTo str).length ∧
      (jsonEncodeStrTo str).length ≤ 6 * str.length := by
  induction str with
  | nil => simp
  | cons c str ih =>
    rw [jsonEncodeStrTo_cons, List.length_append, List.length_cons, length_jsonEscape]
    split
    . omega
    . split <;> omega

theorem jsonEncodeStrTo_eq_self {str : List UInt8} (h : (jsonEncodeStrTo str).length = str.length) :
    jsonEncodeStrTo str = str := by
  induction str with
  | nil => rfl
  | cons c str ih =>
    have hle := (length_le_jsonEncodeStrTo str).1
    rw [jsonEncodeStrTo_cons, List.length_append, List.length_cons] at h
    have hpos : 1 ≤ (jsonEscape c).length := by
      rw [length_jsonEscape]
      split
      . omega
      . split <;> omega
    rw [jsonEncodeStrTo_cons, ih (by omega), jsonEscape_eq_self (by omega)]
    rfl

end EncodeStr

@[simp]
theorem jsonEncodeStr_none (alloc : Alloc) (str : List UInt8) (h : JsonHeap) :
    jsonEncodeStr alloc none str h = .ok (none, h) := by
  rfl

theorem jsonEncodeStr_too_long (alloc : Alloc) (p : SegPtr) {str : List UInt8} (h : JsonHeap)
    (hlong : uint32Max < (jsonEncodeStrTo str).length)
    (hsize : (jsonEncodeStrTo str).length < 2 ^ 64) :
    jsonEncodeStr alloc (some p) str h = .ok (none, h) := by
  have hencoded : jsonStrEncodedSize str = (jsonEncodeStrTo str).length := by
    rw [jsonStrEncodedSize_eq, Nat.mod_eq_of_lt hsize]
  simp only [jsonEncodeStr, jsonSegEnsure, hencoded]
  rw [if_pos hlong]
  rfl

theorem jsonEncodeStr_spec (alloc : Alloc) {h : JsonHeap} (hl : h.IsLinked) (str : List UInt8) :
    Writes alloc h ((jsonEncodeStrTo str).length ≤ uint32Max) (jsonEncodeStrTo str)
      (jsonEncodeStr alloc (some h.last) str h) := by
  obtain ⟨hge, hle⟩ := length_le_jsonEncodeStrTo str
  generalize hn : jsonStrEncodedSize str = n
  have hsize : n = (jsonEncodeStrTo str).length % 2 ^ 64 := by rw [← hn, jsonStrEncodedSize_eq]
  simp only [jsonEncodeStr, hn]
  by_cases hbig : n ≤ uint32Max
  . rcases jsonSegEnsure_spec alloc hl hbig with
      ⟨h', init, cell, hensure, hl', htext, hroom⟩ | ⟨h', hensure, hl', halloc⟩
    . rw [hensure, ok_bind]
      by_cases hfits : (jsonEncodeStrTo str).length ≤ uint32Max
      . have hlen : n = (jsonEncodeStrTo str).length := by
          rw [hsize]
          unfold uint32Max at hfits
          omega
        subst hlen
        obtain ⟨h'', hwrite, hl'', hlast, htext'⟩ := hl'.write hroom
        have hdone : Writes alloc h ((jsonEncodeStrTo str).length ≤ uint32Max) (jsonEncodeStrTo str)
            (.ok (some h'.last, h'')) := by
          rw [← hlast]
          apply Writes.done h'' hfits hl''
          rw [htext', htext]
        by_cases hsame : (jsonEncodeStrTo str).length = str.length
        . rw [jsonEncodeStrTo_eq_self hsame] at hwrite hdone ⊢
          simp only [↓reduceIte, hwrite]
          exact hdone
        . simp only [hsame, ↓reduceIte, hwrite]
          exact hdone
      . have hne : n ≠ str.length := by
          intro heq
          unfold uint32Max at hbig hfits
          omega
        have hne' : (jsonEncodeStrTo str).length ≠ n := by omega
        simp only [hne, ↓reduceIte, JsonHeap.write, hl'.get_last, ok_bind]
        rw [dif_neg (fun h => hne' h.2)]
        exact Writes.stop _ hfits
    . rw [hensure]
      exact Writes.null h' hl' (Or.inr halloc)
  . have hensure : jsonSegEnsure alloc (some h.last) n h = .ok (none, h) := by
      simp only [jsonSegEnsure]
      rw [if_pos (by omega)]
    rw [hensure]
    apply Writes.null h hl
    left
    unfold uint32Max at hbig ⊢
    omega

end Ddwaf
