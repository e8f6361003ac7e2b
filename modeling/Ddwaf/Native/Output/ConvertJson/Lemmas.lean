import Ddwaf.Lib.Json.Tokens
import Ddwaf.Native.Json.Lemmas.Write
import Ddwaf.Native.Output.ConvertJson.Impl

namespace Ddwaf

mutual

def jsonText : DdwafObject → List UInt8
  | .signed val => formatI64 val
  | .unsigned val => formatU64 val
  | .string str => Json.quoted (jsonEncodeStrTo str)
  | .array array => 0x5B :: Json.commaJoin (jsonTexts array) ++ [0x5D]
  | .map array => 0x7B :: Json.commaJoin (jsonMembers array) ++ [0x7D]
  | .bool b => Json.boolText b
  | .invalid | .float _ | .null => []

def jsonTexts : List DdwafObject → List (List UInt8)
  | [] => []
  | o :: rest => jsonText o :: jsonTexts rest

def jsonMembers : List (List UInt8 × DdwafObject) → List (List UInt8)
  | [] => []
  | (parameterName, o) :: rest =>
    (Json.quoted (jsonEncodeStrTo parameterName) ++ 0x3A :: jsonText o) :: jsonMembers rest

end

def jsonMember (e : List UInt8 × DdwafObject) : List UInt8 :=
  Json.quoted (jsonEncodeStrTo e.1) ++ 0x3A :: jsonText e.2

theorem jsonTexts_eq (array : List DdwafObject) : jsonTexts array = array.map jsonText := by
  induction array with
  | nil => rfl
  | cons o rest ih => rw [jsonTexts, ih, List.map_cons]

theorem jsonMembers_eq (array : List (List UInt8 × DdwafObject)) :
    jsonMembers array = array.map jsonMember := by
  induction array with
  | nil => rfl
  | cons e rest ih => rw [jsonMembers, ih, List.map_cons, jsonMember]

def fitsSegment (str : List UInt8) : Bool := (jsonEncodeStrTo str).length ≤ uint32Max

def DdwafObject.writable : DdwafObject → Bool
  | .invalid => false
  | .string str => fitsSegment str
  | .map entries => entries.all fun e => fitsSegment e.1
  | _ => true

structure Writable (depth : Nat) (o : DdwafObject) : Prop where
  height : depth + o.height ≤ maxJsonDepth
  all : o.all DdwafObject.writable = true

section Format

theorem length_decimal_le {n k : Nat} (hk : 0 < k) (h : n < 10 ^ k) : (decimal n).length ≤ k := by
  rw [decimal, List.length_map]
  exact (Nat.length_toDigits_le_iff (by decide) hk).mpr h

theorem length_formatI64_le (val : Int64) : (formatI64 val).length ≤ 20 := by
  have hlt := val.toInt_lt
  have hge := val.le_toInt
  have hdecimal : (decimal val.toInt.natAbs).length ≤ 19 := by
    apply length_decimal_le
    . decide
    . omega
  unfold formatI64
  split
  . rw [List.length_cons]
    omega
  . omega

theorem length_formatU64_le (val : UInt64) : (formatU64 val).length ≤ 20 := by
  have hlt := val.toNat_lt
  apply length_decimal_le
  . decide
  . omega

theorem sprintfStr_eq {text : List UInt8} (h : text.length ≤ 20) :
    sprintfStr text = .ok text := by
  rw [sprintfStr, store_of_le]
  . rfl
  . rw [List.length_append, List.length_nil, List.length_singleton]
    omega

end Format

section Convert

variable {alloc : Alloc} {h : JsonHeap}

@[simp]
theorem convertJson_none (alloc : Alloc) (o : DdwafObject) (depth : Nat) (h : JsonHeap) :
    convertJson alloc o depth none h = .ok (none, h) := by
  rw [convertJson.eq_def, if_pos (Or.inr rfl)]

@[simp]
theorem jsonAppendSeparator_none (alloc : Alloc) (rest : List α) (h : JsonHeap) :
    jsonAppendSeparator alloc rest none h = .ok (none, h) := by
  unfold jsonAppendSeparator
  split <;> rfl

@[simp]
theorem convertJsonArray_none (alloc : Alloc) (array : List DdwafObject) (depth : Nat)
    (h : JsonHeap) : convertJsonArray alloc array depth none h = .ok (none, h) := by
  induction array with
  | nil => rfl
  | cons o rest ih =>
    simp [convertJsonArray, ih]

@[simp]
theorem convertJsonMap_none (alloc : Alloc) (array : List (List UInt8 × DdwafObject)) (depth : Nat)
    (h : JsonHeap) : convertJsonMap alloc array depth none h = .ok (none, h) := by
  induction array with
  | nil => rfl
  | cons e rest ih =>
    simp [convertJsonMap, ih]

theorem append_writes (hl : h.IsLinked) (data : List UInt8) (hlen : data.length ≤ 20) :
    Writes alloc h True data (jsonAppend alloc (some h.last) data h) := by
  apply jsonAppend_spec alloc hl
  unfold uint32Max
  omega

def separator (rest : List α) : List UInt8 := if rest ≠ [] then [0x2C] else []

theorem separator_writes (hl : h.IsLinked) (rest : List α) :
    Writes alloc h True (separator rest) (jsonAppendSeparator alloc rest (some h.last) h) := by
  unfold separator jsonAppendSeparator
  split
  . exact append_writes hl [0x2C] (by decide)
  . exact Writes.skip hl

theorem commaJoin_map_cons (f : α → List UInt8) (a : α) (as : List α) :
    f a ++ (separator as ++ Json.commaJoin (as.map f)) = Json.commaJoin ((a :: as).map f) := by
  cases as with
  | nil => simp [separator, Json.commaJoin]
  | cons b bs => simp [separator, Json.commaJoin_cons_cons]

theorem convertJsonArray_spec {array : List DdwafObject} {depth : Nat}
    (ih : ∀ o ∈ array, ∀ h : JsonHeap, h.IsLinked →
      Writes alloc h (Writable depth o) (jsonText o) (convertJson alloc o depth (some h.last) h))
    (hl : h.IsLinked) :
    Writes alloc h (∀ o ∈ array, Writable depth o) (Json.commaJoin (array.map jsonText))
      (convertJsonArray alloc array depth (some h.last) h) := by
  induction array generalizing h with
  | nil => exact (Writes.skip hl).congr (by simp) rfl
  | cons o rest ihRest =>
    rw [List.forall_mem_cons] at ih
    rw [convertJsonArray]
    apply Writes.congr
    . apply Writes.bind (ih.1 h hl)
      . intro h hl
        apply Writes.bind (separator_writes hl rest)
        . intro h hl
          exact ihRest ih.2 hl
        . simp
      . simp
    . simp
    . rw [commaJoin_map_cons]

theorem convertJsonMap_spec {array : List (List UInt8 × DdwafObject)} {depth : Nat}
    (ih : ∀ e ∈ array, ∀ h : JsonHeap, h.IsLinked →
      Writes alloc h (Writable depth e.2) (jsonText e.2)
        (convertJson alloc e.2 depth (some h.last) h))
    (hl : h.IsLinked) :
    Writes alloc h (∀ e ∈ array, fitsSegment e.1 = true ∧ Writable depth e.2)
      (Json.commaJoin (array.map jsonMember))
      (convertJsonMap alloc array depth (some h.last) h) := by
  induction array generalizing h with
  | nil => exact (Writes.skip hl).congr (by simp) rfl
  | cons e rest ihRest =>
    rw [List.forall_mem_cons] at ih
    rw [convertJsonMap]
    apply Writes.congr
    . apply Writes.bind (append_writes hl [0x22] (by decide))
      . intro h hl
        apply Writes.bind (jsonEncodeStr_spec alloc hl e.1)
        . intro h hl
          apply Writes.bind (append_writes hl [0x22, 0x3A] (by decide))
          . intro h hl
            apply Writes.bind (ih.1 h hl)
            . intro h hl
              apply Writes.bind (separator_writes hl rest)
              . intro h hl
                exact ihRest ih.2 hl
              . simp
            . simp
          . simp
        . simp
      . simp
    . simp [fitsSegment, and_assoc]
    . rw [← commaJoin_map_cons]
      simp [jsonMember, Json.quoted]

section Writable

variable {depth : Nat} (hdepth : depth ≤ maxJsonDepth)
include hdepth

theorem writable_of_leaf {o : DdwafObject} (hheight : o.height = 0)
    (hall : o.all DdwafObject.writable = true) : True ↔ Writable depth o := by
  constructor
  . intro _
    constructor
    . rw [hheight]
      exact hdepth
    . exact hall
  . intro _
    trivial

theorem writable_string (str : List UInt8) :
    Writable depth (.string str) ↔ fitsSegment str = true := by
  constructor
  . intro h
    exact h.all
  . intro h
    constructor
    . exact hdepth
    . exact h

theorem writable_array (array : List DdwafObject) :
    Writable depth (.array array) ↔ ∀ o ∈ array, Writable (depth + 1) o := by
  have hheight := DdwafObject.heightArray_lt_iff (a := array) (n := maxJsonDepth - depth)
  constructor
  . intro h o ho
    have hle := h.height
    have hall := h.all
    rw [DdwafObject.height] at hle
    simp only [DdwafObject.all, DdwafObject.writable, DdwafObject.allArray_eq, Bool.true_and,
      List.all_eq_true] at hall
    have hlt := hheight.mp (by omega) o ho
    constructor
    . omega
    . exact hall o ho
  . intro h
    have hlt : DdwafObject.heightArray array < maxJsonDepth - depth + 1 := by
      rw [hheight]
      intro o ho
      have := (h o ho).height
      omega
    constructor
    . rw [DdwafObject.height]
      omega
    . simp only [DdwafObject.all, DdwafObject.writable, DdwafObject.allArray_eq, Bool.true_and,
        List.all_eq_true]
      intro o ho
      exact (h o ho).all

theorem writable_map (array : List (List UInt8 × DdwafObject)) :
    Writable depth (.map array) ↔
      ∀ e ∈ array, fitsSegment e.1 = true ∧ Writable (depth + 1) e.2 := by
  have hheight := DdwafObject.heightMap_lt_iff (a := array) (n := maxJsonDepth - depth)
  constructor
  . intro h e he
    have hle := h.height
    have hall := h.all
    rw [DdwafObject.height] at hle
    simp only [DdwafObject.all, DdwafObject.writable, DdwafObject.allMap_eq, Bool.and_eq_true,
      List.all_eq_true] at hall
    have hlt := hheight.mp (by omega) e he
    refine ⟨hall.1 e he, ?_, hall.2 e he⟩
    omega
  . intro h
    have hlt : DdwafObject.heightMap array < maxJsonDepth - depth + 1 := by
      rw [hheight]
      intro e he
      have := (h e he).2.height
      omega
    constructor
    . rw [DdwafObject.height]
      omega
    . simp only [DdwafObject.all, DdwafObject.writable, DdwafObject.allMap_eq, Bool.and_eq_true,
        List.all_eq_true]
      constructor
      . intro e he
        exact (h e he).1
      . intro e he
        exact (h e he).2.all

end Writable

theorem convertJson_of_le {o : DdwafObject} {depth : Nat} (hl : h.IsLinked)
    (hle : depth ≤ maxJsonDepth → Writes alloc h (Writable depth o) (jsonText o)
      (convertJson alloc o depth (some h.last) h)) :
    Writes alloc h (Writable depth o) (jsonText o)
      (convertJson alloc o depth (some h.last) h) := by
  by_cases hdepth : depth ≤ maxJsonDepth
  . exact hle hdepth
  . rw [convertJson.eq_def, if_pos (Or.inl (by omega))]
    apply Writes.null h hl
    left
    intro hw
    have := hw.height
    omega

theorem not_stopped {depth : Nat} (hle : depth ≤ maxJsonDepth) (h : JsonHeap) :
    ¬ (depth > maxJsonDepth ∨ some h.last = none) := by
  simpa using hle

theorem convertJson_spec_of_le (alloc : Alloc) (o : DdwafObject) {depth : Nat}
    (hle : depth ≤ maxJsonDepth) {h : JsonHeap} (hl : h.IsLinked) :
    Writes alloc h (Writable depth o) (jsonText o)
      (convertJson alloc o depth (some h.last) h) := by
  induction o using DdwafObject.ind generalizing depth h with
  | invalid =>
    rw [convertJson.eq_def, if_neg (not_stopped hle h)]
    apply Writes.null h hl
    left
    intro hw
    have := hw.all
    contradiction
  | signed val =>
    rw [convertJson.eq_def, if_neg (not_stopped hle h)]
    simp only [sprintfStr_eq (length_formatI64_le val), ok_bind]
    exact (append_writes hl _ (length_formatI64_le val)).congr (writable_of_leaf hle rfl rfl) rfl
  | unsigned val =>
    rw [convertJson.eq_def, if_neg (not_stopped hle h)]
    simp only [sprintfStr_eq (length_formatU64_le val), ok_bind]
    exact (append_writes hl _ (length_formatU64_le val)).congr (writable_of_leaf hle rfl rfl) rfl
  | string str =>
    rw [convertJson.eq_def, if_neg (not_stopped hle h)]
    apply Writes.congr
    . apply Writes.bind (append_writes hl [0x22] (by decide))
      . intro h hl
        apply Writes.bind (jsonEncodeStr_spec alloc hl str)
        . intro h hl
          exact append_writes hl [0x22] (by decide)
        . simp
      . simp
    . rw [writable_string hle]
      simp [fitsSegment]
    . simp [jsonText, Json.quoted]
  | array array ih =>
    rw [convertJson.eq_def, if_neg (not_stopped hle h)]
    apply Writes.congr
    . apply Writes.bind (append_writes hl [0x5B] (by decide))
      . intro h hl
        apply Writes.bind
        . apply convertJsonArray_spec
          . intro o ho h hl
            apply convertJson_of_le hl
            intro hle
            exact ih o ho hle hl
          . exact hl
        . intro h hl
          exact append_writes hl [0x5D] (by decide)
        . simp
      . simp
    . rw [writable_array hle]
      simp
    . simp [jsonText, jsonTexts_eq]
  | map array ih =>
    rw [convertJson.eq_def, if_neg (not_stopped hle h)]
    apply Writes.congr
    . apply Writes.bind (append_writes hl [0x7B] (by decide))
      . intro h hl
        apply Writes.bind
        . apply convertJsonMap_spec
          . intro e he h hl
            apply convertJson_of_le hl
            intro hle
            exact ih e he hle hl
          . exact hl
        . intro h hl
          exact append_writes hl [0x7D] (by decide)
        . simp
      . simp
    . rw [writable_map hle]
      simp
    . simp [jsonText, jsonMembers_eq]
  | bool b =>
    rw [convertJson.eq_def, if_neg (not_stopped hle h)]
    cases b with
    | true => exact (append_writes hl _ (by decide)).congr (writable_of_leaf hle rfl rfl) rfl
    | false => exact (append_writes hl _ (by decide)).congr (writable_of_leaf hle rfl rfl) rfl
  | float v =>
    rw [convertJson.eq_def, if_neg (not_stopped hle h)]
    exact (Writes.skip hl).congr (writable_of_leaf hle rfl rfl) rfl
  | null =>
    rw [convertJson.eq_def, if_neg (not_stopped hle h)]
    exact (Writes.skip hl).congr (writable_of_leaf hle rfl rfl) rfl

theorem convertJson_spec (alloc : Alloc) (o : DdwafObject) (depth : Nat) {h : JsonHeap}
    (hl : h.IsLinked) :
    Writes alloc h (Writable depth o) (jsonText o)
      (convertJson alloc o depth (some h.last) h) := by
  apply convertJson_of_le hl
  intro hle
  exact convertJson_spec_of_le alloc o hle hl

end Convert

def outputText (r : Native (Option SegPtr × JsonHeap)) : Option (List UInt8) :=
  match r with
  | .ok (some p, h) => some (jsonContent (h.chainFrom p))
  | _ => none

theorem outputConvertJson_cases (alloc : Alloc) (o : DdwafObject) :
    (outputText (outputConvertJson alloc o) = some (jsonText o) ∧ Writable 0 o) ∨
    (outputText (outputConvertJson alloc o) = none ∧
      (¬ Writable 0 o ∨ ∃ n, alloc n = false)) := by
  cases halloc : alloc 0 with
  | false =>
    right
    rw [outputConvertJson, jsonSegNew_fail _ (by decide) halloc]
    exact ⟨rfl, Or.inr ⟨0, halloc⟩⟩
  | true =>
    obtain ⟨h, hlast, hnew, hl, htext⟩ := jsonSegNew_first halloc
    rw [outputConvertJson, hnew]
    have hspec := convertJson_spec alloc o 0 hl
    generalize hres : convertJson alloc o 0 _ h = res at hspec
    simp only [hres]
    cases hspec with
    | done h' hp hl' htext' =>
      left
      refine ⟨?_, hp⟩
      rw [htext, List.nil_append] at htext'
      rw [← htext']
      have hchain := jsonContent_chain hl'
      rw [← hlast] at hchain
      exact congrArg some hchain
    | null h' hl' hp =>
      right
      refine ⟨?_, hp⟩
      simp only [ok_bind, ne_eq, not_true_eq_false, ↓reduceIte, outputText]
      generalize jsonSegFree _ _ = freed
      cases freed <;> rfl
    | stop e hp =>
      right
      exact ⟨rfl, Or.inl hp⟩

theorem outputConvertJson_total (o : DdwafObject) {t : List UInt8} :
    outputText (outputConvertJson .total o) = some t ↔ Writable 0 o ∧ t = jsonText o := by
  rcases outputConvertJson_cases .total o with ⟨htext, hw⟩ | ⟨htext, hw⟩
  . rw [htext, Option.some.injEq]
    constructor
    . intro h
      exact ⟨hw, h.symm⟩
    . intro h
      exact h.2.symm
  . rw [htext]
    constructor
    . intro h
      contradiction
    . intro h
      rcases hw with hw | ⟨n, hn⟩
      . exact absurd h.1 hw
      . contradiction

end Ddwaf
