import Mathlib.Algebra.GroupWithZero.Nat
import Ddwaf.Lib.Json.Lemmas.Parser

/-!
This module contains a scanner that counts the literals and numbers of a JSON text. The count only
depends on where strings start and end, so that it can be made on a text that is not grammatical.
-/

namespace Json

inductive Scan where
  | idle
  | token
  | string
  | escape
  deriving DecidableEq

def isSeparator (b : UInt8) : Bool :=
  isWs b || b = 0x2C || b = 0x3A || b = 0x5B || b = 0x5D || b = 0x7B || b = 0x7D

def Scan.step : Scan → UInt8 → Scan
  | .string, b => if b = 0x22 then .idle else if b = 0x5C then .escape else .string
  | .escape, _ => .string
  | .idle, b | .token, b => if b = 0x22 then .string else if isSeparator b then .idle else .token

def scan : Scan → List UInt8 → Nat
  | _, [] => 0
  | st, b :: s => (if st = .idle ∧ st.step b = .token then 1 else 0) + scan (st.step b) s

theorem scan_append (st : Scan) (s t : List UInt8) :
    scan st (s ++ t) = scan st s + scan (s.foldl Scan.step st) t := by
  induction s generalizing st with
  | nil => simp [scan]
  | cons b s ih =>
    rw [List.cons_append, scan, scan, List.foldl_cons, ih, Nat.add_assoc]

/-- The part `s` of a text stands outside of strings and has `n` literals and numbers. -/
structure Settles (s : List UInt8) (n : Nat) : Prop where
  scan_eq : scan .idle s = n
  state : s.foldl Scan.step .idle = .idle ∨ s.foldl Scan.step .idle = .token

theorem Settles.separator {s t : List UInt8} {b : UInt8} {n : Nat} (hs : Settles s n)
    (hb : isSeparator b = true) (hb' : b ≠ 0x22) :
    scan .idle (s ++ b :: t) = n + scan .idle t ∧
      (s ++ b :: t).foldl Scan.step .idle = t.foldl Scan.step .idle := by
  rw [scan_append, hs.scan_eq, List.foldl_append, List.foldl_cons, scan]
  rcases hs.state with h | h
  . rw [h]
    simp [Scan.step, hb, hb']
  . rw [h]
    simp [Scan.step, hb, hb']

theorem Settles.nil : Settles [] 0 :=
  ⟨rfl, Or.inl rfl⟩

theorem Settles.append_cons {s t : List UInt8} {b : UInt8} {n m : Nat} (hs : Settles s n)
    (ht : Settles t m) (hb : isSeparator b = true) (hb' : b ≠ 0x22) :
    Settles (s ++ b :: t) (n + m) := by
  obtain ⟨hscan, hstate⟩ := hs.separator (t := t) hb hb'
  constructor
  . rw [hscan, ht.scan_eq]
  . rw [hstate]
    exact ht.state

theorem Settles.cons {t : List UInt8} {b : UInt8} {m : Nat} (ht : Settles t m)
    (hb : isSeparator b = true) (hb' : b ≠ 0x22) : Settles (b :: t) m := by
  have := Settles.append_cons Settles.nil ht hb hb'
  rw [Nat.zero_add] at this
  exact this

theorem Settles.concat {s : List UInt8} {b : UInt8} {n : Nat} (hs : Settles s n)
    (hb : isSeparator b = true) (hb' : b ≠ 0x22) : Settles (s ++ [b]) n :=
  hs.append_cons Settles.nil hb hb'

theorem isSeparator_of_isWs {b : UInt8} (h : isWs b = true) : isSeparator b = true ∧ b ≠ 0x22 := by
  constructor
  . simp [isSeparator, h]
  . rintro rfl
    contradiction

theorem Settles.append_ws {s w : List UInt8} {n : Nat} (hs : Settles s n) (hw : Ws w) :
    Settles (s ++ w) n := by
  induction w generalizing s with
  | nil =>
    rw [List.append_nil]
    exact hs
  | cons b w ih =>
    obtain ⟨hb, hb'⟩ := isSeparator_of_isWs (hw b (by simp))
    have := ih (hs.concat hb hb') (fun c hc => hw c (List.mem_cons_of_mem b hc))
    rw [List.append_assoc] at this
    exact this

theorem Settles.ws_append {s w : List UInt8} {n : Nat} (hw : Ws w) (hs : Settles s n) :
    Settles (w ++ s) n := by
  induction w with
  | nil => exact hs
  | cons b w ih =>
    obtain ⟨hb, hb'⟩ := isSeparator_of_isWs (hw b (by simp))
    exact (ih (fun c hc => hw c (List.mem_cons_of_mem b hc))).cons hb hb'

theorem scan_token {t : List UInt8} (h : ∀ b ∈ t, b ≠ 0x22 ∧ isSeparator b = false) :
    scan .token t = 0 ∧ t.foldl Scan.step .token = .token := by
  induction t with
  | nil => exact ⟨rfl, rfl⟩
  | cons b t ih =>
    rw [List.forall_mem_cons] at h
    obtain ⟨hscan, hstate⟩ := ih h.2
    have hstep : Scan.step .token b = .token := by simp [Scan.step, h.1.1, h.1.2]
    rw [scan, List.foldl_cons, hstep, hscan, hstate]
    simp

theorem Settles.token {t : List UInt8} (hne : t ≠ [])
    (h : ∀ b ∈ t, b ≠ 0x22 ∧ isSeparator b = false) : Settles t 1 := by
  obtain ⟨b, t, rfl⟩ := List.exists_cons_of_ne_nil hne
  rw [List.forall_mem_cons] at h
  obtain ⟨hscan, hstate⟩ := scan_token h.2
  have hstep : Scan.step .idle b = .token := by simp [Scan.step, h.1.1, h.1.2]
  constructor
  . rw [scan, hstep, hscan]
    simp
  . rw [List.foldl_cons, hstep]
    exact Or.inr hstate

theorem scan_stringBody {s t r : List UInt8} (h : stringBody s = some (t, r)) :
    scan .string t = 0 ∧ t.foldl Scan.step .string = .string := by
  induction s using stringBody.induct generalizing t with
  | case1 => simp [stringBody] at h
  | case2 s =>
    rw [stringBody_quote, Option.some.injEq, Prod.mk.injEq] at h
    rw [← h.1]
    exact ⟨rfl, rfl⟩
  | case3 hb => simp [stringBody] at h
  | case4 hb e s ih =>
    rw [stringBody_escape, Option.map_eq_some_iff] at h
    obtain ⟨⟨t', r'⟩, hbody, h⟩ := h
    rw [Prod.mk.injEq] at h
    rw [h.2] at hbody
    obtain ⟨hscan, hstate⟩ := ih hbody
    rw [← h.1]
    simp [scan, Scan.step, hscan, hstate]
  | case5 b s hq hb ih =>
    rw [stringBody_cons s hq hb, Option.map_eq_some_iff] at h
    obtain ⟨⟨t', r'⟩, hbody, h⟩ := h
    rw [Prod.mk.injEq] at h
    rw [h.2] at hbody
    obtain ⟨hscan, hstate⟩ := ih hbody
    rw [← h.1]
    simp [scan, Scan.step, hscan, hstate, hq, hb]

theorem Settles.quoted {t s : List UInt8} (h : unescape t = some s) : Settles (quoted t) 0 := by
  obtain ⟨hscan, hstate⟩ := scan_stringBody (stringBody_of_unescape [] h)
  have hopen : Scan.step .idle 0x22 = .string := by decide
  have hclose : Scan.step .string 0x22 = .idle := by decide
  constructor
  . rw [Json.quoted, List.cons_append, scan, hopen, scan_append, hscan, hstate, scan, hclose, scan]
    simp
  . rw [Json.quoted, List.cons_append, List.foldl_cons, hopen, List.foldl_append, hstate]
    exact Or.inl hclose

theorem Settles.commaJoin {α : Type} {text : α → List UInt8} {count : α → Nat} {as : List α}
    (h : ∀ a ∈ as, Settles (text a) (count a)) :
    Settles (commaJoin (as.map text)) (as.map count).sum := by
  induction as with
  | nil => exact Settles.nil
  | cons a as ih =>
    rw [List.forall_mem_cons] at h
    cases as with
    | nil =>
      rw [List.map_singleton, List.map_singleton, List.sum_singleton]
      exact h.1
    | cons b as =>
      have := h.1.append_cons (ih h.2) (b := 0x2C) (by decide) (by decide)
      simp only [List.map_cons, List.sum_cons] at this ⊢
      rw [commaJoin_cons_cons]
      exact this

mutual

def Value.leaves : Value → Nat
  | .null | .bool _ | .number _ => 1
  | .string _ => 0
  | .array vs => leavesArray vs
  | .object ms => leavesObject ms

def Value.leavesArray : List Value → Nat
  | [] => 0
  | v :: vs => v.leaves + leavesArray vs

def Value.leavesObject : List (List UInt8 × Value) → Nat
  | [] => 0
  | (_, v) :: ms => v.leaves + leavesObject ms

end

theorem Value.leavesArray_eq (vs : List Value) : leavesArray vs = (vs.map leaves).sum := by
  induction vs with
  | nil => rfl
  | cons v vs ih => rw [leavesArray, ih, List.map_cons, List.sum_cons]

theorem Value.leavesObject_eq (ms : List (List UInt8 × Value)) :
    leavesObject ms = (ms.map fun m => m.2.leaves).sum := by
  induction ms with
  | nil => rfl
  | cons m ms ih => rw [leavesObject, ih, List.map_cons, List.sum_cons]

theorem Settles.padded {i : Item} (hi : i.Spaced) (h : Settles i.text i.value.leaves) :
    Settles i.padded i.value.leaves :=
  (h.ws_append hi.before).append_ws hi.after

theorem Settles.padded_member {m : Member} (hm : m.Spaced)
    (h : Settles m.item.text m.item.value.leaves) : Settles m.padded m.item.value.leaves := by
  have hkey := ((Settles.quoted hm.key).ws_append hm.before).append_ws hm.after
  have := hkey.append_cons (Settles.padded hm.item h) (b := 0x3A) (by decide) (by decide)
  rw [Nat.zero_add] at this
  exact this

theorem Settles.bracketed {t : List UInt8} {b c : UInt8} {n : Nat} (h : Settles t n)
    (hb : isSeparator b = true ∧ b ≠ 0x22) (hc : isSeparator c = true ∧ c ≠ 0x22) :
    Settles (b :: t ++ [c]) n :=
  (h.cons hb.1 hb.2).concat hc.1 hc.2

theorem Text.settles {t : List UInt8} {v : Value} (h : Text t v) : Settles t v.leaves := by
  induction h with
  | null => exact Settles.token (by decide) (by simp [isSeparator, isWs, nullText])
  | bool b => cases b <;> exact Settles.token (by decide) (by simp [isSeparator, isWs, boolText])
  | number t q h =>
    obtain ⟨hne, hall⟩ := numberValue_bytes h
    apply Settles.token hne
    intro b hb
    have hnum := hall b hb
    constructor
    . exact ne_of_isNumberByte hnum (by decide)
    . cases hsep : isSeparator b with
      | false => rfl
      | true =>
        simp only [isSeparator, Bool.or_eq_true, decide_eq_true_eq] at hsep
        rcases hsep with (((((hws | rfl) | rfl) | rfl) | rfl) | rfl) | rfl
        . rw [isNumberByte_of_isWs hws] at hnum
          contradiction
        all_goals contradiction
  | string t s h => exact Settles.quoted h
  | arrayNil w h =>
    have := (Settles.nil.append_ws h).bracketed (b := 0x5B) (c := 0x5D) (by decide) (by decide)
    exact this
  | array i is hs h ih =>
    rw [Value.leaves, Value.leavesArray_eq, List.map_map]
    apply Settles.bracketed
    . apply Settles.commaJoin
      intro j hj
      exact Settles.padded (hs j hj) (ih j hj)
    . decide
    . decide
  | objectNil w h =>
    have := (Settles.nil.append_ws h).bracketed (b := 0x7B) (c := 0x7D) (by decide) (by decide)
    exact this
  | object m ms hs h ih =>
    rw [Value.leaves, Value.leavesObject_eq, List.map_map]
    apply Settles.bracketed
    . apply Settles.commaJoin
      intro j hj
      exact Settles.padded_member (hs j hj) (ih j hj)
    . decide
    . decide

end Json
