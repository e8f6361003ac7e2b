import Ddwaf.Native.Basic
import Ddwaf.Lib.Loop

/-!
This module contains the replacement for `memrchr` on the systems that have none, and when it finds
the last occurrence of a character.
-/

namespace Ddwaf

def charOfInt (c : Int32) : UInt8 := c.toInt8.toUInt8

namespace memrchr

structure State where
  p : Int
  n : Nat

def loadAt (buf : List UInt8) (p : Int) : Native UInt8 :=
  if p < 0 then .error .outOfBounds else load buf p.toNat

def turn (buf : List UInt8) (c : Int32) (s : State) : Native (Loop.Outcome State (Option Int)) :=
  if s.n = 0 then
    .ok (.done none)
  else
    match loadAt buf s.p with
    | .error e => .error e
    | .ok b =>
      let p := s.p - 1
      if b = charOfInt c then
        .ok (.done (some (p + 1)))
      else
        .ok (.next ⟨p, s.n - 1⟩)

end memrchr

def memrchr (buf : List UInt8) (c : Int32) (n : Nat) : Native (Option Int) :=
  Loop.run (memrchr.turn buf c) .diverges (n + 1) ⟨0, n⟩

namespace memrchr

variable {buf : List UInt8} {c : Int32}

theorem turn_of_zero (p : Int) : turn buf c ⟨p, 0⟩ = .ok (.done none) := by
  rfl

theorem turn_of_negative {p : Int} (n : Nat) (h : p < 0) :
    turn buf c ⟨p, n + 1⟩ = .error .outOfBounds := by
  simp [turn, loadAt, h]

theorem turn_of_first {b : UInt8} {rest : List UInt8} (n : Nat) (h : buf = b :: rest) :
    turn buf c ⟨0, n + 1⟩
      =
    if b = charOfInt c then .ok (.done (some 0)) else .ok (.next ⟨-1, n⟩) := by
  rw [h]
  rfl

theorem loadAt_ne_diverges (p : Int) : loadAt buf p ≠ .error .diverges := by
  unfold loadAt
  split
  . simp
  . unfold load
    split
    . simp
    . simp

theorem terminates (buf : List UInt8) (c : Int32) (n : Nat) :
    memrchr buf c n ≠ .error .diverges := by
  unfold memrchr
  apply Loop.run_of_turn (I := fun _ => True) (μ := State.n)
    (Q := fun r : Native (Option Int) => r ≠ .error .diverges)
  . intro s _
    by_cases hn : s.n = 0
    . apply Loop.Turn.done none
      . simp [turn, hn]
      . simp
    . cases hload : loadAt buf s.p with
      | error e =>
        apply Loop.Turn.error e
        . simp [turn, hn, hload]
        . intro he
          cases he
          exact loadAt_ne_diverges s.p hload
      | ok b =>
        by_cases hb : b = charOfInt c
        . apply Loop.Turn.done (some (s.p - 1 + 1))
          . simp [turn, hn, hload, hb]
          . simp
        . apply Loop.Turn.next ⟨s.p - 1, s.n - 1⟩
          . simp [turn, hn, hload, hb]
          . trivial
          . change s.n - 1 < s.n
            omega
  . trivial
  . exact Nat.lt_succ_self n

end memrchr

section Last

variable {α : Type}

def IsLastOccurrence (c : α) (buf : List α) (i : Nat) : Prop :=
  buf[i]? = some c ∧ ∀ j, i < j → buf[j]? ≠ some c

theorem isLastOccurrence_zero_cons {c b : α} {rest : List α} :
    IsLastOccurrence c (b :: rest) 0 ↔ b = c ∧ c ∉ rest := by
  unfold IsLastOccurrence
  constructor
  . intro ⟨hfirst, hlater⟩
    apply And.intro
    . simpa using hfirst
    . intro hmem
      have ⟨j, hj⟩ := List.mem_iff_getElem?.mp hmem
      apply hlater (j + 1) (Nat.succ_pos j)
      rw [List.getElem?_cons_succ]
      exact hj
  . intro ⟨hfirst, hlater⟩
    apply And.intro
    . simp [hfirst]
    . intro j hj h
      apply hlater
      have hcons : j = (j - 1) + 1 := by omega
      rw [hcons, List.getElem?_cons_succ] at h
      exact List.mem_of_getElem? h

/-- The address of the last occurrence of `c` is returned, and `NULL` when there is none. -/
def FindsLast (c : α) (buf : List α) : Native (Option Int) → Prop
  | .ok none => c ∉ buf
  | .ok (some p) => ∃ i : Nat, p = i ∧ IsLastOccurrence c buf i
  | .error _ => False

end Last

theorem memrchr_singleton (b : UInt8) (c : Int32) :
    memrchr [b] c 1 = if b = charOfInt c then .ok (some 0) else .ok none := by
  unfold memrchr
  split
  . next h =>
    rw [Loop.run_done]
    rw [memrchr.turn_of_first 0 rfl, if_pos h]
  . next h =>
    rw [Loop.run_next, Loop.run_done]
    . exact memrchr.turn_of_zero (-1)
    . rw [memrchr.turn_of_first 0 rfl, if_neg h]

theorem memrchr_cons_cons (b b' : UInt8) (rest : List UInt8) (c : Int32) :
    memrchr (b :: b' :: rest) c (b :: b' :: rest).length
      =
    if b = charOfInt c then .ok (some 0) else .error .outOfBounds := by
  unfold memrchr
  split
  . next h =>
    rw [Loop.run_done]
    rw [List.length_cons, memrchr.turn_of_first _ rfl, if_pos h]
  . next h =>
    rw [Loop.run_next, List.length_cons, Loop.run_error]
    . exact memrchr.turn_of_negative (p := -1) rest.length (by decide)
    . rw [List.length_cons, memrchr.turn_of_first _ rfl, if_neg h]
      rfl

theorem memrchr_findsLast_iff (buf : List UInt8) (c : Int32) :
    FindsLast (charOfInt c) buf (memrchr buf c buf.length)
      ↔
    buf.length ≤ 1 ∨ IsLastOccurrence (charOfInt c) buf 0 := by
  rcases buf with _ | ⟨b, _ | ⟨b', rest⟩⟩
  . simp [memrchr, Loop.run, memrchr.turn, FindsLast]
  . rw [List.length_singleton, memrchr_singleton, eq_true (Nat.le_refl 1), true_or, iff_true]
    split
    . next h => exact ⟨0, rfl, isLastOccurrence_zero_cons.mpr ⟨h, by simp⟩⟩
    . next h => simpa [FindsLast] using Ne.symm h
  . rw [memrchr_cons_cons]
    have hlen : ¬(b :: b' :: rest).length ≤ 1 := by simp
    rw [eq_false hlen, false_or]
    split
    . constructor
      . rintro ⟨i, hi, hlast⟩
        have hzero : i = 0 := by omega
        rw [← hzero]
        exact hlast
      . intro hlast
        exact ⟨0, rfl, hlast⟩
    . next h =>
      rw [isLastOccurrence_zero_cons]
      simp [FindsLast, h]

theorem memrchr_not_findsLast :
    ¬FindsLast (charOfInt 0x2F) [0x61, 0x2F] (memrchr [0x61, 0x2F] 0x2F 2) := by
  have hscan := memrchr_cons_cons 0x61 0x2F [] 0x2F
  rw [if_neg (by decide)] at hscan
  rw [show memrchr [0x61, 0x2F] 0x2F 2 = _ from hscan]
  exact id

end Ddwaf
