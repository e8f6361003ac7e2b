import Mathlib.Tactic.Common

/-!
This module contains compressors that are fed piece by piece and that write to a buffer which may be
too small, and the rule for a caller that asks again until room is left.
-/

inductive Compressor.Flush where
  | noFlush
  | finish
  deriving Repr, DecidableEq

structure Compressor.Step (σ : Type u) (α : Type v) (β : Type w) where
  state : σ
  consumed : Nat
  output : List β
  ok : Bool

structure Compressor (σ : Type u) (α : Type v) (β : Type w) where
  init : σ
  deflate : σ → List α → Nat → Compressor.Flush → Compressor.Step σ α β
  endOk : σ → Bool

namespace Compressor

variable {σ : Type u} {α : Type v} {β : Type w}

/--
The calls that a caller may make: `fed` is what has been consumed and `out` what has been written so
far, and `rest` is what the next call gets. There is new input only when the last one is used up, and
none after the end has been asked for.
-/
inductive Reached (c : Compressor σ α β) : Flush → σ → List α → List α → List β → Prop where
  | start : Reached c .noFlush c.init [] [] []
  | feed {s : σ} {fed : List α} {out : List β} (h : Reached c .noFlush s fed [] out)
      (rest : List α) : Reached c .noFlush s fed rest out
  | finish {s : σ} {fed rest : List α} {out : List β} (h : Reached c .noFlush s fed rest out) :
      Reached c .finish s fed rest out
  | call {flush : Flush} {s : σ} {fed rest : List α} {out : List β}
      (h : Reached c flush s fed rest out) {n : Nat} (hn : 0 < n) :
      Reached c flush (c.deflate s rest n flush).state
        (fed ++ rest.take (c.deflate s rest n flush).consumed)
        (rest.drop (c.deflate s rest n flush).consumed)
        (out ++ (c.deflate s rest n flush).output)

/--
A call consumes input until there is none or no room is left. When there is room left after the end
has been asked for, the output is complete. How much there is of it is bounded by the input.
-/
structure Lawful (c : Compressor σ α β) (decode : List β → Option (List α)) (bound : Nat → Nat) :
    Prop where
  consumed_le {flush : Flush} {s : σ} {fed rest : List α} {out : List β}
    (h : Reached c flush s fed rest out) {n : Nat} (hn : 0 < n) :
    (c.deflate s rest n flush).consumed ≤ rest.length
  output_le {flush : Flush} {s : σ} {fed rest : List α} {out : List β}
    (h : Reached c flush s fed rest out) {n : Nat} (hn : 0 < n) :
    (c.deflate s rest n flush).output.length ≤ n
  stops {flush : Flush} {s : σ} {fed rest : List α} {out : List β}
    (h : Reached c flush s fed rest out) {n : Nat} (hn : 0 < n) :
    (c.deflate s rest n flush).consumed = rest.length ∨ (c.deflate s rest n flush).output.length = n
  ok {flush : Flush} {s : σ} {fed rest : List α} {out : List β}
    (h : Reached c flush s fed rest out) {n : Nat} (hn : 0 < n) :
    (c.deflate s rest n flush).ok = true
  complete {s : σ} {fed rest : List α} {out : List β} (h : Reached c .finish s fed rest out)
    {n : Nat} (hn : 0 < n) (hroom : (c.deflate s rest n .finish).output.length < n) :
    decode (out ++ (c.deflate s rest n .finish).output) = some (fed ++ rest) ∧
      c.endOk (c.deflate s rest n .finish).state = true
  length_le {flush : Flush} {s : σ} {fed rest : List α} {out : List β}
    (h : Reached c flush s fed rest out) : out.length ≤ bound (fed ++ rest).length

section AtEnd

variable (head : List β) (encode : List α → List β)

/--
The compressor that keeps all of its input until the end and has only written a header until then. It
knows how much it has written.
-/
def atEnd : Compressor (List α × Nat) α β :=
  {
    init := ([], 0)
    deflate := fun s rest n flush =>
      let ready := match flush with
        | .noFlush => head
        | .finish => head ++ encode (s.1 ++ rest)
      let output := (ready.drop s.2).take n
      ⟨(s.1 ++ rest, s.2 + output.length), rest.length, output, true⟩
    endOk := fun s => s.2 = (head ++ encode s.1).length
  }

structure AtEnd (flush : Flush) (s : List α × Nat) (fed rest : List α) (out : List β) : Prop where
  kept : s.1 = fed
  written : out = (head ++ encode (fed ++ rest)).take s.2
  le : s.2 ≤ (head ++ encode (fed ++ rest)).length
  noFlush : flush = .noFlush → s.2 ≤ head.length

variable {head encode}

theorem AtEnd.written_head {s : List α × Nat} {fed rest : List α} {out : List β}
    (h : AtEnd head encode .noFlush s fed rest out) : out = head.take s.2 := by
  rw [h.written, List.take_append_of_le_length (h.noFlush rfl)]

theorem take_add_drop (l : List β) (k n : Nat) :
    l.take k ++ (l.drop k).take n = l.take (k + ((l.drop k).take n).length) := by
  rw [List.take_add, List.length_take, ← List.take_eq_take_min]

theorem add_length_take_drop_le {l : List β} {k : Nat} (h : k ≤ l.length) (n : Nat) :
    k + ((l.drop k).take n).length ≤ l.length := by
  rw [List.length_take, List.length_drop]
  omega

theorem Reached.atEnd {flush : Flush} {s : List α × Nat} {fed rest : List α} {out : List β}
    (h : Reached (Compressor.atEnd head encode) flush s fed rest out) :
    AtEnd head encode flush s fed rest out := by
  induction h with
  | start =>
    exact ⟨rfl, by simp [Compressor.atEnd], by simp [Compressor.atEnd], fun _ => Nat.zero_le _⟩
  | feed h rest ih =>
    have hle := ih.noFlush rfl
    refine ⟨ih.kept, ?_, ?_, ih.noFlush⟩
    . rw [ih.written_head, List.take_append_of_le_length hle]
    . rw [List.length_append]
      exact Nat.le_trans hle (Nat.le_add_right _ _)
  | finish h ih =>
    refine ⟨ih.kept, ih.written, ih.le, ?_⟩
    intro hflush
    cases hflush
  | @call flush s fed rest out h n hn ih =>
    cases flush with
    | noFlush =>
      have hle := add_length_take_drop_le (ih.noFlush rfl) n
      dsimp only [Compressor.atEnd]
      rw [List.take_length, List.drop_length]
      refine ⟨by rw [ih.kept], ?_, ?_, fun _ => hle⟩
      . rw [ih.written_head, take_add_drop, List.take_append_of_le_length hle]
      . rw [List.length_append]
        exact Nat.le_trans hle (Nat.le_add_right _ _)
    | finish =>
      dsimp only [Compressor.atEnd]
      rw [ih.kept, List.take_length, List.drop_length]
      refine ⟨rfl, ?_, ?_, ?_⟩
      . rw [List.append_nil, ih.written, take_add_drop]
      . rw [List.append_nil]
        exact add_length_take_drop_le ih.le n
      . intro hflush
        cases hflush

theorem atEnd_lawful {decode : List β → Option (List α)} {bound : Nat → Nat}
    (hdecode : ∀ as, decode (head ++ encode as) = some as)
    (hbound : ∀ as, (head ++ encode as).length ≤ bound as.length) :
    (atEnd head encode).Lawful decode bound := by
  constructor
  . intro flush s fed rest out h n hn
    exact Nat.le_refl _
  . intro flush s fed rest out h n hn
    exact List.length_take_le n _
  . intro flush s fed rest out h n hn
    exact Or.inl rfl
  . intro flush s fed rest out h n hn
    rfl
  . intro s fed rest out h n hn hroom
    have hat := h.atEnd
    have hle := hat.le
    dsimp only [atEnd] at hroom ⊢
    rw [hat.kept] at hroom ⊢
    rw [List.length_take, List.length_drop] at hroom
    have htake : ((head ++ encode (fed ++ rest)).drop s.2).take n =
        (head ++ encode (fed ++ rest)).drop s.2 := by
      apply List.take_of_length_le
      rw [List.length_drop]
      omega
    rw [htake, hat.written, List.take_append_drop, hdecode]
    refine ⟨rfl, ?_⟩
    rw [decide_eq_true_eq, List.length_drop]
    omega
  . intro flush s fed rest out h
    have hlength := hbound (fed ++ rest)
    rw [h.atEnd.written, List.length_take]
    omega

end AtEnd

end Compressor
