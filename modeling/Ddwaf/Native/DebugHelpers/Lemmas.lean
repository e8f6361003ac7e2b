import Ddwaf.Lib.Emits
import Ddwaf.Native.DebugHelpers.Impl
import Ddwaf.Native.Output.ConvertJson.Lemmas

/-!
This module contains what is known about the growing buffer of `debug_helpers.c`: it never writes
outside of its memory, and what is appended to it is there whole or not at all.
-/

namespace Ddwaf

namespace DebugHelpers

structure HString.Inv (str : HString) : Prop where
  length_le : str.buffer.length ≤ str.capacity
  capacity_lt : str.capacity < 2 ^ 63

theorem HString.inv_initial : HString.Inv ⟨[], initialCapacity, 0⟩ :=
  ⟨Nat.zero_le _, by decide⟩

section HString

variable (realloc : Realloc)

def Roomy (n : Nat) : Prop := ∀ i size, size < 2 * n → realloc.succeeds i size = true

theorem Roomy.mono {realloc : Realloc} {n n' : Nat} (h : Roomy realloc n) (hle : n' ≤ n) :
    Roomy realloc n' :=
  fun i size hsize => h i size (by omega)

abbrev Appends (x : HString → Native HString) (ps : List (List UInt8)) : Prop :=
  Emits HString.buffer HString.Inv (Roomy realloc) x ps

variable {realloc}

theorem newCapacity_eq {capacity dataSize : Nat} (hcapacity : capacity < 2 ^ 63)
    (hdata : dataSize ≤ 2 ^ 63) :
    max (capacity * 2 % 2 ^ 64) ((capacity + dataSize) % 2 ^ 64) =
      max (capacity * 2) (capacity + dataSize) := by
  rw [Nat.mod_eq_of_lt (by omega), Nat.mod_eq_of_lt (by omega)]

inductive Ensured (realloc : Realloc) (str : HString) (dataSize : Nat) : Bool × HString → Prop where
  | room (hinv : str'.Inv) (hbuffer : str'.buffer = str.buffer)
      (hle : str.buffer.length + dataSize ≤ str'.capacity) : Ensured realloc str dataSize (true, str')
  | full (hinv : str'.Inv) (hbuffer : str'.buffer = str.buffer)
      (hfull : ∀ n, Roomy realloc n → n < str.buffer.length + dataSize) :
      Ensured realloc str dataSize (false, str')

theorem hstringEnsureExtraCapacity_ensured {str : HString} (h : str.Inv) {dataSize : Nat}
    (hdata : dataSize ≤ 2 ^ 63) :
    Ensured realloc str dataSize (hstringEnsureExtraCapacity realloc str dataSize) := by
  have hlength := h.length_le
  have hcapacity := h.capacity_lt
  have hleft : subSize str.capacity str.buffer.length = str.capacity - str.buffer.length := by
    apply subSize_of_le
    . exact hlength
    . omega
  unfold hstringEnsureExtraCapacity
  simp only [hleft, newCapacity_eq hcapacity hdata]
  split
  . next hlt =>
    rw [if_neg (by omega)]
    split
    . next hsucceeds =>
      apply Ensured.room
      . constructor
        . show str.buffer.length ≤ max (str.capacity * 2) (str.capacity + dataSize)
          omega
        . exact realloc.lt hsucceeds
      . rfl
      . show str.buffer.length + dataSize ≤ max (str.capacity * 2) (str.capacity + dataSize)
        omega
    . next hfails =>
      apply Ensured.full
      . exact ⟨hlength, hcapacity⟩
      . rfl
      . intro n hn
        rw [← Nat.not_le]
        intro hle
        exact hfails (hn _ _ (by omega))
  . exact Ensured.room h rfl (by omega)

theorem appends_of_ensured {x : HString → Native HString} {data : List UInt8}
    (hdata : data.length ≤ 2 ^ 63)
    (hroom : ∀ str str', hstringEnsureExtraCapacity realloc str data.length = (true, str') →
      str'.buffer.length + data.length ≤ str'.capacity →
        x str = .ok { str' with buffer := str'.buffer ++ data })
    (hfull : ∀ str str', hstringEnsureExtraCapacity realloc str data.length = (false, str') →
      x str = .ok str') :
    Appends realloc x [data] := by
  apply Emits.single
  intro str h
  have hensured : Ensured realloc str data.length _ := hstringEnsureExtraCapacity_ensured h hdata
  generalize heq : hstringEnsureExtraCapacity realloc str data.length = ensured at hensured
  cases hensured with
  | @room str' hinv hbuffer hle =>
    rw [← hbuffer] at hle ⊢
    refine ⟨_, hroom str str' heq hle, ⟨?_, hinv.capacity_lt⟩, Or.inl rfl⟩
    rw [List.length_append]
    exact hle
  | @full str' hinv hbuffer hfullness =>
    refine ⟨_, hfull str str' heq, hinv, Or.inr ⟨hbuffer, ?_⟩⟩
    intro n hn
    rw [List.length_append]
    exact hfullness n hn

theorem appends_hstringAppend {data : List UInt8} (hdata : data.length ≤ 2 ^ 63) :
    Appends realloc (hstringAppend realloc data.length (.ok data)) [data] := by
  by_cases hzero : data.length = 0
  . apply Emits.single
    intro str h
    refine ⟨str, ?_, h, Or.inl ?_⟩
    . rw [hstringAppend, if_pos hzero]
    . rw [List.length_eq_zero_iff.mp hzero, List.append_nil]
  . apply appends_of_ensured hdata
    . intro str str' heq hle
      rw [hstringAppend, if_neg hzero, heq]
      simp only [ok_bind, store_of_le hle, pure_eq_ok]
    . intro str str' heq
      rw [hstringAppend, if_neg hzero, heq]

theorem appends_hstringAppendConst (constant : String) (h : (cstr constant).length ≤ 2 ^ 63) :
    Appends realloc (hstringAppendConst realloc constant) [cstr constant] :=
  appends_hstringAppend h

theorem repeatChar_eq {capacity : Nat} {c : UInt8} {n : Nat} {buffer : List UInt8}
    (h : buffer.length + n ≤ capacity) :
    repeatChar capacity c n buffer = .ok (buffer ++ List.replicate n c) := by
  induction n generalizing buffer with
  | zero => rw [repeatChar, List.replicate_zero, List.append_nil]
  | succ n ih =>
    have hstore : store capacity buffer [c] = .ok (buffer ++ [c]) := by
      apply store_of_le
      rw [List.length_singleton]
      omega
    rw [repeatChar, hstore, ok_bind, ih, List.append_assoc]
    . rfl
    . rw [List.length_append, List.length_singleton]
      omega

theorem appends_hstringRepeat {c : UInt8} {repeatTimes : Nat} (h : repeatTimes ≤ 2 ^ 63) :
    Appends realloc (hstringRepeat realloc c repeatTimes) [List.replicate repeatTimes c] := by
  by_cases hzero : repeatTimes = 0
  . apply Emits.single
    intro str h
    refine ⟨str, ?_, h, Or.inl ?_⟩
    . rw [hstringRepeat, if_pos hzero]
    . rw [hzero, List.replicate_zero, List.append_nil]
  . apply appends_of_ensured
    . rw [List.length_replicate]
      exact h
    . intro str str' heq hle
      rw [List.length_replicate] at heq hle
      rw [hstringRepeat, if_neg hzero, heq]
      simp only [repeatChar_eq hle, ok_bind, pure_eq_ok]
    . intro str str' heq
      rw [List.length_replicate] at heq
      rw [hstringRepeat, if_neg hzero, heq]

/-- A text that `snprintf` cannot put into a buffer of `size` bytes is left out. -/
def printed (size : Nat) (text : List UInt8) : List (List UInt8) :=
  if text.length < size then [text] else []

theorem appends_appendPrinted {size : Nat} (hsize : size ≤ 2 ^ 63) (text : List UInt8) :
    Appends realloc (appendPrinted realloc size text) (printed size text) := by
  by_cases hlt : text.length < size
  . rw [printed, if_pos hlt]
    apply (appends_hstringAppend (Nat.le_of_lt (Nat.lt_of_lt_of_le hlt hsize))).congr
    intro str
    rw [appendPrinted, if_pos hlt]
  . rw [printed, if_neg hlt]
    apply Emits.nil.congr
    intro str
    rw [appendPrinted, if_neg hlt]

theorem printed_formatI64 (intValue : Int64) :
    printed 21 (formatI64 intValue) = [formatI64 intValue] :=
  if_pos (Nat.lt_succ_of_le (length_formatI64_le intValue))

theorem printed_formatU64 (uintValue : UInt64) :
    printed 21 (formatU64 uintValue) = [formatU64 uintValue] :=
  if_pos (Nat.lt_succ_of_le (length_formatU64_le uintValue))

end HString

end DebugHelpers

end Ddwaf
