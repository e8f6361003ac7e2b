import Mathlib.Algebra.Group.Int.Defs
import Mathlib.Algebra.Group.Nat.Defs
import Mathlib.Data.Set.Function
import Mathlib.Tactic.Common

/-!
This module contains a byte memory with its reads and writes, and numbers in little endian order.
-/

abbrev Memory := Nat → UInt8

namespace Memory

def read (m : Memory) (a : Nat) : Nat → List UInt8
  | 0 => []
  | n + 1 => m a :: read m (a + 1) n

def write (m : Memory) (a : Nat) (bs : List UInt8) : Memory :=
  fun x => if a ≤ x then bs[x - a]?.getD (m x) else m x

def fill (m : Memory) (a n : Nat) (b : UInt8) : Memory :=
  fun x => if a ≤ x ∧ x < a + n then b else m x

@[simp]
theorem length_read (m : Memory) (a n : Nat) : (read m a n).length = n := by
  induction n generalizing a with
  | zero => rfl
  | succ n ih => simp [read, ih]

theorem read_append (m : Memory) (a i j : Nat) :
    read m a (i + j) = read m a i ++ read m (a + i) j := by
  induction i generalizing a with
  | zero => simp [read]
  | succ i ih =>
    rw [show i + 1 + j = (i + j) + 1 by omega, read, ih, read, List.cons_append,
      show a + 1 + i = a + (i + 1) by omega]

theorem read_congr {m m' : Memory} {a n : Nat} (h : ∀ x, a ≤ x → x < a + n → m' x = m x) :
    read m' a n = read m a n := by
  induction n generalizing a with
  | zero => rfl
  | succ n ih =>
    rw [read, read, h a (by omega) (by omega), ih]
    intro x hle hlt
    exact h x (by omega) (by omega)

theorem write_of_lt {m : Memory} {a x : Nat} (bs : List UInt8) (h : x < a) :
    write m a bs x = m x := by
  rw [write, if_neg (by omega)]

theorem write_of_ge {m : Memory} {a x : Nat} {bs : List UInt8} (h : a + bs.length ≤ x) :
    write m a bs x = m x := by
  rw [write, if_pos (by omega), List.getElem?_eq_none (by omega)]
  rfl

theorem write_cons (m : Memory) (a : Nat) (b : UInt8) (bs : List UInt8) :
    write m a (b :: bs) = write (write m a [b]) (a + 1) bs := by
  funext x
  by_cases hlt : x < a
  . rw [write_of_lt _ hlt, write_of_lt _ (by omega), write_of_lt _ hlt]
  . by_cases heq : x = a
    . rw [heq, write_of_lt bs (Nat.lt_succ_self a)]
      simp [write]
    . have hsub : x - a = (x - (a + 1)) + 1 := by omega
      have hge : write m a [b] x = m x := write_of_ge (by simp; omega)
      rw [write, if_pos (by omega), hsub, List.getElem?_cons_succ]
      rw [write, if_pos (by omega), hge]

@[simp]
theorem write_nil (m : Memory) (a : Nat) : write m a [] = m := by
  funext x
  simp [write]

theorem write_append (m : Memory) (a : Nat) (bs cs : List UInt8) :
    write m a (bs ++ cs) = write (write m a bs) (a + bs.length) cs := by
  induction bs generalizing m a with
  | nil => simp
  | cons b bs ih =>
    rw [List.cons_append, write_cons, ih, ← write_cons, List.length_cons,
      show a + 1 + bs.length = a + (bs.length + 1) by omega]

theorem read_write (m : Memory) (a : Nat) (bs : List UInt8) :
    read (write m a bs) a bs.length = bs := by
  induction bs generalizing m a with
  | nil => rfl
  | cons b bs ih =>
    rw [List.length_cons, read, write_cons, ih]
    congr 1
    rw [write_of_lt bs (Nat.lt_succ_self a)]
    simp [write]

theorem read_eq_append {m : Memory} {a : Nat} {bs cs : List UInt8}
    (h : read m a (bs ++ cs).length = bs ++ cs) :
    read m a bs.length = bs ∧ read m (a + bs.length) cs.length = cs := by
  rw [List.length_append, read_append] at h
  exact List.append_inj h (length_read m a bs.length)

theorem fill_of_not_mem {m : Memory} {a n x : Nat} (b : UInt8) (h : ¬(a ≤ x ∧ x < a + n)) :
    fill m a n b x = m x := by
  rw [fill, if_neg h]

section LittleEndian

def leBytes : Nat → Nat → List UInt8
  | 0, _ => []
  | n + 1, v => UInt8.ofNat v :: leBytes n (v / 256)

def leValue : List UInt8 → Nat
  | [] => 0
  | b :: bs => b.toNat + 256 * leValue bs

@[simp]
theorem length_leBytes (n v : Nat) : (leBytes n v).length = n := by
  induction n generalizing v with
  | zero => rfl
  | succ n ih => simp [leBytes, ih]

theorem leValue_leBytes (n v : Nat) : leValue (leBytes n v) = v % 256 ^ n := by
  induction n generalizing v with
  | zero => simp [leBytes, leValue, Nat.mod_one]
  | succ n ih =>
    have hpow : 256 ^ (n + 1) = 256 * 256 ^ n := by
      rw [Nat.pow_succ, Nat.mul_comm]
    rw [leBytes, leValue, ih, UInt8.toNat_ofNat', hpow, Nat.mod_mul]

def readLe (m : Memory) (a n : Nat) : Nat := leValue (read m a n)

theorem readLe_congr {m m' : Memory} {a n : Nat} (h : ∀ x, a ≤ x → x < a + n → m' x = m x) :
    readLe m' a n = readLe m a n := by
  rw [readLe, readLe, read_congr h]

theorem readLe_of_read {m : Memory} {a n v : Nat} (hv : v < 256 ^ n)
    (h : read m a n = leBytes n v) : readLe m a n = v := by
  rw [readLe, h, leValue_leBytes, Nat.mod_eq_of_lt hv]

end LittleEndian

end Memory
