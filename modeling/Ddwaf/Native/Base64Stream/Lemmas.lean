import Ddwaf.Lib.Base64Stream
import Ddwaf.Native.Base64Stream.Impl

namespace Ddwaf

theorem base64Encode_eq (src : List UInt8) : base64Encode src = Base64.encode base64Enc src := by
  induction src using Ddwaf.base64Encode.induct with
  | case1 a b c src ih =>
    rw [Ddwaf.base64Encode, Base64.encode, ih]
    rfl
  | case2 a b => rfl
  | case3 a => rfl
  | case4 => rfl

theorem base64Enc_mod (n : Nat) : base64Enc (n % 64) = base64Enc n := by
  rw [base64Enc, base64Enc, Nat.mod_mod]

theorem base64Enc_eq {m n : Nat} (h : m % 64 = n % 64) : base64Enc m = base64Enc n := by
  rw [← base64Enc_mod m, h, base64Enc_mod]

namespace Base64Stream

section Tables

theorem load_tableEnc6bit {n : Nat} (h : n < 64) : load tableEnc6bit n = .ok (base64Enc n) := by
  have hall : ∀ k < 64, tableEnc6bit[k]? = some (base64Enc k) := by decide +kernel
  rw [load, hall n h]

theorem bytes16_little (a b : UInt8) :
    Endian.little.bytes16 (b.toNat * 256 + a.toNat) = [a, b] := by
  have ha : UInt8.ofNat (b.toNat * 256 + a.toNat) = a := by
    apply Base64.byte_eq
    have := a.toNat_lt
    omega
  have hb : UInt8.ofNat ((b.toNat * 256 + a.toNat) / 256) = b := by
    apply Base64.byte_eq
    have := a.toNat_lt
    have := b.toNat_lt
    omega
  rw [Endian.bytes16, ha, hb]

theorem bytes16_big (a b : UInt8) : Endian.big.bytes16 (a.toNat * 256 + b.toNat) = [a, b] := by
  have hlittle := bytes16_little b a
  simp only [Endian.bytes16, List.cons.injEq] at hlittle ⊢
  exact ⟨hlittle.2.1, hlittle.1, trivial⟩

theorem load_tableEnc12bit (endian : Endian) {i : Nat} (h : i < 4096) :
    ∃ n, load (tableEnc12bit endian) i = .ok n ∧
      endian.bytes16 n = [base64Enc (i / 64), base64Enc i] := by
  have hget : (List.range 4096)[i]? = some i := by simp [h]
  cases endian with
  | little =>
    refine ⟨_, ?_, bytes16_little _ _⟩
    rw [load, tableEnc12bit, List.getElem?_map, hget]
    rfl
  | big =>
    refine ⟨_, ?_, bytes16_big _ _⟩
    rw [load, tableEnc12bit, List.getElem?_map, hget]
    rfl

end Tables

section Words

def bigEndian (bytes : List UInt8) (n : Nat) : Nat := bytes.foldl (fun n b => n * 256 + b.toNat) n

theorem bswap_little (bytes : List UInt8) (m : Nat) :
    bswap bytes.length (Endian.little.uint64 bytes) m = bigEndian bytes m := by
  induction bytes generalizing m with
  | nil => rfl
  | cons b bytes ih =>
    have hb := b.toNat_lt
    have hdiv : Endian.little.uint64 (b :: bytes) / 256 = Endian.little.uint64 bytes := by
      simp only [Endian.uint64, List.foldr_cons]
      omega
    have hmod : Endian.little.uint64 (b :: bytes) % 256 = b.toNat := by
      simp only [Endian.uint64, List.foldr_cons]
      omega
    rw [List.length_cons, bswap, hdiv, hmod]
    exact ih _

theorem htobe64_uint64 (endian : Endian) {bytes : List UInt8} (h : bytes.length = 8) :
    htobe64 endian (endian.uint64 bytes) = bigEndian bytes 0 := by
  cases endian with
  | little =>
    rw [htobe64, bswap64, ← h]
    exact bswap_little bytes 0
  | big => rfl

theorem bigEndian_div (as bs : List UInt8) (n : Nat) :
    bigEndian (as ++ bs) n / 256 ^ bs.length = bigEndian as n := by
  induction bs using List.reverseRecOn with
  | nil => simp
  | append_singleton bs b ih =>
    have hb := b.toNat_lt
    have hlast : bigEndian (as ++ (bs ++ [b])) n / 256 = bigEndian (as ++ bs) n := by
      simp only [bigEndian, ← List.append_assoc, List.foldl_append, List.foldl_cons, List.foldl_nil]
      omega
    rw [List.length_append, List.length_singleton, Nat.pow_succ', ← Nat.div_div_eq_div_mul, hlast]
    exact ih

theorem index_eq (as bs : List UInt8) (k : Nat) :
    (bigEndian (as ++ bs) 0 >>> (8 * bs.length + k) &&& 0xFFF) =
      bigEndian as 0 / 2 ^ k % 4096 := by
  have hmod (n : Nat) : n &&& 0xFFF = n % 4096 := Nat.and_two_pow_sub_one_eq_mod n 12
  rw [hmod, Nat.shiftRight_add, Nat.shiftRight_eq_div_pow, Nat.shiftRight_eq_div_pow, Nat.pow_mul]
  rw [show 2 ^ 8 = 256 from rfl, bigEndian_div]

section Indices

variable (a b c d e f g h : UInt8)

theorem index0_eq :
    (bigEndian [a, b, c, d, e, f, g, h] 0 >>> 52 &&& 0xFFF) = a.toNat * 16 + b.toNat / 16 := by
  have hindex := index_eq [a, b] [c, d, e, f, g, h] 4
  have ha := a.toNat_lt
  have hb := b.toNat_lt
  have hvalue : bigEndian [a, b] 0 / 2 ^ 4 % 4096 = a.toNat * 16 + b.toNat / 16 := by
    simp only [bigEndian, List.foldl_cons, List.foldl_nil]
    omega
  exact hindex.trans hvalue

theorem index1_eq :
    (bigEndian [a, b, c, d, e, f, g, h] 0 >>> 40 &&& 0xFFF) = b.toNat % 16 * 256 + c.toNat := by
  have hindex := index_eq [a, b, c] [d, e, f, g, h] 0
  have hb := b.toNat_lt
  have hc := c.toNat_lt
  have hvalue : bigEndian [a, b, c] 0 / 2 ^ 0 % 4096 = b.toNat % 16 * 256 + c.toNat := by
    simp only [bigEndian, List.foldl_cons, List.foldl_nil]
    omega
  exact hindex.trans hvalue

theorem index2_eq :
    (bigEndian [a, b, c, d, e, f, g, h] 0 >>> 28 &&& 0xFFF) = d.toNat * 16 + e.toNat / 16 := by
  have hindex := index_eq [a, b, c, d, e] [f, g, h] 4
  have hd := d.toNat_lt
  have he := e.toNat_lt
  have hvalue : bigEndian [a, b, c, d, e] 0 / 2 ^ 4 % 4096 = d.toNat * 16 + e.toNat / 16 := by
    simp only [bigEndian, List.foldl_cons, List.foldl_nil]
    omega
  exact hindex.trans hvalue

theorem index3_eq :
    (bigEndian [a, b, c, d, e, f, g, h] 0 >>> 16 &&& 0xFFF) = e.toNat % 16 * 256 + f.toNat := by
  have hindex := index_eq [a, b, c, d, e, f] [g, h] 0
  have he := e.toNat_lt
  have hf := f.toNat_lt
  have hvalue : bigEndian [a, b, c, d, e, f] 0 / 2 ^ 0 % 4096 = e.toNat % 16 * 256 + f.toNat := by
    simp only [bigEndian, List.foldl_cons, List.foldl_nil]
    omega
  exact hindex.trans hvalue

end Indices

end Words

section Fast

variable (endian : Endian) {src : List UInt8} {cap : Nat}

def encoder : Transducer Base64.Pending UInt8 UInt8 := Base64.encoder base64Enc

def written (src : List UInt8) (s n : Nat) : List UInt8 := (encoder.run .none ((src.drop s).take n)).2

theorem eq_of_length_eight : ∀ bytes : List UInt8, bytes.length = 8 →
    ∃ a b c d e f g h, bytes = [a, b, c, d, e, f, g, h]
  | [a, b, c, d, e, f, g, h], _ => ⟨a, b, c, d, e, f, g, h, rfl⟩

theorem encLoopGeneric64Inner_eq {s : Nat} {o : List UInt8} (hs : s + 8 ≤ src.length)
    (ho : o.length + 8 ≤ cap) :
    encLoopGeneric64Inner endian src cap s o = .ok (s + 6, o ++ written src s 6) := by
  have hlength : ((src.drop s).take 8).length = 8 := by
    simp
    omega
  have htake : (src.drop s).take 6 = ((src.drop s).take 8).take 6 := by
    rw [List.take_take]
    rfl
  rw [encLoopGeneric64Inner, loadRange_of_le hs, written, htake]
  generalize (src.drop s).take 8 = bytes at hlength
  obtain ⟨a, b, c, d, e, f, g, h, rfl⟩ := eq_of_length_eight bytes hlength
  have ha := a.toNat_lt
  have hb := b.toNat_lt
  have hd := d.toNat_lt
  have he := e.toNat_lt
  have hf := f.toNat_lt
  have hc := c.toNat_lt
  have ⟨n₀, hload₀, hpair₀⟩ := load_tableEnc12bit endian (i := a.toNat * 16 + b.toNat / 16) (by omega)
  have ⟨n₁, hload₁, hpair₁⟩ := load_tableEnc12bit endian (i := b.toNat % 16 * 256 + c.toNat) (by omega)
  have ⟨n₂, hload₂, hpair₂⟩ := load_tableEnc12bit endian (i := d.toNat * 16 + e.toNat / 16) (by omega)
  have ⟨n₃, hload₃, hpair₃⟩ := load_tableEnc12bit endian (i := e.toNat % 16 * 256 + f.toNat) (by omega)
  simp only [ok_bind, htobe64_uint64 endian hlength, index0_eq, index1_eq, index2_eq, index3_eq,
    hload₀, hload₁, hload₂, hload₃, hpair₀, hpair₁, hpair₂, hpair₃]
  rw [store_of_le (by simp; omega), ok_bind, store_of_le (by simp; omega), ok_bind,
    store_of_le (by simp; omega), ok_bind, store_of_le (by simp; omega), ok_bind]
  have h₀ : base64Enc ((a.toNat * 16 + b.toNat / 16) / 64) = base64Enc (a.toNat / 4) :=
    base64Enc_eq (by omega)
  have h₁ : base64Enc ((b.toNat % 16 * 256 + c.toNat) / 64) =
      base64Enc (b.toNat * 4 + c.toNat / 64) := base64Enc_eq (by omega)
  have h₁' : base64Enc (b.toNat % 16 * 256 + c.toNat) = base64Enc c.toNat := base64Enc_eq (by omega)
  have h₂ : base64Enc ((d.toNat * 16 + e.toNat / 16) / 64) = base64Enc (d.toNat / 4) :=
    base64Enc_eq (by omega)
  have h₃ : base64Enc ((e.toNat % 16 * 256 + f.toNat) / 64) =
      base64Enc (e.toNat * 4 + f.toNat / 64) := base64Enc_eq (by omega)
  have h₃' : base64Enc (e.toNat % 16 * 256 + f.toNat) = base64Enc f.toNat := base64Enc_eq (by omega)
  rw [h₀, h₁, h₁', h₂, h₃, h₃']
  simp [encoder, Base64.encoder, Transducer.run]

theorem run_taken {s k : Nat} (hs : s + 6 * k ≤ src.length) :
    (encoder.run .none ((src.drop s).take (6 * k))).1 = .none ∧
      (written src s (6 * k)).length = 8 * k := by
  have hlength : ((src.drop s).take (6 * k)).length = 3 * (2 * k) := by
    simp
    omega
  have ⟨hnone, hwritten⟩ := Base64.encoder_run_aligned base64Enc hlength
  refine ⟨hnone, ?_⟩
  rw [written, encoder, hwritten]
  omega

theorem written_add {s k n : Nat} (hs : s + 6 * k ≤ src.length) :
    written src s (6 * k + n) = written src s (6 * k) ++ written src (s + 6 * k) n := by
  rw [written, List.take_add, Transducer.run_append, (run_taken hs).1, List.drop_drop]
  rfl

theorem written_zero (s : Nat) : written src s 0 = [] := by
  rfl

open encLoopGeneric64

theorem unrolled_eq {calls s : Nat} {o : List UInt8} (hs : s + 6 * calls + 2 ≤ src.length)
    (ho : o.length + 8 * calls ≤ cap) :
    unrolled endian src cap calls s o = .ok (s + 6 * calls, o ++ written src s (6 * calls)) := by
  induction calls generalizing s o with
  | zero => simp [unrolled, written_zero]
  | succ calls ih =>
    have hone : s + 6 * 1 ≤ src.length := by omega
    have hlength := (run_taken hone).2
    have hinner : encLoopGeneric64Inner endian src cap s o = .ok (s + 6, o ++ written src s (6 * 1)) :=
      encLoopGeneric64Inner_eq endian (by omega) (by omega)
    have hrest := ih (s := s + 6) (o := o ++ written src s (6 * 1)) (by omega)
      (by rw [List.length_append, hlength]; omega)
    rw [unrolled, hinner, ok_bind]
    dsimp only
    rw [hrest, show 6 * (calls + 1) = 6 * 1 + 6 * calls by omega, written_add hone]
    simp [Nat.add_assoc]

structure Rounds (src : List UInt8) (cap send : Nat) (oend : List UInt8)
    (st : encLoopGeneric64.State) : Prop where
  pos : 0 < st.rounds
  s_eq : st.s + 6 * st.rounds = send
  fits : st.o.length + 8 * st.rounds ≤ cap
  o_eq : st.o ++ written src st.s (6 * st.rounds) = oend

def Encoded (send : Nat) (oend : List UInt8) (r : Except Stop (Nat × List UInt8)) : Prop :=
  r = .ok (send, oend)

theorem Rounds.turn {send : Nat} {oend : List UInt8} {st : encLoopGeneric64.State}
    (h : Rounds src cap send oend st) (hsend : send + 2 ≤ src.length) {calls : Nat}
    (hcalls : 0 < calls) (hle : calls ≤ st.rounds)
    (hbody : body endian src cap st = unrolledContinue endian src cap calls st) :
    Loop.Turn (body endian src cap) (Rounds src cap send oend) (fun st => st.rounds)
      (Encoded send oend) st := by
  have hs := h.s_eq
  have ho := h.fits
  have htaken : st.s + 6 * calls ≤ src.length := by omega
  have hlength := (run_taken htaken).2
  have hunrolled : unrolled endian src cap calls st.s st.o =
      .ok (st.s + 6 * calls, st.o ++ written src st.s (6 * calls)) :=
    unrolled_eq endian (by omega) (by omega)
  rw [unrolledContinue, hunrolled, ok_bind] at hbody
  have hwritten := written_add (n := 6 * (st.rounds - calls)) htaken
  rw [show 6 * calls + 6 * (st.rounds - calls) = 6 * st.rounds by omega] at hwritten
  have ho_eq := h.o_eq
  rw [hwritten, ← List.append_assoc] at ho_eq
  dsimp only at hbody
  split at hbody
  . next hpos =>
    refine .next _ hbody ⟨hpos, ?_, ?_, ho_eq⟩ ?_
    . dsimp only
      omega
    . dsimp only
      rw [List.length_append, hlength]
      omega
    . dsimp only
      omega
  . next hpos =>
    have hall : st.rounds = calls := by omega
    rw [hall, Nat.sub_self, Nat.mul_zero, written_zero, List.append_nil] at ho_eq
    rw [hall] at hs
    refine .done _ hbody ?_
    rw [Encoded, hs, ho_eq]

theorem body_one {st : encLoopGeneric64.State} (h : st.rounds = 1) :
    body endian src cap st = unrolledContinue endian src cap 1 st := by
  rw [body, if_neg (by omega), if_neg (by omega), if_neg (by omega), unrolledContinue, h]
  simp only [unrolled]
  cases encLoopGeneric64Inner endian src cap st.s st.o with
  | error e => rfl
  | ok r => rfl

theorem rounds_eq {rounds s : Nat} {o : List UInt8} (hrounds : 0 < rounds)
    (hs : s + 6 * rounds + 2 ≤ src.length) (ho : o.length + 8 * rounds ≤ cap) :
    Loop.run (body endian src cap) .diverges (rounds + 1) ⟨s, o, rounds⟩ =
      .ok (s + 6 * rounds, o ++ written src s (6 * rounds)) := by
  have hturn (st : encLoopGeneric64.State)
      (h : Rounds src cap (s + 6 * rounds) (o ++ written src s (6 * rounds)) st) :
      Loop.Turn (body endian src cap)
        (Rounds src cap (s + 6 * rounds) (o ++ written src s (6 * rounds)))
        (fun st => st.rounds) (Encoded (s + 6 * rounds) (o ++ written src s (6 * rounds))) st := by
    by_cases h8 : st.rounds ≥ 8
    . exact h.turn endian hs (by decide) h8 (by rw [body, if_pos h8])
    . by_cases h4 : st.rounds ≥ 4
      . exact h.turn endian hs (by decide) h4 (by rw [body, if_neg h8, if_pos h4])
      . by_cases h2 : st.rounds ≥ 2
        . exact h.turn endian hs (by decide) h2 (by rw [body, if_neg h8, if_neg h4, if_pos h2])
        . have hone : st.rounds = 1 := by
            have := h.pos
            omega
          exact h.turn endian hs (by decide) h.pos (body_one endian hone)
  exact Loop.run_of_turn hturn _ _ ⟨hrounds, rfl, ho, rfl⟩ (Nat.lt_succ_self rounds)

theorem encLoopGeneric64_eq {l : Locals} (hs : l.s + l.slen = src.length)
    (ho : ∀ k, l.s + 6 * k ≤ src.length → l.o.length + 8 * k ≤ cap) :
    ∃ k, 6 * k ≤ l.slen ∧ encLoopGeneric64 endian src cap l =
      .ok ⟨l.s + 6 * k, l.slen - 6 * k, l.o ++ written src l.s (6 * k), l.olen + 8 * k, l.st⟩ := by
  unfold encLoopGeneric64
  split
  . exact ⟨0, Nat.zero_le _, by simp [written_zero]⟩
  . have hrounds : 6 * ((l.slen - 2) / 6) + 2 ≤ l.slen := by omega
    refine ⟨(l.slen - 2) / 6, by omega, ?_⟩
    have hpos : 0 < (l.slen - 2) / 6 := by omega
    have hread : l.s + 6 * ((l.slen - 2) / 6) + 2 ≤ src.length := by omega
    have hrun := rounds_eq endian hpos hread (ho _ (by omega))
    simp [hrun, Nat.mul_comm]

end Fast

end Base64Stream

end Ddwaf
