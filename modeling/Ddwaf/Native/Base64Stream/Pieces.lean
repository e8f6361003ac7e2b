import Ddwaf.Native.Base64Stream.Lemmas
import Ddwaf.Native.Output.EncodeGzip.RoundTrip

namespace Ddwaf

namespace Base64Stream

open base64StreamEncodePlain

section Plain

variable (endian : Endian) {src : List UInt8} {cap : Nat}

def carry₁ (a : UInt8) : UInt8 := (a <<< 4) &&& 0x30

def carry₂ (b : UInt8) : UInt8 := (b <<< 2) &&& 0x3C

inductive Carries : Label → State → Base64.Pending → Prop where
  | none (carry : UInt8) : Carries .case0 ⟨0, carry⟩ .none
  | one (a : UInt8) : Carries .case1 ⟨1, carry₁ a⟩ (.one a)
  | two (b : UInt8) : Carries .case2 ⟨2, carry₂ b⟩ (.two b)

theorem toNat_carry₁ (a : UInt8) : (carry₁ a).toNat = a.toNat % 4 * 16 := by
  have hall : ∀ n < 256, (n <<< 4 % 256) &&& 48 = n % 4 * 16 := by decide +kernel
  have h := hall a.toNat a.toNat_lt
  simpa [carry₁] using h

theorem toNat_carry₂ (b : UInt8) : (carry₂ b).toNat = b.toNat % 16 * 4 := by
  have hall : ∀ n < 256, (n <<< 2 % 256) &&& 60 = n % 16 * 4 := by decide +kernel
  have h := hall b.toNat b.toNat_lt
  simpa [carry₂] using h

theorem toNat_index₁ (a b : UInt8) :
    (carry₁ a ||| (b >>> 4)).toNat = a.toNat % 4 * 16 + b.toNat / 16 := by
  have hor : ∀ k < 4, ∀ j < 16, k * 16 ||| j = k * 16 + j := by decide +kernel
  have hb := b.toNat_lt
  have h := hor (a.toNat % 4) (by omega) (b.toNat / 16) (by omega)
  rw [UInt8.toNat_or, toNat_carry₁, ← h]
  simp [Nat.shiftRight_eq_div_pow]

theorem toNat_index₂ (b c : UInt8) :
    (carry₂ b ||| (c >>> 6)).toNat = b.toNat % 16 * 4 + c.toNat / 64 := by
  have hor : ∀ k < 16, ∀ j < 4, k * 4 ||| j = k * 4 + j := by decide +kernel
  have hc := c.toNat_lt
  have h := hor (b.toNat % 16) (by omega) (c.toNat / 64) (by omega)
  rw [UInt8.toNat_or, toNat_carry₂, ← h]
  simp [Nat.shiftRight_eq_div_pow]

theorem load_case0 (a : UInt8) :
    load tableEnc6bit (a >>> 2 : UInt8).toNat = .ok (base64Enc (a.toNat / 4)) := by
  have ha := a.toNat_lt
  have hindex : (a >>> 2 : UInt8).toNat = a.toNat / 4 := by simp [Nat.shiftRight_eq_div_pow]
  rw [hindex]
  exact load_tableEnc6bit (by omega)

theorem load_case1 (a b : UInt8) :
    load tableEnc6bit (carry₁ a ||| (b >>> 4)).toNat =
      .ok (base64Enc (a.toNat * 16 + b.toNat / 16)) := by
  have hb := b.toNat_lt
  rw [toNat_index₁, load_tableEnc6bit (by omega)]
  congr 1
  exact base64Enc_eq (by omega)

theorem load_case2 (b c : UInt8) :
    load tableEnc6bit (carry₂ b ||| (c >>> 6)).toNat =
      .ok (base64Enc (b.toNat * 4 + c.toNat / 64)) := by
  have hc := c.toNat_lt
  rw [toNat_index₂, load_tableEnc6bit (by omega)]
  congr 1
  exact base64Enc_eq (by omega)

theorem load_low (c : UInt8) : load tableEnc6bit (c &&& 0x3F : UInt8).toNat = .ok (base64Enc c.toNat) := by
  have hindex : (c &&& 0x3F : UInt8).toNat = c.toNat % 64 := by
    rw [UInt8.toNat_and]
    exact Nat.and_two_pow_sub_one_eq_mod c.toNat 6
  rw [hindex, load_tableEnc6bit (by omega), base64Enc_mod]

theorem load_carry₁ (a : UInt8) :
    load tableEnc6bit (carry₁ a).toNat = .ok (base64Enc (a.toNat * 16)) := by
  rw [toNat_carry₁, load_tableEnc6bit (by omega)]
  congr 1
  exact base64Enc_eq (by omega)

theorem load_carry₂ (b : UInt8) :
    load tableEnc6bit (carry₂ b).toNat = .ok (base64Enc (b.toNat * 4)) := by
  rw [toNat_carry₂, load_tableEnc6bit (by omega)]
  congr 1
  exact base64Enc_eq (by omega)

variable (src cap) (pending : Base64.Pending) (out : List UInt8)

structure Inv (label : Label) (l : Locals) : Prop where
  s_eq : l.s + l.slen = src.length
  carries : Carries label l.st (encoder.run pending (src.take l.s)).1
  o_eq : l.o = out ++ (encoder.run pending (src.take l.s)).2
  olen_eq : l.olen = (encoder.run pending (src.take l.s)).2.length

def Done (r : Except Stop Locals) : Prop :=
  ∃ l label, r = .ok l ∧ l.o = out ++ (encoder.run pending src).2 ∧
    l.olen = (encoder.run pending src).2.length ∧ Carries label l.st (encoder.run pending src).1

variable {src cap pending out}

theorem take_succ_of_lt {s : Nat} {c : UInt8} (h : src[s]? = some c) :
    src.take (s + 1) = src.take s ++ [c] := by
  rw [List.take_add_one, h]
  rfl

theorem room (hcap : out.length + (encoder.run pending src).2.length ≤ cap) (n : Nat) :
    out.length + (encoder.run pending (src.take n)).2.length ≤ cap := by
  have hle := encoder.length_run_le pending (src.take n) (src.drop n)
  rw [List.take_append_drop] at hle
  omega

namespace Inv

variable {label label' : Label} {l : Locals}

theorem done (h : Inv src pending out label l) (hzero : l.slen = 0) :
    Done src pending out (.ok l) := by
  have hs := h.s_eq
  have hall : src.take l.s = src := List.take_of_length_le (by omega)
  have hcarries := h.carries
  have ho := h.o_eq
  have holen := h.olen_eq
  rw [hall] at hcarries ho holen
  exact ⟨l, label, rfl, ho, holen, hcarries⟩

theorem next (h : Inv src pending out label l) {c : UInt8} (hc : src[l.s]? = some c)
    {p : Base64.Pending} (hp : (encoder.run pending (src.take l.s)).1 = p) {st : State}
    (hst : Carries label' st (encoder.step p c).1) {chars : List UInt8}
    (hchars : (encoder.step p c).2 = chars) {n : Nat} (hn : chars.length = n) :
    Inv src pending out label' ⟨l.s + 1, l.slen - 1, l.o ++ chars, l.olen + n, st⟩ := by
  have hlt : l.s < src.length := (List.getElem?_eq_some_iff.mp hc).1
  have hs := h.s_eq
  have hrun := encoder.run_concat pending (src.take l.s) c
  rw [← take_succ_of_lt hc, hp, hchars] at hrun
  constructor
  . dsimp only
    omega
  . dsimp only
    rw [hrun]
    exact hst
  . dsimp only
    rw [hrun, h.o_eq, List.append_assoc]
  . dsimp only
    rw [hrun, h.olen_eq, List.length_append, hn]

theorem next_room (h : Inv src pending out label l)
    (hcap : out.length + (encoder.run pending src).2.length ≤ cap) {c : UInt8}
    (hc : src[l.s]? = some c) {p : Base64.Pending}
    (hp : (encoder.run pending (src.take l.s)).1 = p) :
    l.o.length + (encoder.step p c).2.length ≤ cap := by
  have hroom := room hcap (l.s + 1)
  rw [take_succ_of_lt hc, Transducer.run_concat, hp] at hroom
  rw [h.o_eq, List.length_append]
  simp only [List.length_append] at hroom
  omega

theorem exists_getElem (h : Inv src pending out label l) (hpos : l.slen ≠ 0) :
    ∃ c, src[l.s]? = some c ∧ load src l.s = .ok c := by
  have hs := h.s_eq
  have hlt : l.s < src.length := by omega
  have hc := List.getElem?_eq_getElem hlt
  exact ⟨_, hc, by rw [load, hc]⟩

end Inv

theorem Carries.case0_none {st : State} {p : Base64.Pending} (h : Carries .case0 st p) :
    p = .none ∧ st.bytes = 0 := by
  cases h
  exact ⟨rfl, rfl⟩

theorem Carries.case1_one {st : State} {p : Base64.Pending} (h : Carries .case1 st p) :
    ∃ a, p = .one a ∧ st = ⟨1, carry₁ a⟩ := by
  cases h
  exact ⟨_, rfl, rfl⟩

theorem Carries.case2_two {st : State} {p : Base64.Pending} (h : Carries .case2 st p) :
    ∃ b, p = .two b ∧ st = ⟨2, carry₂ b⟩ := by
  cases h
  exact ⟨_, rfl, rfl⟩

theorem Inv.fast {l : Locals} (h : Inv src pending out .case0 l)
    (hcap : out.length + (encoder.run pending src).2.length ≤ cap) :
    ∃ l', encLoopGeneric64 endian src cap l = .ok l' ∧ Inv src pending out .case0 l' ∧
      l'.slen ≤ l.slen := by
  have hs := h.s_eq
  have hnone := h.carries.case0_none.1
  have hadd (k : Nat) (hk : l.s + 6 * k ≤ src.length) :
      encoder.run pending (src.take (l.s + 6 * k)) =
        (.none, (encoder.run pending (src.take l.s)).2 ++ written src l.s (6 * k)) := by
    rw [List.take_add, Transducer.run_append, hnone, (run_taken hk).1]
    rfl
  have hroom (k : Nat) (hk : l.s + 6 * k ≤ src.length) : l.o.length + 8 * k ≤ cap := by
    have hroom := room hcap (l.s + 6 * k)
    rw [hadd k hk, List.length_append, (run_taken hk).2] at hroom
    rw [h.o_eq, List.length_append]
    omega
  have ⟨k, hk, heq⟩ := encLoopGeneric64_eq endian hs hroom
  have hrun := hadd k (by omega)
  refine ⟨_, heq, ⟨?_, ?_, ?_, ?_⟩, Nat.sub_le _ _⟩
  . dsimp only
    omega
  . have hcarries := h.carries
    rw [hnone] at hcarries
    dsimp only
    rw [hrun]
    exact hcarries
  . dsimp only
    rw [hrun, h.o_eq, List.append_assoc]
  . dsimp only
    rw [hrun, h.olen_eq, List.length_append, (run_taken (by omega)).2]

theorem body_turn (hcap : out.length + (encoder.run pending src).2.length ≤ cap)
    {label : Label} {l : Locals} (h : Inv src pending out label l) :
    Loop.Turn (body endian src cap) (fun x => Inv src pending out x.1 x.2) (fun x => x.2.slen)
      (Done src pending out) (label, l) := by
  cases label with
  | case0 =>
    obtain ⟨l', hfast, h', hle⟩ := h.fast endian hcap
    by_cases hzero : l'.slen = 0
    . refine .done l' ?_ (h'.done hzero)
      simp [body, hfast, hzero]
    . obtain ⟨c, hc, hload⟩ := h'.exists_getElem hzero
      obtain ⟨hp, hbytes⟩ := h'.carries.case0_none
      have hstore := store_of_le (h'.next_room hcap hc hp)
      refine .next (.case1, ⟨l'.s + 1, l'.slen - 1, l'.o ++ [base64Enc (c.toNat / 4)], l'.olen + 1,
        ⟨1, carry₁ c⟩⟩) ?_ (h'.next hc hp (.one c) rfl rfl) ?_
      . simp only [encoder, Base64.encoder] at hstore
        simp only [body, hfast, hload, load_case0, hstore, hbytes, ok_bind, if_neg hzero]
        rfl
      . dsimp only
        omega
  | case1 =>
    by_cases hzero : l.slen = 0
    . refine .done l ?_ (h.done hzero)
      simp [body, hzero]
    . obtain ⟨c, hc, hload⟩ := h.exists_getElem hzero
      obtain ⟨a, hp, hst⟩ := h.carries.case1_one
      have hstore := store_of_le (h.next_room hcap hc hp)
      refine .next (.case2, ⟨l.s + 1, l.slen - 1, l.o ++ [base64Enc (a.toNat * 16 + c.toNat / 16)],
        l.olen + 1, ⟨2, carry₂ c⟩⟩) ?_ (h.next hc hp (.two c) rfl rfl) ?_
      . simp only [encoder, Base64.encoder] at hstore
        simp only [body, hload, hst, load_case1, hstore, ok_bind, if_neg hzero]
        rfl
      . dsimp only
        omega
  | case2 =>
    by_cases hzero : l.slen = 0
    . refine .done l ?_ (h.done hzero)
      simp [body, hzero]
    . obtain ⟨c, hc, hload⟩ := h.exists_getElem hzero
      obtain ⟨b, hp, hst⟩ := h.carries.case2_two
      have hroom := h.next_room hcap hc hp
      simp only [encoder, Base64.encoder, List.length_cons, List.length_nil] at hroom
      refine .next (.case0, ⟨l.s + 1, l.slen - 1,
        l.o ++ [base64Enc (b.toNat * 4 + c.toNat / 64), base64Enc c.toNat], l.olen + 2,
        ⟨0, carry₂ b⟩⟩) ?_ (h.next hc hp (.none _) rfl rfl) ?_
      . have hstore : store cap l.o [base64Enc (b.toNat * 4 + c.toNat / 64)] =
            .ok (l.o ++ [base64Enc (b.toNat * 4 + c.toNat / 64)]) :=
          store_of_le (by simp; omega)
        have hstore' : store cap (l.o ++ [base64Enc (b.toNat * 4 + c.toNat / 64)])
              [base64Enc c.toNat] =
            .ok (l.o ++ [base64Enc (b.toNat * 4 + c.toNat / 64)] ++ [base64Enc c.toNat]) :=
          store_of_le (by simp; omega)
        simp only [body, hload, hst, load_case2, load_low, hstore, hstore', ok_bind, if_neg hzero,
          List.append_assoc]
        rfl
      . dsimp only
        omega

theorem base64StreamEncodePlain_eq {label : Label} {state : State}
    (h : Carries label state pending)
    (hcap : out.length + (encoder.run pending src).2.length ≤ cap) :
    ∃ state' label', base64StreamEncodePlain endian src cap state out =
        .ok (state', out ++ (encoder.run pending src).2, (encoder.run pending src).2.length) ∧
      Carries label' state' (encoder.run pending src).1 := by
  have hinv : Inv src pending out label ⟨0, src.length, out, 0, state⟩ := by
    constructor
    . exact Nat.zero_add _
    . exact h
    . exact (List.append_nil _).symm
    . rfl
  have hdone : Done src pending out (Loop.run (body endian src cap) .diverges (src.length + 1)
      (label, ⟨0, src.length, out, 0, state⟩)) :=
    Loop.run_of_turn (fun _ hx => body_turn endian hcap hx) _ _ hinv (Nat.lt_succ_self _)
  have ⟨l, label', hrun, ho, holen, hcarries⟩ := hdone
  refine ⟨l.st, label', ?_, hcarries⟩
  rw [← ho, ← holen]
  cases h with
  | none carry => simp only [base64StreamEncodePlain, hrun, ok_bind, pure_eq_ok]
  | one a => simp only [base64StreamEncodePlain, hrun, ok_bind, pure_eq_ok]
  | two b => simp only [base64StreamEncodePlain, hrun, ok_bind, pure_eq_ok]

theorem base64StreamEncodeFinal_eq {label : Label} {state : State} (h : Carries label state pending)
    (hcap : out.length + (encoder.final pending).length ≤ cap) :
    base64StreamEncodeFinal cap state out =
      .ok (out ++ encoder.final pending, (encoder.final pending).length) := by
  cases h with
  | none carry =>
    simp [base64StreamEncodeFinal, encoder, Base64.encoder]
  | one a =>
    simp only [encoder, Base64.encoder, List.length_cons, List.length_nil] at hcap
    simp only [base64StreamEncodeFinal, load_carry₁, ok_bind]
    rw [store_of_le (by simp; omega), ok_bind, store_of_le (by simp; omega), ok_bind,
      store_of_le (by simp; omega), ok_bind]
    simp [encoder, Base64.encoder, Base64.pad]
  | two b =>
    simp only [encoder, Base64.encoder, List.length_cons, List.length_nil] at hcap
    simp only [base64StreamEncodeFinal, load_carry₂, ok_bind]
    rw [store_of_le (by simp; omega), ok_bind, store_of_le (by simp; omega), ok_bind]
    simp [encoder, Base64.encoder, Base64.pad]

end Plain

section Pieces

variable (endian : Endian) {cap : Nat}

theorem encodePieces_of_carries (pieces : List (List UInt8)) {label : Label} {state : State}
    {pending : Base64.Pending} (h : Carries label state pending) {out : List UInt8} (outlen : Nat)
    {last : Base64.Pending} {written : List UInt8}
    (hrun : encoder.run pending pieces.flatten = (last, written))
    (hcap : out.length + (written ++ encoder.final last).length ≤ cap) :
    encodePieces endian cap pieces state out outlen =
      .ok (out ++ (written ++ encoder.final last),
        outlen + (written ++ encoder.final last).length) := by
  induction pieces generalizing label state pending out outlen written with
  | nil =>
    cases hrun
    rw [encodePieces, base64StreamEncodeFinal_eq h hcap]
    rfl
  | cons src rest ih =>
    rw [List.flatten_cons, Transducer.run_append] at hrun
    cases hrun
    simp only [List.length_append] at hcap
    have hroom : out.length + (encoder.run pending src).2.length ≤ cap := by omega
    have ⟨state', label', hplain, h'⟩ := base64StreamEncodePlain_eq endian h hroom
    have hrest := @ih _ _ _ h' (out ++ (encoder.run pending src).2)
      (outlen + (encoder.run pending src).2.length) _ rfl
      (by simp only [List.length_append]; omega)
    rw [encodePieces, hplain, ok_bind]
    dsimp only
    rw [hrest]
    simp only [List.append_assoc, List.length_append, Nat.add_assoc]

theorem encodePieces_output (pieces : List (List UInt8))
    (hcap : 4 * ((pieces.flatten.length + 2) / 3) ≤ cap) :
    encodePieces endian cap pieces ⟨0, 0⟩ [] 0 =
      .ok (Ddwaf.base64Encode pieces.flatten, (Ddwaf.base64Encode pieces.flatten).length) := by
  rw [← length_base64Encode] at hcap
  have houtput : Ddwaf.base64Encode pieces.flatten = encoder.output pieces.flatten := by
    rw [base64Encode_eq, ← Base64.encoder_output]
    rfl
  rw [houtput] at hcap ⊢
  have hpieces := encodePieces_of_carries endian pieces (.none 0) 0 rfl
    (show ([] : List UInt8).length + (encoder.output pieces.flatten).length ≤ cap by
      rw [List.length_nil, Nat.zero_add]
      exact hcap)
  rw [List.nil_append, Nat.zero_add] at hpieces
  exact hpieces

/--
However a text is cut into pieces, what is written for them is the encoded text, of which nothing is
left out or written twice, and it is written within the buffer.
-/
theorem encodePieces_eq (pieces : List (List UInt8))
    (hcap : 4 * ((pieces.flatten.length + 2) / 3) ≤ cap) :
    ∃ out, encodePieces endian cap pieces ⟨0, 0⟩ [] 0 = .ok (out, out.length) ∧
      out = Ddwaf.base64Encode pieces.flatten ∧ Base64.decode out = some pieces.flatten :=
  ⟨_, encodePieces_output endian pieces hcap, rfl, decode_base64Encode _⟩

def longPiece : List UInt8 := (List.range 97).map UInt8.ofNat

theorem encodePieces_eq_light :
    ∃ out, encodePieces .little 132 [cstr "l", longPiece, cstr "w"] ⟨0, 0⟩ [] 0 =
        .ok (out, out.length) ∧
      out = Ddwaf.base64Encode [cstr "l", longPiece, cstr "w"].flatten ∧
      Base64.decode out = some [cstr "l", longPiece, cstr "w"].flatten :=
  encodePieces_eq .little [cstr "l", longPiece, cstr "w"] (by decide)

theorem base64Encode_pieces (src : List UInt8) :
    base64Encode endian src cap = encodePieces endian cap [src] ⟨0, 0⟩ [] 0 := by
  rw [base64Encode, encodePieces]
  cases base64StreamEncodePlain endian src cap ⟨0, 0⟩ [] with
  | error e => rfl
  | ok r =>
    simp only [ok_bind, encodePieces]
    rw [Nat.zero_add]

theorem base64Encode_capacity {src : List UInt8} (h : src.length < 2 ^ 62) :
    base64Encode endian src (base64Capacity src.length) =
      .ok (Ddwaf.base64Encode src, (Ddwaf.base64Encode src).length) := by
  have hcap : 4 * (([src].flatten.length + 2) / 3) ≤ base64Capacity src.length := by
    simpa using le_base64Capacity h
  rw [base64Encode_pieces, encodePieces_output endian [src] hcap, List.flatten_singleton]

end Pieces

end Base64Stream

end Ddwaf
