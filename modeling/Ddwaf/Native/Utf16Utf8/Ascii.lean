import Ddwaf.Native.Output.ConvertJson.Lemmas
import Ddwaf.Native.Utf16Utf8.Json.Lemmas

/-!
This module contains the proof that decoding leaves every ASCII byte in its place.
-/

namespace Ddwaf

theorem writeUtf16Codeunits_ge {k : Nat} (h : 0x80 ≤ k) :
    ∀ u ∈ writeUtf16Codeunits k, 0x80 ≤ u := by
  intro u hu
  by_cases hlt : k < 0x10000
  . rw [writeUtf16Codeunits.eq_of_lt hlt, List.mem_singleton] at hu
    simp only [hu, UInt16.le_iff_toNat_le, UInt16.reduceToNat, Utf16.toNat_ofNat_of_lt hlt]
    exact h
  . rw [writeUtf16Codeunits.eq_of_le (by omega)] at hu
    simp only [List.mem_cons, List.not_mem_nil, or_false] at hu
    rw [UInt16.le_iff_toNat_le]
    rcases hu with hu | hu
    . rw [hu, Utf16.toNat_ofNat_of_lt (by omega)]
      simp
      omega
    . rw [hu, Utf16.toNat_ofNat_of_lt (by omega)]
      simp
      omega

def jstringOf (s : List UInt8) : List UInt16 := jstringUnits (Utf8.decode s)

theorem jstringOf_ge {s : List UInt8} (h : ∀ b ∈ s, 0x80 ≤ b) : ∀ u ∈ jstringOf s, 0x80 ≤ u := by
  intro u hu
  rw [jstringOf, jstringUnits, List.mem_flatMap] at hu
  obtain ⟨c, hc, hu⟩ := hu
  exact writeUtf16Codeunits_ge (Utf8.decode_ge h c hc) u hu

theorem jstringOf_append_cons (p r : List UInt8) {a : UInt8} (ha : a < 0x80) :
    jstringOf (p ++ a :: r) = jstringOf p ++ a.toUInt16 :: jstringOf r := by
  have hlt : a.toNat < 0x80 := by simpa [UInt8.lt_iff_toNat_lt] using ha
  have hvalid : (Char.ofNat a.toNat).toNat = a.toNat := by
    apply Utf8.toNat_ofNat_of_isValidChar
    unfold Nat.isValidChar
    omega
  have hunit : UInt16.ofNat a.toNat = a.toUInt16 := by
    rw [UInt16.ofNat_uInt8ToNat]
  rw [jstringOf, Utf8.decode_append_ascii p r ha, Utf8.decode_ascii_cons r ha, jstringUnits_append,
    jstringUnits_cons, hvalid, writeUtf16Codeunits.eq_of_lt (by omega), hunit]
  rfl

def asciiBytes (s : List UInt8) : List UInt8 := s.filter fun b => b < 0x80

def asciiUnits (u : List UInt16) : List UInt16 := u.filter fun c => c < 0x80

theorem toUInt16_lt_iff (a : UInt8) : a.toUInt16 < 0x80 ↔ a < 0x80 := by
  simp [UInt16.lt_iff_toNat_lt, UInt8.lt_iff_toNat_lt]

theorem asciiUnits_jstringOf (s : List UInt8) :
    asciiUnits (jstringOf s) = (asciiBytes s).map UInt8.toUInt16 := by
  induction hn : s.length using Nat.strongRecOn generalizing s with
  | ind n ih =>
    by_cases hall : ∀ b ∈ s, 0x80 ≤ b
    . have hbytes : asciiBytes s = [] := by
        rw [asciiBytes, List.filter_eq_nil_iff]
        intro b hb
        simpa using hall b hb
      have hunits : asciiUnits (jstringOf s) = [] := by
        rw [asciiUnits, List.filter_eq_nil_iff]
        intro u hu
        simpa using jstringOf_ge hall u hu
      rw [hbytes, hunits]
      rfl
    . simp only [not_forall, UInt8.not_le] at hall
      obtain ⟨a, ha, hlt⟩ := hall
      obtain ⟨p, r, rfl⟩ := List.append_of_mem ha
      rw [List.length_append, List.length_cons] at hn
      have hp := ih p.length (by omega) p rfl
      have hr := ih r.length (by omega) r rfl
      rw [jstringOf_append_cons p r hlt]
      simp only [asciiUnits, asciiBytes] at hp hr ⊢
      simp [hp, hr, hlt, toUInt16_lt_iff]

section Checked

variable {alloc : Alloc} {s : List UInt8} {u : List UInt16}

structure Converted (s : List UInt8) (u : List UInt16) : Prop where
  eq : u = jstringOf s
  length_le : s.length ≤ sizeMax / 2 - 1
  units_le : u.length ≤ intMax

theorem javaUtf8ToJstringChecked_ok (h : javaUtf8ToJstringChecked alloc s = .ok u) :
    Converted s u := by
  rw [javaUtf8ToJstringChecked_eq] at h
  unfold mallocUtf16 at h
  split at h
  . contradiction
  . next hsize =>
    split at h
    . contradiction
    . rw [ok_bind, newString, store_of_le] at h
      . rw [ok_bind] at h
        split at h
        . contradiction
        . next hunits =>
          split at h
          . contradiction
          . have heq : jstringOf s = u := Except.ok.inj h
            refine ⟨heq.symm, by omega, ?_⟩
            rw [← heq, jstringOf]
            omega
      . have := jstringUnits_decode_length_le s
        simpa using this

theorem javaUtf8ToJstringChecked_of_converted (hs : s.length ≤ sizeMax / 2 - 1)
    (hu : (jstringOf s).length ≤ intMax) :
    javaUtf8ToJstringChecked .total s = .ok (jstringOf s) := by
  have hmalloc : mallocUtf16 .total s.length = .ok () := by
    rw [mallocUtf16, if_neg (by omega)]
    rfl
  rw [javaUtf8ToJstringChecked_eq, hmalloc, ok_bind]
  exact newString_total (jstringUnits_decode_length_le s) hu

end Checked

/--
The ASCII bytes of `s` are the ASCII units of `u`, and what stands between them is converted on its
own.
-/
structure KeepsAscii (s : List UInt8) (u : List UInt16) : Prop where
  ascii : asciiUnits u = (asciiBytes s).map UInt8.toUInt16
  split : ∀ p a r, a < 0x80 → s = p ++ a :: r →
    ∃ v w, javaUtf8ToJstringChecked .total p = .ok v ∧ javaUtf8ToJstringChecked .total r = .ok w ∧
      u = v ++ a.toUInt16 :: w
  nonAscii : (∀ b ∈ s, 0x80 ≤ b) → ∀ c ∈ u, 0x80 ≤ c

theorem Converted.keeps_ascii {s : List UInt8} {u : List UInt16} (h : Converted s u) :
    KeepsAscii s u := by
  have hs := h.length_le
  have hu := h.units_le
  constructor
  . rw [h.eq, asciiUnits_jstringOf]
  . intro p a r ha heq
    have hsplit := jstringOf_append_cons p r ha
    rw [← heq, ← h.eq] at hsplit
    rw [heq, List.length_append, List.length_cons] at hs
    rw [hsplit, List.length_append, List.length_cons] at hu
    refine ⟨jstringOf p, jstringOf r, ?_, ?_, hsplit⟩
    . apply javaUtf8ToJstringChecked_of_converted
      . omega
      . omega
    . apply javaUtf8ToJstringChecked_of_converted
      . omega
      . omega
  . intro hall
    rw [h.eq]
    exact jstringOf_ge hall

theorem keepsAscii :
    (∀ alloc s u, javaUtf8ToJstringChecked alloc s = .ok u → KeepsAscii s u) ∧
    (∀ alloc o p h, outputConvertJson alloc o = .ok (some p, h) →
      (jsonContent (h.chainFrom p)).length ≤ sizeMax →
      ∀ alloc' u, javaJsonToJstringChecked alloc' (h.chainFrom p) = .ok u →
        KeepsAscii (jsonText o) u) := by
  constructor
  . intro alloc s u h
    exact (javaUtf8ToJstringChecked_ok h).keeps_ascii
  . intro alloc o p h hout hlen alloc' u hu
    have htext : jsonContent (h.chainFrom p) = jsonText o := by
      rcases outputConvertJson_cases alloc o with ⟨htext, -⟩ | ⟨htext, -⟩
      . rw [hout] at htext
        exact Option.some.inj htext
      . rw [hout] at htext
        contradiction
    rw [javaJsonToJstringChecked_eq alloc' hlen, htext] at hu
    exact (javaUtf8ToJstringChecked_ok hu).keeps_ascii

theorem keepsAscii_truncated : KeepsAscii [0x22, 0xE2, 0x82, 0x22] [0x22, 0xFFFD, 0x22] := by
  apply keepsAscii.1 .total
  decide

end Ddwaf
