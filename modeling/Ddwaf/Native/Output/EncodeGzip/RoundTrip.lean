import Ddwaf.Lib.Base64
import Ddwaf.Native.Output.ConvertJson.Failure
import Ddwaf.Native.Output.ConvertObject.Lemmas
import Ddwaf.Native.Output.EncodeGzip.Lemmas
import Ddwaf.Native.Json.Lemmas.Read

/-!
This module contains the proof that a text that is compressed and encoded is what decoding and
decompressing gives back.
-/

namespace Ddwaf

section Base64

theorem base64Enc_isAlphabet : Base64.IsAlphabet base64Enc := by
  constructor
  have hall : ∀ k < 64, Base64.sextet (base64Enc k) = some k := by decide +kernel
  intro n
  have hmod : base64Enc n = base64Enc (n % 64) := by
    rw [base64Enc, base64Enc, Nat.mod_mod]
  rw [hmod]
  exact hall (n % 64) (Nat.mod_lt n (by decide))

theorem decode_base64Encode (src : List UInt8) : Base64.decode (base64Encode src) = some src := by
  induction src using base64Encode.induct with
  | case1 a b c src ih =>
    rw [base64Encode]
    exact base64Enc_isAlphabet.decode_group₃ a b c ih
  | case2 a b => exact base64Enc_isAlphabet.decode_group₂ a b
  | case3 a => exact base64Enc_isAlphabet.decode_group₁ a
  | case4 => rfl

theorem length_base64Encode (src : List UInt8) :
    (base64Encode src).length = 4 * ((src.length + 2) / 3) := by
  induction src using base64Encode.induct with
  | case1 a b c src ih =>
    rw [base64Encode]
    simp only [List.length_cons, ih]
    omega
  | case2 a b => simp [base64Encode]
  | case3 a => simp [base64Encode]
  | case4 => rfl

theorem base64Enc_lt (n : Nat) : base64Enc n < 0x80 := by
  have hall : ∀ k < 64, base64Enc k < 0x80 := by decide +kernel
  have hmod : base64Enc n = base64Enc (n % 64) := by
    rw [base64Enc, base64Enc, Nat.mod_mod]
  rw [hmod]
  exact hall (n % 64) (Nat.mod_lt n (by decide))

theorem base64Encode_lt (src : List UInt8) : ∀ c ∈ base64Encode src, c < 0x80 := by
  induction src using base64Encode.induct with
  | case1 a b c src ih =>
    rw [base64Encode]
    simp only [List.forall_mem_cons]
    exact ⟨base64Enc_lt _, base64Enc_lt _, base64Enc_lt _, base64Enc_lt _, ih⟩
  | case2 a b =>
    simp only [base64Encode, List.forall_mem_cons]
    exact ⟨base64Enc_lt _, base64Enc_lt _, base64Enc_lt _, by decide, by simp⟩
  | case3 a =>
    simp only [base64Encode, List.forall_mem_cons]
    exact ⟨base64Enc_lt _, base64Enc_lt _, by decide, by decide, by simp⟩
  | case4 => simp [base64Encode]

theorem le_base64Capacity {n : Nat} (h : n < 2 ^ 62) : 4 * ((n + 2) / 3) ≤ base64Capacity n := by
  unfold base64Capacity
  rw [Nat.mod_eq_of_lt (by omega), Nat.mod_eq_of_lt (by omega)]
  omega

end Base64

section Latin1

def latin1 (s : List UInt16) : List UInt8 := s.map fun u => if u < 0x100 then u.toUInt8 else 0x3F

theorem jstringOf_nil : jstringOf [] = [] := by
  simp [jstringOf, jstringUnits]

theorem jstringOf_ascii {s : List UInt8} (h : ∀ b ∈ s, b < 0x80) :
    jstringOf s = s.map UInt8.toUInt16 := by
  induction s with
  | nil => exact jstringOf_nil
  | cons a s ih =>
    rw [List.forall_mem_cons] at h
    have happend := jstringOf_append_cons [] s h.1
    rw [jstringOf_nil, List.nil_append, List.nil_append] at happend
    rw [happend, ih h.2, List.map_cons]

theorem latin1_map {s : List UInt8} : latin1 (s.map UInt8.toUInt16) = s := by
  rw [latin1, List.map_map]
  apply List.map_id''
  intro a
  have hlt : a.toUInt16 < 0x100 := by
    have := a.toNat_lt
    rw [UInt16.lt_iff_toNat_lt]
    simp
    omega
  simp [hlt]

end Latin1

theorem javaUtf8ToJstringChecked_base64 {gzip : List UInt8}
    (h : gzip.length ≤ encodeGzip.maxGzipSize) :
    javaUtf8ToJstringChecked .total (base64Encode gzip) =
      .ok ((base64Encode gzip).map UInt8.toUInt16) := by
  have hjstring := jstringOf_ascii (base64Encode_lt gzip)
  rw [javaUtf8ToJstringChecked_eq_ok_iff, hjstring]
  refine ⟨?_, rfl⟩
  unfold encodeGzip.maxGzipSize at h
  simp only [fitsJstring, hjstring, List.length_map, length_base64Encode, Bool.and_eq_true,
    decide_eq_true_eq, sizeMax, intMax]
  omega

theorem outputConvertJson_linked {o : DdwafObject} {p : SegPtr} {h : JsonHeap}
    (hrun : outputConvertJson .total o = .ok (some p, h)) : p = 0 ∧ h.IsLinked := by
  have hfirst : Alloc.total 0 = true := rfl
  obtain ⟨h₀, hlast, hnew, hl, _⟩ := jsonSegNew_first hfirst
  have hspec := convertJson_spec .total o 0 hl
  rw [outputConvertJson, hnew] at hrun
  generalize hres : convertJson .total o 0 _ h₀ = res at hspec
  simp only [hres] at hrun
  cases hspec with
  | done h' hp hl' htext =>
    cases hrun
    exact ⟨hlast, hl'⟩
  | null h' hl' hp =>
    simp only [ok_bind, ne_eq, not_true_eq_false, ↓reduceIte] at hrun
    obtain ⟨_, _, hrun⟩ := bind_eq_ok hrun
    cases hrun
  | stop e hp => contradiction

section RoundTrip

variable {σ : Type} {zlib : Zlib σ} {gunzip : List UInt8 → Option (List UInt8)} {bound : Nat → Nat}

def decoded (gunzip : List UInt8 → Option (List UInt8)) (s : List UInt16) : Option (List UInt8) :=
  (Base64.decode (latin1 s)).bind gunzip

theorem base64_fits {gzip : List UInt8} (h : gzip.length < 2 ^ 62) :
    (base64Encode gzip).length ≤ base64Capacity gzip.length := by
  rw [length_base64Encode]
  exact le_base64Capacity h

theorem outputConvertJson_segments {obj : DdwafObject} {text : List UInt8}
    (htext : outputText (outputConvertJson .total obj) = some text)
    (hlength : text.length ≤ maxSizeOfSchema) :
    ∃ h, outputConvertJson .total obj = .ok (some 0, h) ∧ h.chainFrom 0 ≠ [] ∧
      jsonContent (h.chainFrom 0) = text ∧ jsonLength (h.chainFrom 0) ≤ maxSizeOfSchema ∧
      ∃ freed, jsonSegFree (some 0) h = .ok freed := by
  unfold outputText at htext
  split at htext
  . next p h hrun =>
    have ⟨hp, hlinked⟩ := outputConvertJson_linked hrun
    rw [hp] at hrun htext
    have htext := Option.some.inj htext
    refine ⟨h, hrun, ?_, htext, ?_, _, jsonSegFree.linked_eq hlinked⟩
    . have ⟨init, last, hcells⟩ := hlinked
      rw [hlinked.chain_eq, hcells.cells_eq]
      simp
    . rw [jsonLength_eq, htext]
      exact Nat.le_trans (Nat.mod_le _ _) hlength
  . contradiction

theorem encodeSegments_decoded (hz : zlib.Lawful gunzip bound)
    (hbound : ∀ n, n ≤ maxSizeOfSchema → bound n ≤ encodeGzip.maxGzipSize) {fuel : Nat}
    (hfuel : encodeGzip.maxGzipSize < fuel) {segs : List JsonSegment} (hne : segs ≠ [])
    (hlength : (jsonContent segs).length ≤ maxSizeOfSchema) :
    ∃ s u, encodeGzip zlib .total fuel segs (jsonLength segs) = .ok (some s) ∧
      encodeGzip.FedAll segs s.calls ∧ encodeGzip.OffersRoom s.calls ∧
      javaUtf8ToJstringChecked .total (base64Encode s.ret) = .ok u ∧
      encodeSegments zlib fuel segs = .ok (some u) ∧
      decoded gunzip u = some (jsonContent segs) := by
  have hjson : jsonLength segs ≤ maxSizeOfSchema := by
    rw [jsonLength_eq]
    exact Nat.le_trans (Nat.mod_le _ _) hlength
  have ⟨s, hrun, hcomplete⟩ := encodeGzip_complete hz hbound hfuel hne hlength hjson
  have ⟨cs, hcalls, hfed⟩ := hcomplete.fed
  rw [List.nil_append] at hcalls
  have hle := hcomplete.length_le
  have hcapacity : (base64Encode s.ret).length ≤ base64Capacity s.ret.length := by
    unfold encodeGzip.maxGzipSize at hle
    exact base64_fits (by omega)
  have hjstring := javaUtf8ToJstringChecked_base64 hle
  refine ⟨s, _, hrun, hcalls ▸ hfed, hcomplete.offers, hjstring, ?_, ?_⟩
  . rw [encodeSegments, hrun]
    simp only [ok_bind]
    rw [store_of_le (by simpa using hcapacity), ok_bind, List.nil_append, hjstring]
    rfl
  . rw [decoded, latin1_map, decode_base64Encode]
    exact hcomplete.gunzip_eq

/--
The deflate calls feed every segment of a text, and what Java decodes is the text, for every way to
cut the text into segments and for the one of an object.
-/
theorem encodeJsonWithZlib_decoded (hz : zlib.Lawful gunzip bound)
    (hbound : ∀ n, n ≤ maxSizeOfSchema → bound n ≤ encodeGzip.maxGzipSize) {fuel : Nat}
    (hfuel : encodeGzip.maxGzipSize < fuel) :
    (∀ segs, segs ≠ [] → (jsonContent segs).length ≤ maxSizeOfSchema →
      ∃ s u, encodeGzip zlib .total fuel segs (jsonLength segs) = .ok (some s) ∧
        encodeGzip.FedAll segs s.calls ∧ encodeGzip.OffersRoom s.calls ∧
        encodeSegments zlib fuel segs = .ok (some u) ∧
        decoded gunzip u = some (jsonContent segs)) ∧
    (∀ obj text, outputText (outputConvertJson .total obj) = some text →
      text.length ≤ maxSizeOfSchema →
      ∃ u, encodeJsonWithZlib zlib fuel obj = .ok (some u) ∧ decoded gunzip u = some text) ∧
    (∀ gzip : List UInt8, gzip.length < 2 ^ 62 →
      (base64Encode gzip).length ≤ base64Capacity gzip.length) := by
  refine ⟨?_, ?_, fun gzip => base64_fits⟩
  . intro segs hne hlength
    have ⟨s, u, hrun, hfed, hoffers, _, hencode, hdecoded⟩ :=
      encodeSegments_decoded hz hbound hfuel hne hlength
    exact ⟨s, u, hrun, hfed, hoffers, hencode, hdecoded⟩
  . intro obj text htext hlength
    have ⟨h, hrun, hne, hcontent, hjson, freed, hfree⟩ := outputConvertJson_segments htext hlength
    have ⟨s, u, _, _, _, _, hencode, hdecoded⟩ :=
      encodeSegments_decoded hz hbound hfuel hne (by rw [hcontent]; exact hlength)
    rw [hcontent] at hdecoded
    refine ⟨u, ?_, hdecoded⟩
    rw [encodeJsonWithZlib, hrun]
    simp only [ok_bind]
    rw [if_neg (Nat.not_lt.mpr hjson), hencode, ok_bind, hfree]
    rfl

def gzipOf (zlib : Zlib σ) (fuel : Nat) (segs : List JsonSegment) : Option (List UInt8) :=
  match encodeGzip zlib .total fuel segs (jsonLength segs) with
  | .ok (some s) => some s.ret
  | _ => none

theorem encodeJsonGzipBase64Checked_eq (hz : zlib.Lawful gunzip bound)
    (hbound : ∀ n, n ≤ maxSizeOfSchema → bound n ≤ encodeGzip.maxGzipSize) {fuel : Nat}
    (hfuel : encodeGzip.maxGzipSize < fuel) {ext : Externals}
    (hext : ext.encodeGzip = gzipOf zlib fuel) {obj : DdwafObject} {text : List UInt8}
    (htext : outputText (outputConvertJson .total obj) = some text)
    (hlength : text.length ≤ maxSizeOfSchema) :
    encodeJsonGzipBase64Checked ext obj = encodeJsonWithZlib zlib fuel obj := by
  have ⟨h, hrun, hne, hcontent, hjson, freed, hfree⟩ := outputConvertJson_segments htext hlength
  have ⟨s, u, hgzip, _, _, hjstring, hencode, _⟩ :=
    encodeSegments_decoded hz hbound hfuel hne (by rw [hcontent]; exact hlength)
  have hgzipOf : ext.encodeGzip (h.chainFrom 0) = some s.ret := by
    rw [hext, gzipOf, hgzip]
  rw [encodeJsonGzipBase64Checked, encodeJsonWithZlib, hrun]
  simp only [ok_bind, if_neg (Nat.not_lt.mpr hjson), hfree, hgzipOf, hencode, hjstring]

def noise : Nat → Nat → List UInt8
  | 0, _ => []
  | n + 1, x =>
    let x := (x * 75 + 74) % 65537
    let c := UInt8.ofNat (0x23 + x % 220)
    (if c = 0x5C then 0xFF else c) :: noise n x

def noiseText : List UInt8 := 0x22 :: noise 1008 1 ++ [0x22]

def gzipHeader : List UInt8 := [31, 139, 8, 0, 0, 0, 0, 0, 0, 3]

/--
What zlib writes behind the header: for `noiseText` it is a stored block, the checksum and the length.
-/
def gzipBody (text : List UInt8) : List UInt8 :=
  if text = noiseText then
    [1, 242, 3, 13, 252] ++ text ++ [123, 185, 7, 94, 242, 3, 0, 0]
  else
    0 :: text

def gunzipFile (file : List UInt8) : Option (List UInt8) :=
  match file.drop gzipHeader.length with
  | 0 :: text => some text
  | _ => some noiseText

theorem gzipFile_lawful :
    (Compressor.atEnd gzipHeader gzipBody).Lawful gunzipFile (fun n => n + 24) := by
  apply Compressor.atEnd_lawful
  . intro text
    rw [gunzipFile, List.drop_left, gzipBody]
    by_cases h : text = noiseText
    . rw [if_pos h, h]
      rfl
    . rw [if_neg h]
      rfl
  . intro text
    rw [List.length_append, gzipBody, show gzipHeader.length = 10 from rfl]
    split
    . simp only [List.length_append, List.length_cons, List.length_nil]
      omega
    . rw [List.length_cons]
      omega

theorem noise_segments :
    ∃ h, outputConvertJson .total (.string (noise 1008 1)) = .ok (some 0, h) ∧
      (h.chainFrom 0).map JsonSegment.data = [[0x22], noise 1008 1, [0x22]] := by
  have hsegments : (outputConvertJson .total (.string (noise 1008 1))).toOption.map
      (fun s => (s.1, (s.2.chainFrom 0).map JsonSegment.data)) =
        some (some 0, [[0x22], noise 1008 1, [0x22]]) := by
    decide +kernel
  cases hrun : outputConvertJson .total (.string (noise 1008 1)) with
  | error e =>
    rw [hrun] at hsegments
    contradiction
  | ok s =>
    rw [hrun] at hsegments
    obtain ⟨hseg, hdata⟩ := Prod.mk.inj (Option.some.inj hsegments)
    exact ⟨s.2, by rw [← hseg], hdata⟩

theorem noise_grows {h : JsonHeap} {s : encodeGzip.State (List UInt8 × Nat)}
    (hrun : outputConvertJson .total (.string (noise 1008 1)) = .ok (some 0, h))
    (hgzip : encodeGzip (Compressor.atEnd gzipHeader gzipBody) .total (encodeGzip.maxGzipSize + 1)
      (h.chainFrom 0) (jsonLength (h.chainFrom 0)) = .ok (some s)) :
    s.deflatedSize = 2048 := by
  have hsize : (outputConvertJson .total (.string (noise 1008 1))).toOption.bind (fun r =>
      (encodeGzip (Compressor.atEnd gzipHeader gzipBody) .total (encodeGzip.maxGzipSize + 1)
        (r.2.chainFrom 0) (jsonLength (r.2.chainFrom 0))).toOption.join.map fun s =>
          s.deflatedSize) = some 2048 := by
    decide +kernel
  rw [hrun, Except.toOption, Option.bind_some, hgzip] at hsize
  exact Option.some.inj hsize

/-- Three segments, and a file that is longer than their text, so that the buffer grows. -/
theorem encodeJsonWithZlib_decoded_noise :
    ∃ h s u, outputConvertJson .total (.string (noise 1008 1)) = .ok (some 0, h) ∧
      (h.chainFrom 0).map JsonSegment.data = [[0x22], noise 1008 1, [0x22]] ∧
      encodeGzip (Compressor.atEnd gzipHeader gzipBody) .total (encodeGzip.maxGzipSize + 1)
        (h.chainFrom 0) (jsonLength (h.chainFrom 0)) = .ok (some s) ∧
      s.deflatedSize = 2048 ∧ encodeGzip.FedAll (h.chainFrom 0) s.calls ∧
      encodeJsonWithZlib (Compressor.atEnd gzipHeader gzipBody) (encodeGzip.maxGzipSize + 1)
        (.string (noise 1008 1)) = .ok (some u) ∧
      decoded gunzipFile u = some noiseText := by
  obtain ⟨h, hrun, hdata⟩ := noise_segments
  have hcontent : jsonContent (h.chainFrom 0) = noiseText := by
    rw [jsonContent, List.flatMap_def, hdata, noiseText]
    generalize noise 1008 1 = string
    simp
  have hlength : noiseText.length ≤ maxSizeOfSchema := by decide +kernel
  have hne : h.chainFrom 0 ≠ [] := by
    intro hnil
    rw [hnil, List.map_nil] at hdata
    exact List.cons_ne_nil _ _ hdata.symm
  have htext : outputText (outputConvertJson .total (.string (noise 1008 1))) = some noiseText := by
    rw [hrun, outputText, hcontent]
  obtain ⟨hsegments, hobject, -⟩ := encodeJsonWithZlib_decoded gzipFile_lawful
    (by unfold maxSizeOfSchema encodeGzip.maxGzipSize; omega)
    (Nat.lt_succ_self encodeGzip.maxGzipSize)
  obtain ⟨s, _, hgzip, hfed, -⟩ := hsegments (h.chainFrom 0) hne (hcontent ▸ hlength)
  obtain ⟨u, hencode, hdecoded⟩ := hobject _ noiseText htext hlength
  exact ⟨h, s, u, hrun, hdata, hgzip, noise_grows hrun hgzip, hfed, hencode, hdecoded⟩

end RoundTrip

end Ddwaf
