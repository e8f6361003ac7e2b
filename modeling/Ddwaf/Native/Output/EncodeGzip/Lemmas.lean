import Ddwaf.Native.Output.EncodeGzip.Impl

namespace Ddwaf

namespace encodeGzip

variable {σ : Type}

/--
Calls that are given some input one after the other, up to the part `rest` of it.
-/
inductive Fed (flush : Compressor.Flush) (data : List UInt8) : List Call → List UInt8 → Prop where
  | nil : Fed flush data [] data
  | call {calls : List Call} {rest : List UInt8} (h : Fed flush data calls rest) (call : Call)
      (hnext : call.nextIn = rest) (hflush : call.flush = flush) :
      Fed flush data (calls ++ [call]) (rest.drop call.consumed)

inductive FedAll : List JsonSegment → List Call → Prop where
  | last {seg : JsonSegment} {calls : List Call} (h : Fed .finish seg.data calls [])
      (hne : calls ≠ []) : FedAll [seg] calls
  | cons {seg : JsonSegment} {segs : List JsonSegment} {calls calls' : List Call}
      (h : Fed .noFlush seg.data calls []) (hne : calls ≠ []) (hsegs : FedAll segs calls') :
      FedAll (seg :: segs) (calls ++ calls')

def OffersRoom (calls : List Call) : Prop := ∀ c ∈ calls, 0 < c.availOut ∧ c.availOut ≤ c.room

theorem offersRoom_concat {calls : List Call} {call : Call} (h : OffersRoom calls)
    (hpos : 0 < call.availOut) (hle : call.availOut ≤ call.room) : OffersRoom (calls ++ [call]) := by
  intro c hc
  rw [List.mem_append, List.mem_singleton] at hc
  cases hc with
  | inl hc => exact h c hc
  | inr hc =>
    rw [hc]
    exact ⟨hpos, hle⟩

def maxGzipSize : Nat := 2 ^ 30

def callOf (s : State σ) (flush : Compressor.Flush) (deflatedSize availOut consumed : Nat) : Call :=
  ⟨s.nextIn, flush, availOut, deflatedSize - s.ret.length, consumed⟩

def afterCall (s : State σ) (call : Call) (deflatedSize mallocs : Nat)
    (step : Compressor.Step σ UInt8 UInt8) : State σ :=
  {
    strm := step.state
    nextIn := s.nextIn.drop step.consumed
    ret := s.ret ++ step.output
    deflatedSize
    mallocs
    calls := s.calls ++ [call]
  }

structure Sized (s : State σ) : Prop where
  length_le : s.ret.length ≤ s.deflatedSize
  pos : 0 < s.deflatedSize
  le : s.deflatedSize ≤ 2 * maxGzipSize

theorem grow_spec {s : State σ} (hs : Sized s) (hlength : s.ret.length ≤ maxGzipSize) :
    ∃ deflatedSize mallocs, grow .total s = some { s with deflatedSize, mallocs } ∧
      s.ret.length < deflatedSize ∧ deflatedSize ≤ 2 * maxGzipSize := by
  have hle := hs.length_le
  have hpos := hs.pos
  unfold grow
  split
  . next hfull =>
    have hmod : s.deflatedSize * 2 % 2 ^ 64 = s.deflatedSize * 2 := by
      unfold maxGzipSize at hlength
      omega
    refine ⟨_, _, rfl, ?_, ?_⟩
    . omega
    . omega
  . next hroom =>
    exact ⟨s.deflatedSize, s.mallocs, rfl, by omega, hs.le⟩

section Segment

variable (zlib : Zlib σ) (gunzip : List UInt8 → Option (List UInt8))
variable (flush : Compressor.Flush) (data total : List UInt8) (calls₀ : List Call)

structure Inv (s : State σ) : Prop where
  sized : Sized s
  reached : ∃ fed, zlib.Reached flush s.strm fed s.nextIn s.ret ∧ fed ++ s.nextIn = total
  fed : ∃ cs, s.calls = calls₀ ++ cs ∧ Fed flush data cs s.nextIn
  offers : OffersRoom s.calls

structure Post (s : State σ) : Prop where
  sized : Sized s
  reached : zlib.Reached flush s.strm total [] s.ret
  fed : ∃ cs, s.calls = calls₀ ++ cs ∧ cs ≠ [] ∧ Fed flush data cs []
  offers : OffersRoom s.calls
  complete : flush = .finish → gunzip s.ret = some total ∧ zlib.endOk s.strm = true

variable {zlib gunzip flush data total calls₀}
variable {bound : Nat → Nat} (hz : zlib.Lawful gunzip bound)

theorem take_append_drop_append (fed rest : List UInt8) (n : Nat) :
    fed ++ rest.take n ++ rest.drop n = fed ++ rest := by
  rw [List.append_assoc, List.take_append_drop]

include hz

theorem turn (hbound : bound total.length ≤ maxGzipSize) (s : State σ)
    (hs : Inv zlib flush data total calls₀ s) :
    Loop.Turn (body zlib .total flush) (Inv zlib flush data total calls₀)
      (fun s => maxGzipSize - s.ret.length)
      (fun r => ∃ s, r = .ok (some s) ∧
        Post zlib gunzip flush data total calls₀ s) s := by
  have ⟨fed, hreached, htotal⟩ := hs.reached
  have ⟨cs, hcalls, hfed⟩ := hs.fed
  have hlength : s.ret.length ≤ maxGzipSize := by
    have hle := hz.length_le hreached
    rw [htotal] at hle
    omega
  have ⟨deflatedSize, mallocs, hgrow, hlt, hle⟩ := grow_spec hs.sized hlength
  have hroom : subSize deflatedSize s.ret.length = deflatedSize - s.ret.length := by
    apply subSize_of_le (Nat.le_of_lt hlt)
    unfold maxGzipSize at hle
    omega
  generalize hout : (if deflatedSize - s.ret.length > uint32Max then uint32Max
    else deflatedSize - s.ret.length) = availOut
  have hpos : 0 < availOut := by
    rw [← hout]
    unfold uint32Max
    split <;> omega
  have havail : availOut ≤ deflatedSize - s.ret.length ∧ availOut ≤ uint32Max := by
    rw [← hout]
    unfold uint32Max
    split <;> omega
  have hoffer : ¬s.ret.length + availOut > deflatedSize := by omega
  have hconsumed := hz.consumed_le hreached hpos
  have houtput := hz.output_le hreached hpos
  have hstops := hz.stops hreached hpos
  have hok := hz.ok hreached hpos
  have hnext := hreached.call hpos
  generalize hstep : zlib.deflate s.strm s.nextIn availOut flush = step at *
  have hsub : subUint32 availOut step.output.length = availOut - step.output.length :=
    subUint32_of_le houtput havail.2
  generalize hcall : callOf s flush deflatedSize availOut step.consumed = call
  have hbody : body zlib .total flush s =
      if availOut - step.output.length = 0 then
        .ok (.next (afterCall s call deflatedSize mallocs step))
      else
        .ok (.done (some (afterCall s call deflatedSize mallocs step))) := by
    unfold body
    rw [hgrow, ← hcall]
    simp only [hroom, hout, if_neg hoffer, hstep, hok, hsub, Bool.not_true, Bool.false_eq_true,
      ↓reduceIte]
    rfl
  have hfed' : Fed flush data (cs ++ [call]) (s.nextIn.drop step.consumed) := by
    rw [← hcall]
    exact hfed.call (callOf s flush deflatedSize availOut step.consumed) rfl rfl
  have hoffers : OffersRoom (s.calls ++ [call]) := by
    rw [← hcall]
    exact offersRoom_concat hs.offers hpos havail.1
  have hcalls' : s.calls ++ [call] = calls₀ ++ (cs ++ [call]) := by
    rw [hcalls, List.append_assoc]
  have hsized : Sized (afterCall s call deflatedSize mallocs step) := by
    refine ⟨?_, by dsimp [afterCall]; omega, hle⟩
    dsimp [afterCall]
    rw [List.length_append]
    omega
  by_cases hfull : availOut - step.output.length = 0
  . rw [if_pos hfull] at hbody
    refine .next _ hbody ⟨hsized, ⟨_, hnext, ?_⟩, ⟨_, hcalls', hfed'⟩, hoffers⟩ ?_
    . exact (take_append_drop_append fed s.nextIn step.consumed).trans htotal
    . have hle := hz.length_le hnext
      rw [take_append_drop_append, htotal, List.length_append] at hle
      dsimp [afterCall]
      rw [List.length_append]
      omega
  . rw [if_neg hfull] at hbody
    have hall : step.consumed = s.nextIn.length := by
      cases hstops with
      | inl h => exact h
      | inr h => omega
    have hdrop : s.nextIn.drop step.consumed = [] := by rw [hall, List.drop_length]
    have htake : fed ++ s.nextIn.take step.consumed = total := by
      rw [hall, List.take_length, htotal]
    rw [hdrop, htake] at hnext
    rw [hdrop] at hfed'
    refine .done _ hbody ⟨_, rfl, hsized, hnext, ⟨_, hcalls', by simp, hfed'⟩, hoffers, ?_⟩
    intro hflush
    rw [hflush] at hreached hstep
    have hcomplete := hz.complete hreached hpos (by rw [hstep]; omega)
    rw [hstep, htotal] at hcomplete
    exact hcomplete

end Segment

theorem run_post {zlib : Zlib σ} {gunzip : List UInt8 → Option (List UInt8)} {bound : Nat → Nat}
    (hz : zlib.Lawful gunzip bound) (flush : Compressor.Flush) (data : List UInt8) {total : List UInt8}
    (hbound : bound total.length ≤ maxGzipSize) {s : State σ}
    (hs : Inv zlib flush data total s.calls s) {fuel : Nat} (hfuel : maxGzipSize < fuel) :
    ∃ s', Loop.run (body zlib .total flush) .diverges fuel s = .ok (some s') ∧
      Post zlib gunzip flush data total s.calls s' :=
  Loop.run_of_turn (turn hz hbound) fuel s hs (by omega)

structure Complete (zlib : Zlib σ) (gunzip : List UInt8 → Option (List UInt8))
    (segs : List JsonSegment) (calls : List Call) (total : List UInt8) (s : State σ) : Prop where
  gunzip_eq : gunzip s.ret = some total
  endOk : zlib.endOk s.strm = true
  length_le : s.ret.length ≤ maxGzipSize
  fed : ∃ cs, s.calls = calls ++ cs ∧ FedAll segs cs
  offers : OffersRoom s.calls

theorem segments_complete {zlib : Zlib σ} {gunzip : List UInt8 → Option (List UInt8)}
    {bound : Nat → Nat} (hz : zlib.Lawful gunzip bound)
    (hbound : ∀ n, n ≤ maxSizeOfSchema → bound n ≤ maxGzipSize) {fuel : Nat}
    (hfuel : maxGzipSize < fuel) {segs : List JsonSegment} (hne : segs ≠ []) (fed : List UInt8)
    {s : State σ} (hsized : Sized s) (hreached : zlib.Reached .noFlush s.strm fed [] s.ret)
    (hoffers : OffersRoom s.calls)
    (hlength : (fed ++ jsonContent segs).length ≤ maxSizeOfSchema) :
    ∃ s', segments zlib .total fuel segs s = .ok (some s') ∧
      Complete zlib gunzip segs s.calls (fed ++ jsonContent segs) s' := by
  induction segs generalizing fed s with
  | nil => contradiction
  | cons seg next ih =>
    have hcontent : jsonContent (seg :: next) = seg.data ++ jsonContent next := by
      rw [jsonContent, List.flatMap_cons]
      rfl
    rw [hcontent] at hlength ⊢
    have hpre : bound (fed ++ seg.data).length ≤ maxGzipSize := by
      apply hbound
      simp only [List.length_append] at hlength ⊢
      omega
    have hfed := hreached.feed seg.data
    rw [segments]
    cases hnext : next with
    | nil =>
      have ⟨s', hrun, hpost⟩ := run_post hz .finish seg.data hpre
        (s := { s with nextIn := seg.data })
        ⟨⟨hsized.length_le, hsized.pos, hsized.le⟩, ⟨fed, hfed.finish, rfl⟩,
          ⟨[], by simp, .nil⟩, hoffers⟩ hfuel
      have ⟨cs, hcalls, hcs, hfedAll⟩ := hpost.fed
      have ⟨hgunzip, hend⟩ := hpost.complete rfl
      have hle := hz.length_le hpost.reached
      rw [List.append_nil] at hle
      simp only [List.isEmpty_nil, ↓reduceIte, hrun, ok_bind, segments]
      refine ⟨s', rfl, ?_, hend, by omega, ⟨cs, hcalls, .last hfedAll hcs⟩, hpost.offers⟩
      rw [hgunzip]
      simp [jsonContent]
    | cons seg' next' =>
      have ⟨s', hrun, hpost⟩ := run_post hz .noFlush seg.data hpre
        (s := { s with nextIn := seg.data })
        ⟨⟨hsized.length_le, hsized.pos, hsized.le⟩, ⟨fed, hfed, rfl⟩,
          ⟨[], by simp, .nil⟩, hoffers⟩ hfuel
      have ⟨cs, hcalls, hcs, hfedSeg⟩ := hpost.fed
      rw [← List.append_assoc] at hlength
      have ⟨s'', hrest, hcomplete⟩ := ih (by rw [hnext]; exact List.cons_ne_nil _ _) _ hpost.sized
        hpost.reached hpost.offers hlength
      have ⟨cs', hcalls', hfedAll⟩ := hcomplete.fed
      simp only [List.isEmpty_cons, Bool.false_eq_true, ↓reduceIte, hrun, ok_bind]
      rw [hnext] at hrest hcomplete hfedAll
      refine ⟨s'', hrest, ?_, hcomplete.endOk, hcomplete.length_le, ⟨cs ++ cs', ?_, ?_⟩,
        hcomplete.offers⟩
      . rw [hcomplete.gunzip_eq, List.append_assoc]
      . rw [hcalls', hcalls, List.append_assoc]
      . exact .cons hfedSeg hcs hfedAll

end encodeGzip

open encodeGzip in
theorem encodeGzip_complete {σ : Type} {zlib : Zlib σ} {gunzip : List UInt8 → Option (List UInt8)}
    {bound : Nat → Nat} (hz : zlib.Lawful gunzip bound)
    (hbound : ∀ n, n ≤ maxSizeOfSchema → bound n ≤ maxGzipSize) {fuel : Nat}
    (hfuel : maxGzipSize < fuel) {segs : List JsonSegment} (hne : segs ≠ [])
    (hlength : (jsonContent segs).length ≤ maxSizeOfSchema) {jsonLen : Nat}
    (hjson : jsonLen ≤ maxSizeOfSchema) :
    ∃ s, encodeGzip zlib .total fuel segs jsonLen = .ok (some s) ∧
      encodeGzip.Complete zlib gunzip segs [] (jsonContent segs) s := by
  have hsize : 0 < (if jsonLen < 1024 then 1024 else jsonLen) ∧
      (if jsonLen < 1024 then 1024 else jsonLen) ≤ 2 * maxGzipSize := by
    unfold maxSizeOfSchema at hjson
    unfold maxGzipSize
    split <;> omega
  have ⟨s, hrun, hcomplete⟩ := segments_complete hz hbound hfuel hne []
    (s := ⟨zlib.init, [], [], if jsonLen < 1024 then 1024 else jsonLen, 2, []⟩)
    ⟨by simp, hsize.1, hsize.2⟩ .start (by simp [OffersRoom]) (by simpa using hlength)
  refine ⟨s, ?_, hcomplete⟩
  unfold encodeGzip
  simp only [Alloc.total, ↓reduceIte]
  rw [hrun]
  simp [hcomplete.endOk]

end Ddwaf
