import Ddwaf.ByteBufferSerializer.Lemmas.Alloc

/-!
This module contains what writing a string to an arena does.
-/

namespace Ddwaf

open Memory Program

theorem Arena.getElem?_buffers_strings {arena : Arena} {k : Nat} {segment : StringsSegment}
    (hk : arena.stringsSegments[k]? = some segment) :
    arena.buffers[arena.pwargsSegments.length + k]? = some segment.buffer := by
  rw [Arena.buffers, List.getElem?_append_right (by simp)]
  simp [hk]

theorem Arena.buffers_set_strings (arena : Arena) (k : Nat) (segment : StringsSegment) :
    { arena with stringsSegments := arena.stringsSegments.set k segment }.buffers =
      arena.buffers.set (arena.pwargsSegments.length + k) segment.buffer := by
  rw [Arena.buffers, Arena.buffers, List.set_append_right _ _ (by simp), List.map_set]
  simp

namespace SerializerState

def pushString (s : SerializerState) (k : Nat) (segment : StringsSegment) (bs : List UInt8)
    (ws : List Range) : SerializerState :=
  { s with
    written := ws ++ s.written
    memory := write s.memory (segment.buffer.address + segment.buffer.position) bs
    arena := { s.arena with
      stringsSegments := s.arena.stringsSegments.set k
        { segment with
          buffer := { segment.buffer with position := segment.buffer.position + bs.length } } } }

section PushString

variable {s : SerializerState} {k : Nat} {segment : StringsSegment}

theorem getElem?_pushString (hk : s.arena.stringsSegments[k]? = some segment) (bs : List UInt8)
    (ws : List Range) : (s.pushString k segment bs ws).arena.stringsSegments[k]? = some
      { segment with
        buffer := { segment.buffer with position := segment.buffer.position + bs.length } } := by
  have hlt := (List.getElem?_eq_some_iff.mp hk).1
  simp [pushString, hlt]

theorem buffers_pushString (bs : List UInt8) (ws : List Range) :
    (s.pushString k segment bs ws).arena.buffers =
      s.arena.buffers.set (s.arena.pwargsSegments.length + k)
        { segment.buffer with position := segment.buffer.position + bs.length } := by
  exact Arena.buffers_set_strings _ _ _

theorem pushString_pushString (bs bs' : List UInt8) (ws ws' : List Range) :
    (s.pushString k segment bs ws).pushString k
      { segment with
        buffer := { segment.buffer with position := segment.buffer.position + bs.length } } bs' ws' =
      s.pushString k segment (bs ++ bs') (ws' ++ ws) := by
  simp only [pushString, List.set_set, List.length_append, write_append, Nat.add_assoc,
    List.append_assoc]

theorem pushString_nil (hk : s.arena.stringsSegments[k]? = some segment) :
    s.pushString k segment [] [] = s := by
  have hset : s.arena.stringsSegments.set k segment = s.arena.stringsSegments := by
    obtain ⟨hlt, hget⟩ := List.getElem?_eq_some_iff.mp hk
    rw [← hget, List.set_getElem_self]
  simp only [pushString, write_nil, List.length_nil, Nat.add_zero, hset, List.nil_append]

theorem WF.of_mem_strings (h : WF s) (hk : s.arena.stringsSegments[k]? = some segment) :
    segment.buffer.Ok := by
  apply h.buffers.ok
  exact List.mem_of_getElem? (Arena.getElem?_buffers_strings hk)

theorem WF.not_used_strings (h : WF s) (hk : s.arena.stringsSegments[k]? = some segment) {x : Nat}
    (hge : segment.buffer.address + segment.buffer.position ≤ x)
    (hlt : x < segment.buffer.address + segment.buffer.capacity) : ¬s.Used x :=
  h.buffers.not_usedIn (Arena.getElem?_buffers_strings hk) hge hlt

theorem WF.pushString (h : WF s) (hk : s.arena.stringsSegments[k]? = some segment)
    (bs : List UInt8) (hfit : segment.buffer.position + bs.length ≤ segment.buffer.capacity)
    (ws : List Range) : WF (s.pushString k segment bs ws) := by
  have hok := h.of_mem_strings hk
  have hi := Arena.getElem?_buffers_strings hk
  have hlt := (List.getElem?_eq_some_iff.mp hk).1
  have hmem := List.mem_of_getElem? hk
  constructor
  . exact h.curPWArgs
  . simp only [SerializerState.pushString, List.length_set]
    exact h.curStrings
  . rw [buffers_pushString]
    exact h.buffers.set hi rfl ⟨hok.pos, hok.le, hok.limit, hfit⟩
  . intro seg hseg
    rcases List.mem_or_eq_of_mem_set hseg with hseg | hseg
    . exact h.base seg hseg
    . rw [hseg]
      exact h.base segment hmem
  . exact ⟨h.arrays.known, h.arrays.views, h.arrays.idx, h.arrays.nodup⟩
  . exact h.handedOut.set (buffers_pushString bs ws) rfl hi rfl (Nat.le_add_right _ _)

theorem Quiet.pushString (h : WF s) (hk : s.arena.stringsSegments[k]? = some segment)
    (bs : List UInt8) (hfit : segment.buffer.position + bs.length ≤ segment.buffer.capacity) :
    Quiet s (s.pushString k segment bs
      [(segment.buffer.address + segment.buffer.position, bs.length)]) := by
  have hi := Arena.getElem?_buffers_strings hk
  refine ⟨⟨⟨?_, List.suffix_append _ _, ?_⟩, rfl⟩, rfl, rfl⟩
  . constructor
    . intro x hx
      unfold Used
      rw [buffers_pushString]
      exact hx.set hi rfl (Nat.le_add_right _ _)
    . intro x hx _
      by_cases hlt : x < segment.buffer.address + segment.buffer.position
      . exact write_of_lt bs hlt
      . apply write_of_ge
        by_contra hge
        exact h.not_used_strings hk (by omega) (by omega) hx
    . intro a ha
      exact ha
    . intro a _
      exact ⟨rfl, rfl, rfl⟩
    . exact List.suffix_refl _
    . exact fun _ hv => ⟨hv, rfl⟩
  . rintro x hx - ⟨r, hr, hge, hlt⟩
    rcases List.mem_cons.mp hr with rfl | hr
    . simp only at hge hlt
      exact absurd hx (h.not_used_strings hk hge (by omega))
    . exact ⟨r, hr, hge, hlt⟩

theorem exec_putString (h : WF s) (hk : s.arena.stringsSegments[k]? = some segment)
    (bs : List UInt8) (hfit : segment.buffer.position + bs.length ≤ segment.buffer.capacity) :
    exec (Arena.putString k bs) s = (.ok (), s.pushString k segment bs
      [(segment.buffer.address + segment.buffer.position, bs.length)]) := by
  have hlimit := (h.of_mem_strings hk).limit
  have hput : ¬segment.buffer.limit < segment.buffer.position + bs.length := by omega
  simp only [Arena.putString, Arena.getStringsSegment, Arena.setStringsSegment, modifyArena, putBytes,
    exec_bind, exec_get, hk, exec_pure, hput, if_false, exec_modify]
  rfl

end PushString

section WriteString

variable {s : SerializerState}

structure StringAt (s s' : SerializerState) (str : WrittenString) (bs : List UInt8) : Prop where
  pos : 0 < str.ptr
  lt : str.ptr + str.utf8len < 2 ^ 63
  len : str.utf8len = bs.length
  read : read s'.memory str.ptr str.utf8len = bs
  used : ∀ x, str.ptr ≤ x → x < str.ptr + str.utf8len → s'.Used x
  written : ∀ x, str.ptr ≤ x → x < str.ptr + str.utf8len → s'.Written x
  new : ∀ x, str.ptr ≤ x → x < str.ptr + str.utf8len → ¬s.Used x

theorem StringAt.of_extends {W : Set Nat} {s₀ s s' : SerializerState} {str : WrittenString}
    {bs : List UInt8} (h : StringAt s s' str bs) (hs : Extends W s₀ s) : StringAt s₀ s' str bs := by
  constructor
  . exact h.pos
  . exact h.lt
  . exact h.len
  . exact h.read
  . exact h.used
  . exact h.written
  . intro x hge hlt hx
    exact h.new x hge hlt (hs.used x hx)

theorem length_utf8_le (units : List UInt16) : (utf8 units).length ≤ 3 * units.length :=
  Utf16.length_encode_decode_le units

theorem length_unitsBefore_le (units : List UInt16) (i : Nat) :
    (unitsBefore units i).length ≤ units.length := by
  have htake : (units.take i).length ≤ units.length := by
    rw [List.length_take]
    omega
  unfold unitsBefore
  simp only
  split
  . split
    . rw [List.length_dropLast]
      omega
    . exact htake
  . exact htake

variable {k : Nat} {segment : StringsSegment}

def StringError (str : CharSeq) (e : Stop) : Prop :=
  CannotAllocate e ∨ (fits str.units ∧ refString str = .error e)

theorem keeps_encode (h : WF s) (hk : s.arena.stringsSegments[k]? = some segment) {str : CharSeq}
    (hfits : fits str.units)
    (hfit : segment.buffer.position + 3 * str.units.length ≤ segment.buffer.capacity) :
    Keeps WF Quiet (StringError str) (Arena.encode k str) s (fun _ s' =>
      refString str = .ok (utf8 str.units) ∧ s' = s.pushString k segment (utf8 str.units)
        [(segment.buffer.address + segment.buffer.position, (utf8 str.units).length)]) := by
  have hlen := length_utf8_le str.units
  have hput (hstr : refString str = .ok (utf8 str.units)) :
      Keeps WF Quiet (StringError str) (Arena.putString k (utf8 str.units)) s (fun _ s' =>
        refString str = .ok (utf8 str.units) ∧ s' = s.pushString k segment (utf8 str.units)
          [(segment.buffer.address + segment.buffer.position, (utf8 str.units).length)]) := by
    apply Keeps.of_ok _ _ (exec_putString h hk _ (by omega))
    . exact h.pushString hk _ (by omega) _
    . exact Quiet.pushString h hk _ (by omega)
    . exact ⟨hstr, rfl⟩
  unfold Arena.encode
  split
  . next hnone =>
    apply hput
    rw [refString, if_pos hfits, hnone]
  . next i exc hsome =>
    split
    . next hi =>
      have hbefore : (utf8 (unitsBefore str.units i)).length ≤ 3 * str.units.length := by
        have := length_utf8_le (unitsBefore str.units i)
        have := length_unitsBefore_le str.units i
        omega
      apply Keeps.of_error (.thrown exc) (s.pushString k segment (utf8 (unitsBefore str.units i)) _)
      . rw [exec_bind, exec_putString h hk _ (by omega)]
        rfl
      . exact h.pushString hk _ (by omega) _
      . exact Quiet.pushString h hk _ (by omega)
      . right
        refine ⟨hfits, ?_⟩
        simp only [refString, if_pos hfits, hsome, if_pos hi]
    . next hi =>
      apply hput
      simp only [refString, if_pos hfits, hsome, if_neg hi]

theorem keeps_encodeRemaining (h : WF s) (hk : s.arena.stringsSegments[k]? = some segment)
    {str : CharSeq} (hfits : fits str.units)
    (hfit : segment.buffer.position + 3 * str.units.length ≤ segment.buffer.capacity) :
    Keeps WF Quiet (StringError str) (Arena.encodeRemaining k str (str.units.length * 3 + 1)) s
      (fun _ s' => refString str = .ok (utf8 str.units) ∧ ∃ ws : List Range,
        s' = s.pushString k segment (utf8 str.units) ws ∧
        ∀ x, segment.buffer.address + segment.buffer.position ≤ x →
          x < segment.buffer.address + segment.buffer.position + (utf8 str.units).length →
          ∃ r ∈ ws, r.1 ≤ x ∧ x < r.1 + r.2) := by
  unfold Arena.encodeRemaining
  split
  . apply (keeps_encode h hk hfits hfit).mono
    . exact fun _ hs => hs
    . rintro _ s' _ _ ⟨hstr, hs'⟩
      refine ⟨hstr, _, hs', ?_⟩
      intro x hge hlt
      exact ⟨_, List.mem_singleton_self _, hge, hlt⟩
  . next hempty =>
    have hnil : str.units = [] := by
      by_contra hne
      have := List.length_pos_of_ne_nil hne
      exact hempty ⟨by omega, hne⟩
    have hutf8 : utf8 str.units = [] := by
      rw [hnil]
      rfl
    apply Keeps.pure h
    rw [hutf8]
    refine ⟨?_, [], (pushString_nil hk).symm, ?_⟩
    . rw [← hutf8, refString, if_pos hfits]
      split
      . rfl
      . rw [hnil]
        rfl
    . intro x hge hlt
      rw [List.length_nil] at hlt
      omega

theorem keeps_terminate (h : WF s) (hk : s.arena.stringsSegments[k]? = some segment)
    {bs : List UInt8} (hfit : segment.buffer.position + bs.length + 1 ≤ segment.buffer.capacity)
    {ws : List Range} (hws : ∀ x, segment.buffer.address + segment.buffer.position ≤ x →
      x < segment.buffer.address + segment.buffer.position + bs.length →
      ∃ r ∈ ws, r.1 ≤ x ∧ x < r.1 + r.2) :
    Keeps WF Quiet CannotAllocate
      (do
        let bytesLen :=
          (← Arena.getStringsSegment k).buffer.position - segment.buffer.position
        Arena.putString k [0]
        handOut (segment.base + segment.buffer.position) (bytesLen + 1)
        return some (WrittenString.mk (segment.base + segment.buffer.position) bytesLen) :
        SerializerM (Option WrittenString))
      (s.pushString k segment bs ws)
      (fun r s' => ∃ str, r = some str ∧ StringAt s s' str bs) := by
  have hok := h.of_mem_strings hk
  have hpos := hok.pos
  have hle := hok.le
  have hbase : segment.base = segment.buffer.address := h.base segment (List.mem_of_getElem? hk)
  have hwf1 : WF (s.pushString k segment bs ws) := h.pushString hk _ (by omega) ws
  have hk1 := getElem?_pushString hk bs ws
  have hfit0 : segment.buffer.position + bs.length + [(0 : UInt8)].length ≤
      segment.buffer.capacity := by
    rw [List.length_singleton]
    exact hfit
  obtain ⟨ws0, hws0⟩ : ∃ ws0, ws0 = [(segment.buffer.address + (segment.buffer.position + bs.length),
    [(0 : UInt8)].length)] := ⟨_, rfl⟩
  have hwf2 := hwf1.pushString hk1 [0] hfit0 ws0
  have hquiet2 := Quiet.pushString hwf1 hk1 [0] hfit0
  have hput := exec_putString hwf1 hk1 [0] hfit0
  rw [← hws0] at hput hquiet2
  rw [pushString_pushString] at hwf2 hquiet2 hput
  have hnew : ∀ x, segment.base + segment.buffer.position ≤ x →
      x < segment.base + segment.buffer.position + (bs.length + 1) → ¬s.Used x := by
    intro x hge hlt
    apply h.not_used_strings hk <;> omega
  have hused : ∀ x, segment.base + segment.buffer.position ≤ x →
      x < segment.base + segment.buffer.position + (bs.length + 1) →
        (s.pushString k segment (bs ++ [0]) (ws0 ++ ws)).Used x := by
    intro x hge hlt
    have hk2 := getElem?_pushString hk (bs ++ [0]) (ws0 ++ ws)
    refine ⟨_, List.mem_of_getElem? (Arena.getElem?_buffers_strings hk2), ?_⟩
    simp only [ByteBuffer.Uses, List.length_append, List.length_singleton]
    omega
  have hsub : segment.buffer.position + bs.length - segment.buffer.position = bs.length := by omega
  apply Keeps.of_ok (some ⟨segment.base + segment.buffer.position, bs.length⟩)
    { s.pushString k segment (bs ++ [0]) (ws0 ++ ws) with
      handedOut := (segment.base + segment.buffer.position, bs.length + 1) :: s.handedOut }
  . simp only [exec_bind, Arena.getStringsSegment, exec_get, hk1, exec_pure, hput, exec_handOut, hsub]
    rfl
  . apply hwf2.handOut
    . have hk2 := getElem?_pushString hk (bs ++ [0]) (ws0 ++ ws)
      refine ⟨_, List.mem_of_getElem? (Arena.getElem?_buffers_strings hk2), ?_⟩
      simp only [List.length_append, List.length_singleton]
      omega
    . intro r hr
      exact h.handedOut.disjoint_of_not_used hnew (Nat.succ_pos _) hr
    . exact Nat.succ_pos _
  . exact trans_of Quiet hquiet2 (Quiet.handOut _ _)
  . refine ⟨_, rfl, ?_⟩
    constructor
    . simp only
      omega
    . simp only
      omega
    . rfl
    . show read (write s.memory (segment.buffer.address + segment.buffer.position) (bs ++ [0]))
        (segment.base + segment.buffer.position) bs.length = bs
      rw [hbase, write_append, read_congr (fun x _ hlt => write_of_lt _ hlt), read_write]
    . intro x hge hlt
      exact hused x hge (Nat.lt_succ_of_lt hlt)
    . intro x hge hlt
      simp only [hbase] at hge hlt
      obtain ⟨r, hr, hcovers⟩ := hws x hge hlt
      exact ⟨r, List.mem_append_left _ (List.mem_append_right _ hr), hcovers⟩
    . intro x hge hlt
      exact hnew x hge (Nat.lt_succ_of_lt hlt)

theorem keeps_getStringsSegment (h : WF s) (hk : k < s.arena.stringsSegments.length) :
    Keeps WF Quiet CannotAllocate (Arena.getStringsSegment k) s
      (fun segment s' => s' = s ∧ s.arena.stringsSegments[k]? = some segment) := by
  have hget := List.getElem?_eq_getElem hk
  apply Keeps.of_ok _ s _ h (refl_of Quiet s) ⟨rfl, hget⟩
  simp only [Arena.getStringsSegment, exec_bind, exec_get, hget, exec_pure]

theorem keeps_writeNulTerminated (h : WF s) (hk : k < s.arena.stringsSegments.length) {str : CharSeq}
    (hfits : fits str.units) :
    Keeps WF Quiet (StringError str) (Arena.writeNulTerminated k str (str.units.length * 3 + 1)) s
      (fun r s' =>
        match r with
        | none => s' = s
        | some written =>
          refString str = .ok (utf8 str.units) ∧ StringAt s s' written (utf8 str.units)) := by
  unfold Arena.writeNulTerminated
  apply Keeps.bind ((keeps_getStringsSegment h hk).mono_error fun _ => Or.inl)
  rintro segment _ _ _ ⟨rfl, hk⟩
  split
  . exact Keeps.pure h rfl
  . next hleft =>
    have hcap := (h.of_mem_strings hk).position
    have hfit : segment.buffer.position + 3 * str.units.length + 1 ≤ segment.buffer.capacity := by
      unfold StringsSegment.left at hleft
      omega
    have hlen := length_utf8_le str.units
    have hroom : segment.buffer.position + (utf8 str.units).length + 1 ≤ segment.buffer.capacity := by
      omega
    apply Keeps.bind (keeps_encodeRemaining h hk hfits (by omega))
    rintro _ _ _ _ ⟨hstr, ws, rfl, hws⟩
    apply ((keeps_terminate h hk hroom hws).mono_error fun _ => Or.inl).mono
    . exact fun _ hs => hs
    . rintro _ s' _ _ ⟨written, rfl, hwritten⟩
      exact ⟨hstr, hwritten⟩

end WriteString

section ChangeSegment

variable {s : SerializerState} {b : ByteBuffer}

def addStrings (s : SerializerState) (b : ByteBuffer) : SerializerState :=
  { s with
    arena := { s.arena with
      stringsSegments := s.arena.stringsSegments ++ [⟨b, b.address⟩]
      curStringsSegment := s.arena.curStringsSegment + 1 } }

theorem buffers_addStrings : (s.addStrings b).arena.buffers = s.arena.buffers ++ [b] := by
  simp [addStrings, Arena.buffers]

theorem WF.addStrings (h : WF s) (hbuffers : BuffersOk (b :: s.arena.buffers) s.regions) :
    WF (s.addStrings b) := by
  constructor
  . exact h.curPWArgs
  . have := h.curStrings
    simp only [SerializerState.addStrings, List.length_append, List.length_singleton]
    omega
  . rw [buffers_addStrings]
    exact hbuffers.perm (List.perm_append_singleton _ _)
  . intro segment hsegment
    rcases List.mem_append.mp hsegment with hsegment | hsegment
    . exact h.base segment hsegment
    . rw [List.mem_singleton] at hsegment
      rw [hsegment]
  . exact ⟨h.arrays.known, h.arrays.views, h.arrays.idx, h.arrays.nodup⟩
  . apply h.handedOut.of_buffers
    . intro c hc
      rw [buffers_addStrings]
      exact List.mem_append_left _ hc
    . rfl

theorem Quiet.addStrings (s : SerializerState) (b : ByteBuffer) : Quiet s (s.addStrings b) := by
  apply Quiet.of_extends
  . constructor
    . rintro x ⟨c, hc, huses⟩
      refine ⟨c, ?_, huses⟩
      rw [buffers_addStrings]
      exact List.mem_append_left _ hc
    . exact fun _ _ _ => rfl
    . exact fun _ ha => ha
    . exact fun _ _ => ⟨rfl, rfl, rfl⟩
    . exact List.suffix_refl _
    . exact fun _ hv => ⟨hv, rfl⟩
  . rfl
  . rfl
  . rfl
  . rfl

theorem keeps_changeStringsSegment (alloc : Allocator) (capacity : Nat) (h : WF s) :
    Keeps WF Quiet CannotAllocate (Arena.changeStringsSegment alloc capacity) s (fun _ _ => True) := by
  unfold Arena.changeStringsSegment StringsSegment.new
  apply Keeps.get_bind
  dsimp only
  split
  . apply Keeps.bind (Q := fun segment s' => ∃ b, segment = StringsSegment.mk b b.address ∧
      BuffersOk (b :: s'.arena.buffers) s'.regions)
    . apply Keeps.bind (keeps_allocateDirect alloc capacity h)
      rintro b s1 h1 _ ⟨_, -, -, -, hbuffers⟩
      exact Keeps.pure h1 ⟨b, rfl, hbuffers⟩
    . rintro _ s1 h1 _ ⟨b, rfl, hbuffers⟩
      exact Keeps.modify (h1.addStrings hbuffers) (Quiet.addStrings s1 b) trivial
  . next hcur =>
    have := h.curStrings
    apply Keeps.modify
    . exact h.setArena rfl rfl h.curPWArgs (by simp only; omega)
    . exact Quiet.setArena rfl rfl
    . trivial

end ChangeSegment

theorem keeps_writeStringUnlimited (alloc : Allocator) {s : SerializerState} (h : WF s)
    (str : CharSeq) :
    Keeps WF Quiet (StringError str) (Arena.writeStringUnlimited alloc str) s (fun r s' =>
      match r with
      | none => ¬fits str.units
      | some written =>
        refString str = .ok (utf8 str.units) ∧ StringAt s s' written (utf8 str.units)) := by
  unfold Arena.writeStringUnlimited
  dsimp only
  split
  . next hlarge =>
    apply Keeps.pure h
    exact Nat.not_le.mpr hlarge
  . next hfits =>
    rw [Nat.not_lt] at hfits
    apply Keeps.bind (Q := fun _ s' => Quiet s s')
    . apply Keeps.modify
      . exact h.setArena rfl rfl h.curPWArgs h.curStrings
      . exact Quiet.setArena rfl rfl
      . exact Quiet.setArena rfl rfl
    . intro _ s1 h1 _ hquiet1
      apply Keeps.get_bind
      apply Keeps.bind (Q := fun written s' =>
        refString str = .ok (utf8 str.units) ∧ StringAt s s' written (utf8 str.units))
      . apply keeps_untilFits (J := Quiet s)
        . intro s2 h2 hquiet2
          apply Keeps.get_bind
          apply (keeps_writeNulTerminated h2 h2.curStrings hfits).mono
          . exact fun _ hs => hs
          . intro r s3 _ _ hr
            cases r with
            | none =>
              rw [show s3 = s2 from hr]
              exact hquiet2
            | some written => exact ⟨hr.1, hr.2.of_extends hquiet2.toExtends⟩
        . intro s2 h2 hquiet2
          apply ((keeps_changeStringsSegment alloc _ h2).mono_error fun _ => Or.inl).mono
          . exact fun _ hs => hs
          . intro _ s3 _ hquiet3 _
            exact trans_of Quiet hquiet2 hquiet3
        . exact fun _ he => Or.inl he
        . exact h1
        . exact hquiet1
      . rintro written s2 h2 _ ⟨hstr, hwritten⟩
        apply Keeps.bind (Q := fun _ s' => StringAt s s' written (utf8 str.units))
        . apply Keeps.modify
          . exact h2.setArena rfl rfl h2.curPWArgs h2.curStrings
          . exact Quiet.setArena rfl rfl
          . exact ⟨hwritten.pos, hwritten.lt, hwritten.len, hwritten.read, hwritten.used,
              hwritten.written, hwritten.new⟩
        . intro _ s3 h3 _ hwritten3
          exact Keeps.pure h3 ⟨hstr, hwritten3⟩

end SerializerState

end Ddwaf
