import Ddwaf.ByteBufferSerializer.Process
import Ddwaf.Native.DebugHelpers.Shows

/-!
This module contains the connection of `debug_helpers.c` to the serializer: what it shows of the roots
that the calls on the arenas of a process have returned.
-/

namespace Ddwaf

open Memory Program SerializerState

section Root

variable {ρ : Type}

theorem keeps_serializeMore_root (alloc : Allocator) (limits : WafLimits) (heap : ρ → JavaValue ρ)
    {s : SerializerState} (h : WF s) (map : ρ) (metrics : Option WafMetrics) :
    Keeps WF (fun _ _ => True) (fun _ => True)
      (ByteBufferSerializer.serializeMore alloc limits heap map metrics) s (fun root s' =>
        ∀ x ∈ slots root.address 1, s'.Used x) := by
  apply Keeps.modify_bind (Grows { x | ¬s.Used x })
  . have h0 : WF
        { s with remainingElements := limits.maxElements, metrics := metrics, written := [] } :=
      ⟨h.curPWArgs, h.curStrings, h.buffers, h.base,
        ⟨h.arrays.known, h.arrays.views, h.arrays.idx, h.arrays.nodup⟩,
        ⟨h.handedOut.pos, h.handedOut.inSegment, h.handedOut.disjoint⟩⟩
    apply Keeps.bind (((keeps_allocatePWArgsBuffer alloc h0 Nat.one_pos true).mono_error
      fun _ _ => trivial).mono
      (fun _ hs => (hs.writes _).toGrows) (fun _ _ _ hs hQ => And.intro hs hQ))
    rintro a s1 h1 _ ⟨hs1, base, hnew, -⟩
    apply Keeps.bind (((keeps_getView h1 hnew.array (fun x hx => hnew.used x hx.1 hx.2)
      Nat.one_pos).mono_error fun _ _ => trivial).mono
      (fun _ hs => hs.toGrows.mono fun x _ hx => absurd hx (Set.notMem_empty x))
      (fun _ _ _ hs hQ => And.intro hs hQ))
    rintro v s2 h2 _ ⟨hs2, hslot, haddress⟩
    rw [(hs2.arrays a hnew.array.inUse).1, hnew.start rfl, Nat.add_zero] at haddress
    rw [Nat.zero_mul, Nat.add_zero] at hslot
    have hfresh : ∀ x ∈ slots base 1, ¬s.Used x := fun x hx hused => hnew.new x hx.1 hx.2 hused
    apply Keeps.bind (((serializesAs_doSerialize alloc limits heap (limits.maxDepth + 1) v base none
      map s2 h2 hslot).mono_error fun _ _ => trivial).mono
      (fun _ hs => hs.mono fun x _ hx => show x ∈ { x | ¬s.Used x } from hfresh x hx)
      (fun _ _ _ hs _ => hs))
    intro _ s3 h3 _ hs3
    apply Keeps.get_bind
    apply Keeps.pure h3
    have hroot : (s3.views v).address = base := by
      rw [← haddress]
      exact congrArg Prod.fst (hs3.viewRange v hslot.known).2
    rw [hroot]
    exact fun x hx => hs3.used x (hs2.used x (hnew.used x hx.1 hx.2))
  . exact fun _ _ => trivial

structure RootReadable (call : Call ρ) (root : ByteBuffer) (s : SerializerState) (F : Set Nat)
    (o : PWArgs) : Prop where
  reference : ∃ c, call.reference = .ok (o, c)
  used : ∀ x ∈ F, s.Used x
  readable : Readable s.memory F call.levels root.address none o
  slot : ∀ x ∈ slots root.address 1, s.Used x

theorem RootReadable.mono {call : Call ρ} {root : ByteBuffer} {s t : SerializerState} {F : Set Nat}
    {o : PWArgs} (h : RootReadable call root s F o) (hused : ∀ x, s.Used x → t.Used x)
    (hmemory : ∀ x, s.Used x → t.memory x = s.memory x) : RootReadable call root t F o := by
  have hsame {m : Memory} (hm : ∀ x ∈ F, m x = t.memory x) (x : Nat) (hx : x ∈ F) :
      m x = s.memory x := by
    rw [hm x hx, hmemory x (h.used x hx)]
  constructor
  . exact h.reference
  . exact fun x hx => hused x (h.used x hx)
  . exact ⟨fun m hm => h.readable.decode m (hsame hm), fun m hm => h.readable.slots m (hsame hm)⟩
  . exact fun x hx => hused x (h.slot x hx)

theorem rootReadable_of_step {call : Call ρ} {root : ByteBuffer} {s t : SerializerState} (h : WF s)
    (hstep : arenaStep s (.serializeMore call (.ok root)) t) :
    ∃ F o, RootReadable call root t F o := by
  have ⟨F, o, ho, hserialized⟩ := (CallDone.of_step h hstep).root root rfl
  have hslot := (keeps_serializeMore_root call.alloc call.limits call.heap h call.map
    call.metrics).post root
  rw [show exec (ByteBufferSerializer.serializeMore call.alloc call.limits call.heap call.map
    call.metrics) s = (.ok root, t) from hstep] at hslot
  exact ⟨F, o, ⟨_, ho⟩, hserialized.used, ⟨hserialized.decode, hserialized.slots⟩, hslot rfl⟩

theorem leaseSystem_readable {ls : List (ArenaEvent ρ)} {s : SerializerState}
    (hrun : (leaseSystem ρ).Reaches ls s) {call : Call ρ} {root : ByteBuffer}
    (hroot : ArenaEvent.serializeMore call (.ok root) ∈ ls) : ∃ F o, RootReadable call root s F o := by
  induction hrun with
  | init _ => contradiction
  | step hrun hstep ih =>
    have hwf := (leaseSystem_roots hrun).1
    have ⟨_, hused, hmemory⟩ := leaseStep_frame hwf hstep
    rcases List.mem_append.mp hroot with hroot | hroot
    . have ⟨F, o, h⟩ := ih hroot
      exact ⟨F, o, h.mono hused hmemory⟩
    . rw [List.mem_singleton] at hroot
      subst hroot
      exact rootReadable_of_step hwf hstep.1

end Root

namespace DebugHelpers

variable {κ ρ : Type} {mem : Mapped}

theorem pwArgsBufferToString_root (realloc : Realloc) {call : Call ρ} {root : ByteBuffer}
    {s : SerializerState} {F : Set Nat} {o : PWArgs} (hwf : WF s) (h : RootReadable call root s F o)
    (hmem : ∀ x, s.Used x → mem x = some (s.memory x)) :
    ∃ kept, kept.Sublist (pieces printed (maxDepth + 1) none o) ∧
      (Roomy realloc (pieces printed (maxDepth + 1) none o).flatten.length →
        kept = pieces printed (maxDepth + 1) none o) ∧
      ∀ malloc alloc, pwArgsBufferToString mem realloc malloc alloc root.address =
        if malloc then (javaUtf8ToJstringChecked alloc kept.flatten).map some else .ok none := by
  have hlt (x : Nat) (hx : s.Used x) : 0 < x ∧ x < 2 ^ 63 := by
    obtain ⟨b, hb, hge, hlt⟩ := hx
    have hok := hwf.buffers.ok b hb
    have := hok.pos
    have := hok.le
    have := hok.position
    omega
  have hmaps : Maps mem s.memory F :=
    ⟨fun x hx => hmem x (h.used x hx), fun x hx => (hlt x (h.used x hx)).2⟩
  have hcopy : loadBytes mem root.address sizeofPwargs =
      .ok (read s.memory root.address sizeofPwargs) := by
    apply loadBytes_eq
    intro x hge hlt
    apply hmem x (h.slot x (mem_slots.mpr ⟨hge, ?_⟩))
    rw [Nat.one_mul]
    exact hlt
  have hpos : root.address ≠ 0 := by
    have hused := h.slot root.address (mem_slots.mpr ⟨Nat.le_refl _, by simp [sizeofPwargs]⟩)
    have := (hlt _ hused).1
    omega
  have happends := appends_hstringWritePwargs realloc hmaps (maxDepth + 1) h.readable
    (hasFields_ofCopy s.memory root.address)
  obtain ⟨str, kept, hstr, hemits⟩ := happends _ HString.inv_initial
  refine ⟨kept, hemits.sublist, ?_, ?_⟩
  . intro hroomy
    exact hemits.all _ hroomy (Nat.le_refl _)
  . intro malloc alloc
    rw [pwArgsBufferToString, if_neg hpos, hcopy, ok_bind]
    cases malloc with
    | false => rw [if_neg Bool.false_ne_true, if_neg Bool.false_ne_true, pure_eq_ok]
    | true =>
      rw [if_pos rfl, if_pos rfl, hstr, ok_bind, hemits.eq, List.nil_append]
      cases javaUtf8ToJstringChecked alloc kept.flatten with
      | error e => rfl
      | ok units => rfl

variable [DecidableEq κ]

/--
Whatever the arenas of a process have been used for, every root of an open lease can be shown: nothing
outside of the direct buffers is read, nothing outside of the text is written, and the text is the one of
the object that the root stands for, of which no piece is cut in two. Where `realloc` does not fail, the
pieces that are missing are the ones of numbers that are too long for their buffer, and of these there are
none if and only if the floating point numbers fit.
-/
theorem pwArgsBufferToString_shows {ls : List (ProcessEvent κ ρ)} {p : Process κ}
    (hrun : (Process.system κ ρ).Reaches ls p) {k : κ} {call : Call ρ} {root : ByteBuffer}
    (hroot : (call, root) ∈ Process.openRoots k ls)
    (hmem : ∀ r ∈ p.regions, ∀ x, r.1 ≤ x → x < r.1 + r.2 → mem x = some (p.memory x))
    (realloc : Realloc) :
    ∃ o c kept, call.reference = .ok (o, c) ∧ kept.Sublist (pieces whole (maxDepth + 1) none o) ∧
      (Roomy realloc (pieces whole (maxDepth + 1) none o).flatten.length →
        kept = pieces printed (maxDepth + 1) none o ∧
          (kept = pieces whole (maxDepth + 1) none o ↔ FloatsFit (maxDepth + 1) o)) ∧
      ∀ malloc alloc, pwArgsBufferToString mem realloc malloc alloc root.address =
        if malloc then (javaUtf8ToJstringChecked alloc kept.flatten).map some else .ok none := by
  have hleases := Process.leases_of_reaches hrun
  cases hs : p.arenas k with
  | none =>
    rw [hleases.none k hs] at hroot
    contradiction
  | some s =>
    obtain ⟨es, hlease, hes⟩ := hleases.sees k s hs
    obtain ⟨F, o, hreadable⟩ := leaseSystem_readable hlease (hes _ hroot)
    have hwf := hleases.ok.wf k s hs
    have hmapped (x : Nat) (hx : (p.see s).Used x) : mem x = some ((p.see s).memory x) := by
      obtain ⟨b, hb, hge, hlt⟩ := hx
      have hposition := (hwf.buffers.ok b hb).position
      exact hmem b.range (hwf.buffers.regions b hb) x hge (by show x < b.address + b.capacity; omega)
    obtain ⟨c, hreference⟩ := hreadable.reference
    obtain ⟨kept, hsublist, hall, htext⟩ := pwArgsBufferToString_root realloc hwf hreadable hmapped
    have hprinted := pieces_sublist (maxDepth + 1) none o
    refine ⟨o, c, kept, hreference, hsublist.trans hprinted, ?_, htext⟩
    intro hroomy
    have hkept := hall (hroomy.mono hprinted.flatten.length_le)
    rw [hkept]
    exact ⟨rfl, pieces_eq_iff (maxDepth + 1) none o⟩

def Realloc.total : Realloc where
  succeeds _ size := size < 2 ^ 63
  lt := of_decide_eq_true

theorem Realloc.roomy_total {n : Nat} (h : n < 2 ^ 62) : Roomy .total n := by
  intro i size hsize
  apply decide_eq_true
  omega

/-- An empty name is shown. -/
def firstText : List UInt8 :=
  cstr "<MAP>\n  b: <ARRAY>\n    <STRING> x" ++ [0xEF, 0xBF, 0xBD] ++
    cstr "\n    <BOOL> true\n  : <BOOL> true\n"

/-- No name is not shown, and neither is the text of a `FLOAT` that has 26 characters. -/
def secondText : List UInt8 :=
  cstr "<MAP>\n  c: <ARRAY>\n    <BOOL> true\n  <STRING> x" ++ [0xEF, 0xBF, 0xBD] ++
    cstr "\n  e: <FLOAT> \n"

theorem pwArgsBufferToString_shows_sample :
    ∃ (mem : Mapped) (root root' : ByteBuffer),
      pwArgsBufferToString mem .total true .total root.address =
        (javaUtf8ToJstringChecked .total firstText).map some ∧
      pwArgsBufferToString mem .total true .total root'.address =
        (javaUtf8ToJstringChecked .total secondText).map some := by
  obtain ⟨ls, root, root', hrun, hfirst, hsecond⟩ := Process.reaches_sample
  obtain ⟨mem, hmem⟩ : ∃ mem : Mapped, ∀ x, mem x = some (Process.process₅.memory x) :=
    ⟨fun x => some (Process.process₅.memory x), fun _ => rfl⟩
  have hroot : (richCall 0, root) ∈ Process.openRoots 0 ls := by
    rw [hfirst]
    exact List.mem_cons_self
  have hroot' : (richCall 1, root') ∈ Process.openRoots 1 ls := by
    rw [hsecond]
    exact List.mem_cons_self
  obtain ⟨o, c, kept, hreference, -, hall, htext⟩ :=
    pwArgsBufferToString_shows hrun hroot (fun _ _ x _ _ => hmem x) .total
  obtain ⟨o', c', kept', hreference', -, hall', htext'⟩ :=
    pwArgsBufferToString_shows hrun hroot' (fun _ _ x _ _ => hmem x) .total
  rw [richCall_reference] at hreference
  rw [richCall_reference_second] at hreference'
  cases hreference
  cases hreference'
  refine ⟨mem, root, root', ?_, ?_⟩
  . rw [htext, if_pos rfl, (hall (Realloc.roomy_total (by decide))).1]
    rfl
  . have hprinted : (pieces printed (maxDepth + 1) none secondMap).flatten = secondText := by
      decide +kernel
    rw [htext', if_pos rfl, (hall' (Realloc.roomy_total (by decide +kernel))).1, hprinted]

end DebugHelpers

end Ddwaf
