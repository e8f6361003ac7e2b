import Ddwaf.ByteBufferSerializer.Reference
import Mathlib.Data.List.Basic
import Mathlib.Tactic.Ring

/-!
This module contains the slots of a tree in the order in which they are serialized, the parts of a
Java value that they come from, and what the limits do to each of them.
-/

namespace Ddwaf

/-- The path has the index at each level, and the key is none outside of a map. -/
structure Slot where
  path : List Nat
  key : Option (List UInt8)
  object : PWArgs

namespace PWArgs

mutual

def slots (path : List Nat) (key : Option (List UInt8)) : PWArgs → List Slot
  | .array a => ⟨path, key, .array a⟩ :: slotsArray path 0 a
  | .map a => ⟨path, key, .map a⟩ :: slotsMap path 0 a
  | o => [⟨path, key, o⟩]

def slotsArray (path : List Nat) (i : Nat) : List PWArgs → List Slot
  | [] => []
  | o :: os => slots (path ++ [i]) none o ++ slotsArray path (i + 1) os

def slotsMap (path : List Nat) (i : Nat) : List NamedPWArgs → List Slot
  | [] => []
  | (key, o) :: es => slots (path ++ [i]) key o ++ slotsMap path (i + 1) es

end

def length : PWArgs → Nat
  | .array a => a.length
  | .map a => a.length
  | _ => 0

end PWArgs

section Value

variable {ρ : Type}

abbrev Part (ρ : Type) := Option (List UInt16) × ρ

def IterStep.elem? : IterStep α → Option α
  | .elem a => some a
  | _ => none

def keyName : JavaKey → Option (List UInt16)
  | .null => some []
  | .toString s => s
  | .throwing _ => none

def childAt (value : JavaValue ρ) (i : Nat) : Option (Part ρ) :=
  match value with
  | .collection _ iterator => (iterator i).elem?.map fun v => (none, v)
  | .array elements => elements[i]?.map fun v => (none, v)
  | .iterable _ second => (second i).elem?.map fun v => (none, v)
  | .map _ iterator => (iterator i).elem?.map fun entry => (keyName entry.1, entry.2)
  | _ => none

def valueAt (heap : ρ → JavaValue ρ) (part : Part ρ) : List Nat → Option (Part ρ)
  | [] => some part
  | i :: path => (childAt (heap part.2) i).bind fun child => valueAt heap child path

theorem valueAt_append (heap : ρ → JavaValue ρ) (part : Part ρ) (path path' : List Nat) :
    valueAt heap part (path ++ path') =
      (valueAt heap part path).bind fun child => valueAt heap child path' := by
  induction path generalizing part with
  | nil => rfl
  | cons i path ih =>
    rw [List.cons_append, valueAt, valueAt, Option.bind_assoc]
    congr 1
    funext child
    exact ih child

def leafObject (cut : List UInt16 → List UInt16) : JavaValue ρ → Option PWArgs
  | .null => some .null
  | .charSequence s => some (.string (utf8 (cut s.units)))
  | .floating value => some (.float value)
  | .number value => some (.signed value)
  | .boolean value => some (.bool value)
  | .other => some .null
  | _ => none

inductive SerializedAs (cut : List UInt16 → List UInt16) : JavaValue ρ → PWArgs → Prop where
  | leaf (h : leafObject cut value = some o) : SerializedAs cut value o
  | collection : SerializedAs cut (.collection size iterator) (.array os)
  | array : SerializedAs cut (.array elements) (.array os)
  | iterable : SerializedAs cut (.iterable first second) (.array os)
  | map : SerializedAs cut (.map size iterator) (.map es)

inductive TakesElements (room : Nat) : JavaValue ρ → Nat → Prop where
  | leaf (h : leafObject id value = some o) : TakesElements room value 0
  | collection : TakesElements room (.collection size iterator) (min size room)
  | array : TakesElements room (.array elements) (min elements.length room)
  | iterable (h : refCount first 0 room = .ok n) : TakesElements room (.iterable first second) n
  | map : TakesElements room (.map size iterator) (min size room)

end Value

section Tally

variable {ρ : Type} (limits : WafLimits) (heap : ρ → JavaValue ρ) (root : ρ)

def partAt (slot : Slot) : Option (Part ρ) := valueAt heap (none, root) slot.path

def isTooLarge (k : Nat) : Bool := limits.maxElements ≤ k

def isTooDeep (slot : Slot) : Bool := limits.maxDepth < slot.path.length

def isCut (units : List UInt16) : Bool := limits.maxStringSize < units.length

def hasCutName (slot : Slot) : Bool :=
  (partAt heap root slot).any fun part => part.1.any (isCut limits)

def cutsString : JavaValue ρ → Bool
  | .charSequence s => isCut limits s.units
  | _ => false

def hasCutString (slot : Slot) : Bool :=
  (partAt heap root slot).any fun part => cutsString limits (heap part.2)

def SlotOk (k : Nat) (slot : Slot) : Prop :=
  ∃ part, partAt heap root slot = some part ∧
    slot.key = (refName limits part.1).map utf8 ∧
    slot.path.length ≤ limits.maxDepth + 1 ∧
    if isTooLarge limits k ∨ isTooDeep limits slot then
      slot.object = .map []
    else
      SerializedAs (·.take limits.maxStringSize) (heap part.2) slot.object ∧
        TakesElements (limits.maxElements - 1 - k) (heap part.2) slot.object.length

def tally (slots : List (Slot × Nat)) (m : WafMetrics) : WafMetrics where
  truncatedStringTooLongCount := m.truncatedStringTooLongCount +
    slots.countP (fun s => hasCutName limits heap root s.1) +
    slots.countP (fun s => !isTooLarge limits s.2 && !isTooDeep limits s.1 &&
      hasCutString limits heap root s.1)
  truncatedListMapTooLargeCount := m.truncatedListMapTooLargeCount +
    slots.countP (fun s => isTooLarge limits s.2)
  truncatedObjectTooDeepCount := m.truncatedObjectTooDeepCount +
    slots.countP (fun s => !isTooLarge limits s.2 && isTooDeep limits s.1)

theorem tally_append (S T : List (Slot × Nat)) (m : WafMetrics) :
    tally limits heap root (S ++ T) m = tally limits heap root T (tally limits heap root S m) := by
  simp only [tally, List.countP_append, WafMetrics.mk.injEq]
  omega

structure Counted (pos : Nat) (c : Counters) (S : List Slot) (c' : Counters) : Prop where
  remaining : c'.remaining = c.remaining - S.length
  ok : ∀ s ∈ S.zipIdx pos, SlotOk limits heap root s.2 s.1
  metrics : c'.metrics = c.metrics.map (tally limits heap root (S.zipIdx pos))

variable {limits heap root}

theorem Counted.nil (pos : Nat) (c : Counters) : Counted limits heap root pos c [] c := by
  constructor
  . simp
  . simp
  . cases hc : c.metrics with
    | none => rfl
    | some m => rfl

theorem Counted.append (h : Counted limits heap root pos c S c₁)
    (h' : Counted limits heap root (pos + S.length) c₁ T c₂) :
    Counted limits heap root pos c (S ++ T) c₂ := by
  constructor
  . rw [h'.remaining, h.remaining, List.length_append]
    omega
  . intro s hs
    rw [List.zipIdx_append, List.mem_append] at hs
    rcases hs with hs | hs
    . exact h.ok s hs
    . exact h'.ok s hs
  . rw [h'.metrics, h.metrics, Option.map_map]
    congr 1
    funext m
    rw [List.zipIdx_append, tally_append]
    rfl

end Tally

theorem refElements_zero_ok {item : α → Counters → Except Stop (β × Counters)}
    {iterator : Nat → IterStep α} {bs : List β} {c c' : Counters}
    (h : refElements item iterator size i 0 c = .ok (bs, c')) : bs = [] ∧ c' = c := by
  rw [refElements] at h
  split at h
  . contradiction
  . cases h
    exact ⟨rfl, rfl⟩

theorem refElements_succ_ok {item : α → Counters → Except Stop (β × Counters)}
    {iterator : Nat → IterStep α} {bs : List β} {c c' : Counters}
    (h : refElements item iterator size i (n + 1) c = .ok (bs, c')) :
    ∃ a b c₁ bs', iterator i = .elem a ∧ item a c = .ok (b, c₁) ∧
      refElements item iterator size (i + 1) n c₁ = .ok (bs', c') ∧ bs = b :: bs' := by
  rw [refElements] at h
  split at h
  . contradiction
  . contradiction
  . contradiction
  . next a ha =>
    obtain ⟨⟨b, c₁⟩, hb, h⟩ := bind_eq_ok h
    obtain ⟨⟨bs', c₂⟩, hbs', h⟩ := bind_eq_ok h
    cases h
    exact ⟨a, b, c₁, bs', ha, hb, hbs', rfl⟩

section Clean

def WafMetrics.Le (m m' : WafMetrics) : Prop :=
  m.truncatedStringTooLongCount ≤ m'.truncatedStringTooLongCount ∧
    m.truncatedListMapTooLargeCount ≤ m'.truncatedListMapTooLargeCount ∧
    m.truncatedObjectTooDeepCount ≤ m'.truncatedObjectTooDeepCount

def Counters.Le (c c' : Counters) : Prop :=
  ∀ m, c.metrics = some m → ∃ m', c'.metrics = some m' ∧ m.Le m'

def Clean (c c' : Counters) : Prop := ∃ m, c.metrics = some m ∧ c'.metrics = some m

theorem Counters.Le.refl (c : Counters) : c.Le c :=
  fun m hm => ⟨m, hm, Nat.le_refl _, Nat.le_refl _, Nat.le_refl _⟩

theorem Counters.Le.trans {c c₁ c₂ : Counters} (h : c.Le c₁) (h' : c₁.Le c₂) : c.Le c₂ := by
  intro m hm
  obtain ⟨m₁, hm₁, h1, h2, h3⟩ := h m hm
  obtain ⟨m₂, hm₂, h1', h2', h3'⟩ := h' m₁ hm₁
  exact ⟨m₂, hm₂, Nat.le_trans h1 h1', Nat.le_trans h2 h2', Nat.le_trans h3 h3'⟩

theorem Counters.Le.of_metrics {c c' : Counters} {f : WafMetrics → WafMetrics}
    (h : c'.metrics = c.metrics.map f) (hf : ∀ m : WafMetrics, m.Le (f m)) : c.Le c' := by
  intro m hm
  rw [h, hm]
  exact ⟨f m, rfl, hf m⟩

theorem Clean.split {c c₁ c₂ : Counters} (h : Clean c c₂) (hle : c.Le c₁) (hle' : c₁.Le c₂) :
    Clean c c₁ ∧ Clean c₁ c₂ := by
  obtain ⟨m, hm, hm₂⟩ := h
  obtain ⟨⟨a, b, d⟩, hm₁, h1, h2, h3⟩ := hle m hm
  obtain ⟨m', hm', h1', h2', h3'⟩ := hle' _ hm₁
  rw [hm₂, Option.some.injEq] at hm'
  subst hm'
  have heq : WafMetrics.mk a b d = m := by
    cases m
    simp only [WafMetrics.mk.injEq] at h1 h2 h3 h1' h2' h3' ⊢
    omega
  rw [heq] at hm₁
  exact ⟨⟨m, hm, hm₁⟩, m, hm₁, hm₂⟩

end Clean

section Count

variable {ρ : Type} {limits : WafLimits} {heap : ρ → JavaValue ρ} {root : ρ}

theorem toInt32_of_le {n : Int} (hge : -2 ^ 31 ≤ n) (hlt : n < 2 ^ 31) : toInt32 n = n := by
  unfold toInt32
  rw [Int.bmod_eq_of_le_mul_two] <;> omega

def maxSlots (depth : Nat) (remaining : Int) : Nat := max 1 (remaining.toNat * (depth + 1))

def maxSlotsAll (depth : Nat) (remaining : Int) (n : Nat) : Nat := remaining.toNat * (depth + 1) + n

theorem maxSlots_le_all (depth : Nat) (remaining : Int) (n : Nat) :
    maxSlots depth remaining ≤ maxSlotsAll depth remaining (n + 1) := by
  unfold maxSlots maxSlotsAll
  omega

theorem maxSlotsAll_step {depth n k : Nat} {remaining : Int} (h : k ≤ maxSlots depth remaining) :
    k + maxSlotsAll depth (remaining - k) n ≤ maxSlotsAll depth remaining (n + 1) := by
  unfold maxSlots at h
  unfold maxSlotsAll
  by_cases hk : (k : Int) ≤ remaining
  . have hsub : (remaining - k).toNat = remaining.toNat - k := by omega
    obtain ⟨r, hr⟩ : ∃ r, remaining.toNat = k + r := ⟨remaining.toNat - k, by omega⟩
    rw [hsub, hr, Nat.add_sub_cancel_left, Nat.add_mul]
    have : k ≤ k * (depth + 1) := Nat.le_mul_of_pos_right k (Nat.succ_pos depth)
    omega
  . have hsub : (remaining - k).toNat = 0 := by omega
    rw [hsub, Nat.zero_mul]
    omega

theorem maxSlots_step {depth n : Nat} {remaining : Int} (hpos : 0 < remaining)
    (hn : n ≤ (remaining - 1).toNat) :
    1 + maxSlotsAll depth (remaining - 1) n ≤ maxSlots (depth + 1) remaining := by
  unfold maxSlots maxSlotsAll
  obtain ⟨r, hr⟩ : ∃ r, remaining.toNat = r + 1 := ⟨remaining.toNat - 1, by omega⟩
  have hsub : (remaining - 1).toNat = r := by omega
  rw [hsub] at hn ⊢
  rw [hr, show (r + 1) * (depth + 1 + 1) = r * (depth + 1) + r + depth + 2 by ring]
  omega

/-- The counter does not wrap around: there are few slots, or it has not even become negative. -/
def Room (n : Nat) (c c' : Counters) : Prop :=
  -2 ^ 31 ≤ c.remaining - n ∨ (0 ≤ c.remaining ∧ Clean c c')

theorem Room.lt (h : Room n c c') (hn : 0 < n) : -2 ^ 31 < c.remaining := by
  rcases h with h | ⟨h, -⟩ <;> omega

theorem Counted.remaining_nonneg (h : Counted limits heap root pos c S c')
    (hpos : c.remaining = limits.maxElements - (pos : Int)) (hge : 0 ≤ c.remaining)
    (hclean : Clean c c') : 0 ≤ c'.remaining := by
  obtain ⟨m, hm, hm'⟩ := hclean
  have hmetrics := h.metrics
  rw [hm, hm', Option.map_some, Option.some.injEq] at hmetrics
  have hcount : (S.zipIdx pos).countP (fun s => isTooLarge limits s.2) = 0 := by
    have := congrArg WafMetrics.truncatedListMapTooLargeCount hmetrics
    simp only [tally] at this
    omega
  rw [List.countP_eq_zero] at hcount
  rw [h.remaining]
  by_cases hlen : S.length = 0
  . omega
  . have hmem : (S[S.length - 1], pos + (S.length - 1)) ∈ S.zipIdx pos := by
      rw [List.mem_iff_getElem]
      refine ⟨S.length - 1, by rw [List.length_zipIdx]; omega, ?_⟩
      rw [List.getElem_zipIdx]
    have := hcount _ hmem
    simp only [isTooLarge, decide_eq_true_eq] at this
    omega

def ItemCounted (limits : WafLimits) (heap : ρ → JavaValue ρ) (root : ρ) (depth : Nat)
    (item : α → Counters → Except Stop (β × Counters)) (iterator : Nat → IterStep α)
    (slots : Nat → β → List Slot) : Prop :=
  ∀ (i : Nat) (a : α) (c : Counters) (pos : Nat) (b : β) (c' : Counters),
    iterator i = .elem a → c.remaining = limits.maxElements - (pos : Int) →
    Room (maxSlots depth c.remaining) c c' → item a c = .ok (b, c') →
    Counted limits heap root pos c (slots i b) c' ∧ (slots i b).length ≤ maxSlots depth c.remaining

theorem refElements_le {item : α → Counters → Except Stop (β × Counters)}
    (hitem : ∀ a c b c', item a c = .ok (b, c') → c.Le c') {iterator : Nat → IterStep α}
    {size i n : Nat} {c c' : Counters} {bs : List β}
    (h : refElements item iterator size i n c = .ok (bs, c')) : c.Le c' := by
  induction n generalizing i c bs with
  | zero =>
    obtain ⟨-, rfl⟩ := refElements_zero_ok h
    exact .refl _
  | succ n ih =>
    obtain ⟨a, b, c₁, bs', -, hb, hbs, -⟩ := refElements_succ_ok h
    exact (hitem a c b c₁ hb).trans (ih hbs)

theorem refElements_counted {item : α → Counters → Except Stop (β × Counters)}
    {iterator : Nat → IterStep α} {slots : Nat → β → List Slot}
    {slotsAll : Nat → List β → List Slot} (hnil : ∀ i, slotsAll i [] = [])
    (hcons : ∀ i b bs, slotsAll i (b :: bs) = slots i b ++ slotsAll (i + 1) bs) {depth : Nat}
    (hle : ∀ a c b c', item a c = .ok (b, c') → c.Le c')
    (hitem : ItemCounted limits heap root depth item iterator slots)
    {size i n pos : Nat} {c c' : Counters} {bs : List β}
    (hpos : c.remaining = limits.maxElements - (pos : Int))
    (hroom : Room (maxSlotsAll depth c.remaining n) c c')
    (h : refElements item iterator size i n c = .ok (bs, c')) :
    Counted limits heap root pos c (slotsAll i bs) c' ∧
      (slotsAll i bs).length ≤ maxSlotsAll depth c.remaining n ∧ bs.length = n := by
  induction n generalizing i pos c bs with
  | zero =>
    obtain ⟨rfl, rfl⟩ := refElements_zero_ok h
    rw [hnil]
    exact ⟨.nil pos _, Nat.zero_le _, rfl⟩
  | succ n ih =>
    obtain ⟨a, b, c₁, bs', ha, hb, hbs, rfl⟩ := refElements_succ_ok h
    have hsplit := fun hclean : Clean c c' => hclean.split (hle a c b c₁ hb) (refElements_le hle hbs)
    have hroom₁ : Room (maxSlots depth c.remaining) c c₁ := by
      rcases hroom with hroom | ⟨hge, hclean⟩
      . have := maxSlots_le_all depth c.remaining n
        exact Or.inl (by omega)
      . exact Or.inr ⟨hge, (hsplit hclean).1⟩
    obtain ⟨hcounted, hlen⟩ := hitem i a c pos b c₁ ha hpos hroom₁ hb
    have hstep := maxSlotsAll_step (n := n) hlen
    have hremaining := hcounted.remaining
    rw [← hremaining] at hstep
    have hroom₂ : Room (maxSlotsAll depth c₁.remaining n) c₁ c' := by
      rcases hroom with hroom | ⟨hge, hclean⟩
      . exact Or.inl (by omega)
      . exact Or.inr ⟨hcounted.remaining_nonneg hpos hge (hsplit hclean).1, (hsplit hclean).2⟩
    have hpos₂ : c₁.remaining = limits.maxElements - ((pos + (slots i b).length : Nat) : Int) := by
      omega
    obtain ⟨hcounted', hlen', hlength⟩ := ih hpos₂ hroom₂ hbs
    rw [hcons]
    refine ⟨hcounted.append hcounted', ?_, ?_⟩
    . rw [List.length_append]
      omega
    . rw [List.length_cons, hlength]

theorem countTruncated_metrics (limits : WafLimits) (units : List UInt16) (c : Counters) :
    (countTruncated limits units c).metrics = c.metrics.map fun m =>
      { m with truncatedStringTooLongCount :=
        m.truncatedStringTooLongCount + (isCut limits units).toNat } := by
  unfold countTruncated isCut
  split
  . next h => simp [Counters.count, h]
  . next h => simp [h]

theorem countTruncatedName_metrics (limits : WafLimits) (name : Option (List UInt16))
    (c : Counters) :
    (countTruncatedName limits name c).metrics = c.metrics.map fun m =>
      { m with truncatedStringTooLongCount :=
        m.truncatedStringTooLongCount + (name.any (isCut limits)).toNat } := by
  cases name with
  | none => simp [countTruncatedName]
  | some units => exact countTruncated_metrics limits units c

@[simp]
theorem countTruncated_remaining (limits : WafLimits) (units : List UInt16) (c : Counters) :
    (countTruncated limits units c).remaining = c.remaining := by
  unfold countTruncated
  split <;> rfl

@[simp]
theorem countTruncatedName_remaining (limits : WafLimits) (name : Option (List UInt16))
    (c : Counters) : (countTruncatedName limits name c).remaining = c.remaining := by
  cases name with
  | none => rfl
  | some units => exact countTruncated_remaining limits units c

theorem countElement_remaining {c : Counters} (hge : -2 ^ 31 < c.remaining)
    (hlt : c.remaining < 2 ^ 31) (name : Option (List UInt16)) :
    (countElement limits name c).remaining = c.remaining - 1 := by
  show toInt32 ((countTruncatedName limits name c).remaining - 1) = _
  rw [countTruncatedName_remaining]
  exact toInt32_of_le (by omega) (by omega)

theorem countElement_metrics (limits : WafLimits) (name : Option (List UInt16)) (c : Counters) :
    (countElement limits name c).metrics = c.metrics.map fun m =>
      { m with truncatedStringTooLongCount :=
        m.truncatedStringTooLongCount + (name.any (isCut limits)).toNat } :=
  countTruncatedName_metrics limits name c

theorem tally_singleton (slot : Slot) (k : Nat) (m : WafMetrics) :
    tally limits heap root [(slot, k)] m =
      ⟨m.truncatedStringTooLongCount + (hasCutName limits heap root slot).toNat +
          (!isTooLarge limits k && !isTooDeep limits slot && hasCutString limits heap root slot).toNat,
        m.truncatedListMapTooLargeCount + (isTooLarge limits k).toNat,
        m.truncatedObjectTooDeepCount + (!isTooLarge limits k && isTooDeep limits slot).toNat⟩ := by
  have htoNat (b : Bool) : (if b = true then 1 else 0) = b.toNat := by
    cases b <;> rfl
  simp only [tally, List.countP_singleton, htoNat]

theorem Counted.singleton {slot : Slot} (hok : SlotOk limits heap root pos slot)
    (hremaining : c'.remaining = c.remaining - 1)
    (hmetrics : c'.metrics = c.metrics.map (tally limits heap root [(slot, pos)])) :
    Counted limits heap root pos c [slot] c' := by
  constructor
  . rw [hremaining]
    rfl
  . intro s hs
    rw [List.zipIdx_singleton, List.mem_singleton] at hs
    rw [hs]
    exact hok
  . exact hmetrics

variable {path : List Nat} {key : Option (List UInt8)} {name : Option (List UInt16)} {v : ρ}
  {c c' : Counters} {pos : Nat}

structure At (limits : WafLimits) (heap : ρ → JavaValue ρ) (root : ρ) (path : List Nat)
    (key : Option (List UInt8)) (name : Option (List UInt16)) (v : ρ) (c : Counters) (pos : Nat) :
    Prop where
  part : valueAt heap (none, root) path = some (name, v)
  key : key = (refName limits name).map utf8
  depth : path.length ≤ limits.maxDepth + 1
  pos : c.remaining = limits.maxElements - (pos : Int)
  room : -2 ^ 31 < c.remaining

theorem At.remaining (h : At limits heap root path key name v c pos) :
    (countElement limits name c).remaining = c.remaining - 1 := by
  have := h.pos
  have := limits.maxElements_le
  have := h.room
  unfold intMax at *
  exact countElement_remaining h.room (by omega) name

theorem At.tooLarge_iff (h : At limits heap root path key name v c pos) :
    isTooLarge limits pos = true ↔ (countElement limits name c).remaining < 0 := by
  have := h.pos
  rw [h.remaining]
  simp only [isTooLarge, decide_eq_true_eq]
  omega

theorem At.hasCutName (h : At limits heap root path key name v c pos) (o : PWArgs) :
    Ddwaf.hasCutName limits heap root ⟨path, key, o⟩ = name.any (isCut limits) := by
  simp [Ddwaf.hasCutName, partAt, h.part]

theorem At.cutOff (h : At limits heap root path key name v c pos) {o : PWArgs}
    (hcut : (countElement limits name c).remaining < 0 ∨ limits.maxDepth < path.length)
    (href : refCutOff (refName limits name) (countElement limits name c) = .ok (o, c')) :
    o = .map [] ∧ Counted limits heap root pos c [⟨path, key, .map []⟩] c' := by
  unfold refCutOff at href
  cases hname : checkName (refName limits name) "Could not write map" with
  | error e =>
    rw [hname] at href
    contradiction
  | ok u =>
    rw [hname] at href
    cases href
    refine ⟨rfl, ?_⟩
    have hdeep : isTooDeep limits ⟨path, key, .map []⟩ = true ↔ limits.maxDepth < path.length := by
      simp [isTooDeep]
    apply Counted.singleton
    . refine ⟨(name, v), h.part, h.key, h.depth, ?_⟩
      rw [if_pos]
      rw [h.tooLarge_iff, hdeep]
      exact hcut
    . unfold Ddwaf.countCutOff
      split <;> exact h.remaining
    . unfold Ddwaf.countCutOff
      split
      . next hlt =>
        have hlarge := h.tooLarge_iff.mpr hlt
        simp only [Counters.count, countElement_metrics, Option.map_map]
        congr 1
        funext m
        rw [tally_singleton, h.hasCutName, hlarge]
        simp
      . next hge =>
        have hlarge : isTooLarge limits pos = false := by
          rw [Bool.eq_false_iff, Ne, h.tooLarge_iff]
          exact hge
        rw [← hdeep] at hcut
        simp only [Counters.count, countElement_metrics, Option.map_map]
        congr 1
        funext m
        rw [tally_singleton, h.hasCutName, hlarge, hcut.resolve_left hge]
        simp

theorem At.within (h : At limits heap root path key name v c pos) {o : PWArgs}
    (hge : ¬(countElement limits name c).remaining < 0) (hdepth : path.length ≤ limits.maxDepth)
    (hser : SerializedAs (·.take limits.maxStringSize) (heap v) o)
    (htakes : TakesElements (countElement limits name c).remaining.toNat (heap v) o.length)
    (hremaining : c'.remaining = (countElement limits name c).remaining)
    (hmetrics : c'.metrics = (countElement limits name c).metrics.map fun m =>
      { m with truncatedStringTooLongCount :=
        m.truncatedStringTooLongCount + (cutsString limits (heap v)).toNat }) :
    Counted limits heap root pos c [⟨path, key, o⟩] c' := by
  have hcut : hasCutString limits heap root ⟨path, key, o⟩ = cutsString limits (heap v) := by
    simp [hasCutString, partAt, h.part]
  have hlarge : isTooLarge limits pos = false := by
    rw [Bool.eq_false_iff, Ne, h.tooLarge_iff]
    exact hge
  have hdeep : isTooDeep limits ⟨path, key, o⟩ = false := by
    simp [isTooDeep, hdepth]
  apply Counted.singleton
  . refine ⟨(name, v), h.part, h.key, h.depth, ?_⟩
    rw [if_neg (by simp [hlarge, hdeep])]
    refine ⟨hser, ?_⟩
    have hpos := h.pos
    have hroom : (countElement limits name c).remaining.toNat = limits.maxElements - 1 - pos := by
      rw [h.remaining]
      omega
    rw [← hroom]
    exact htakes
  . rw [hremaining, h.remaining]
  . rw [hmetrics, countElement_metrics, Option.map_map]
    congr 1
    funext m
    rw [tally_singleton, h.hasCutName, hlarge, hdeep]
    simp [hcut]

inductive RefValue (limits : WafLimits) (item : RefItem ρ) (value : JavaValue ρ) (c : Counters) :
    PWArgs → Counters → Prop where
  | leaf (h : leafObject (·.take limits.maxStringSize) value = some o)
      (hremaining : c₂.remaining = c.remaining)
      (hmetrics : c₂.metrics = c.metrics.map fun m =>
        { m with truncatedStringTooLongCount :=
          m.truncatedStringTooLongCount + (cutsString limits value).toNat }) :
      RefValue limits item value c o c₂
  | array (iterator : Nat → IterStep ρ) (size : Nat) (hle : size ≤ c.remaining.toNat)
      (htakes : TakesElements c.remaining.toNat value size)
      (hchild : ∀ i a, iterator i = .elem a → childAt value i = some (none, a))
      (hser : SerializedAs (·.take limits.maxStringSize) value (.array os))
      (hcut : cutsString limits value = false)
      (hos : refElements (item none) iterator size 0 size c = .ok (os, c₂)) :
      RefValue limits item value c (.array os) c₂
  | map (iterator : Nat → IterStep (JavaKey × ρ)) (size : Nat) (hle : size ≤ c.remaining.toNat)
      (htakes : TakesElements c.remaining.toNat value size)
      (hchild : ∀ i e name, iterator i = .elem e → refKey e.1 = .ok name →
        childAt value i = some (name, e.2))
      (hser : SerializedAs (·.take limits.maxStringSize) value (.map es))
      (hcut : cutsString limits value = false)
      (hes : refElements (refEntry limits item) iterator size 0 size c = .ok (es, c₂)) :
      RefValue limits item value c (.map es) c₂

theorem refCount_le {iterator : Nat → IterStep α} {i room n : Nat}
    (h : refCount iterator i room = .ok n) : n ≤ room := by
  induction room generalizing i n with
  | zero =>
    rw [refCount] at h
    split at h
    . contradiction
    . cases h
      exact Nat.le_refl 0
  | succ room ih =>
    rw [refCount] at h
    split at h
    . cases h
      exact Nat.zero_le _
    . contradiction
    . contradiction
    . cases hrest : refCount iterator (i + 1) room with
      | error e =>
        simp only [hrest, bind, Except.bind] at h
        contradiction
      | ok n' =>
        simp only [hrest, bind, Except.bind] at h
        cases h
        exact Nat.succ_le_succ (ih hrest)

theorem keyName_of_refKey {key : JavaKey} (h : refKey key = .ok name) : keyName key = name := by
  cases key with
  | null => cases h; rfl
  | toString s => cases h; rfl
  | throwing exc => contradiction

theorem refString_ok {s : CharSeq} {bs : List UInt8} (h : refString s = .ok bs) :
    bs = utf8 s.units := by
  unfold refString at h
  split at h
  . split at h
    . cases h
      rfl
    . split at h
      . contradiction
      . cases h
        rfl
  . contradiction

theorem refValue_cases {item : RefItem ρ} {value : JavaValue ρ} {o : PWArgs}
    (h : refValue limits item name value c = .ok (o, c')) : RefValue limits item value c o c' := by
  have hsame : c.metrics = c.metrics.map fun m =>
      { m with truncatedStringTooLongCount := m.truncatedStringTooLongCount + 0 } := by
    simp
  cases value with
  | null =>
    obtain ⟨_, _, h⟩ := bind_eq_ok h
    cases h
    exact .leaf rfl rfl hsame
  | charSequence s =>
    obtain ⟨_, _, h⟩ := bind_eq_ok h
    obtain ⟨bs, hbs, h⟩ := bind_eq_ok h
    cases h
    refine .leaf ?_ (countTruncated_remaining ..) (countTruncated_metrics ..)
    rw [refString_ok hbs]
    rfl
  | floating value =>
    obtain ⟨_, _, h⟩ := bind_eq_ok h
    cases h
    exact .leaf rfl rfl hsame
  | number value =>
    obtain ⟨_, _, h⟩ := bind_eq_ok h
    cases h
    exact .leaf rfl rfl hsame
  | collection size iterator =>
    obtain ⟨_, _, h⟩ := bind_eq_ok h
    obtain ⟨⟨os, c₁⟩, hos, h⟩ := bind_eq_ok h
    cases h
    apply RefValue.array iterator _ (Nat.min_le_right ..) .collection _ .collection rfl hos
    intro i a ha
    simp [childAt, ha, IterStep.elem?]
  | array elements =>
    obtain ⟨_, _, h⟩ := bind_eq_ok h
    obtain ⟨⟨os, c₁⟩, hos, h⟩ := bind_eq_ok h
    cases h
    apply RefValue.array _ _ (Nat.min_le_right ..) .array _ .array rfl hos
    intro i a ha
    unfold ByteBufferSerializer.arrayIterator at ha
    split at ha
    . contradiction
    . next hget =>
      cases ha
      simp [childAt, hget]
  | iterable first second =>
    obtain ⟨n, hn, h⟩ := bind_eq_ok h
    obtain ⟨_, _, h⟩ := bind_eq_ok h
    obtain ⟨⟨os, c₁⟩, hos, h⟩ := bind_eq_ok h
    cases h
    apply RefValue.array second n (refCount_le hn) (.iterable hn) _ .iterable rfl hos
    intro i a ha
    simp [childAt, ha, IterStep.elem?]
  | map size iterator =>
    obtain ⟨_, _, h⟩ := bind_eq_ok h
    obtain ⟨⟨es, c₁⟩, hes, h⟩ := bind_eq_ok h
    cases h
    apply RefValue.map iterator _ (Nat.min_le_right ..) .map _ .map rfl hes
    intro i e name he hname
    simp [childAt, he, IterStep.elem?, keyName_of_refKey hname]
  | boolean value =>
    obtain ⟨_, _, h⟩ := bind_eq_ok h
    cases h
    exact .leaf rfl rfl hsame
  | other =>
    obtain ⟨_, _, h⟩ := bind_eq_ok h
    cases h
    exact .leaf rfl rfl hsame
  | throwing exc => contradiction

theorem slots_of_leaf {value : JavaValue ρ} {cut : List UInt16 → List UInt16} {o : PWArgs}
    (h : leafObject cut value = some o) (path : List Nat) (key : Option (List UInt8)) :
    o.slots path key = [⟨path, key, o⟩] := by
  cases value <;> cases h <;> rfl

theorem takesElements_of_leaf {value : JavaValue ρ} {cut : List UInt16 → List UInt16}
    {o : PWArgs} (h : leafObject cut value = some o) (room : Nat) :
    TakesElements room value o.length := by
  cases value <;> cases h <;> exact .leaf rfl

theorem one_le_maxSlots (depth : Nat) (remaining : Int) : 1 ≤ maxSlots depth remaining :=
  Nat.le_max_left ..

theorem valueAt_concat {part : Part ρ} (h : valueAt heap (none, root) path = some part)
    (hchild : childAt (heap part.2) i = some child) :
    valueAt heap (none, root) (path ++ [i]) = some child := by
  rw [valueAt_append, h, Option.bind_some, valueAt, hchild]
  rfl

theorem countElement_le (limits : WafLimits) (name : Option (List UInt16)) (c : Counters) :
    c.Le (countElement limits name c) :=
  .of_metrics (countElement_metrics limits name c)
    fun _ => ⟨Nat.le_add_right .., Nat.le_refl _, Nat.le_refl _⟩

theorem countCutOff_le (c : Counters) : c.Le (countCutOff c) := by
  unfold Ddwaf.countCutOff
  split
  . exact .of_metrics rfl fun m => ⟨Nat.le_refl _, Nat.le_succ _, Nat.le_refl _⟩
  . exact .of_metrics rfl fun m => ⟨Nat.le_refl _, Nat.le_refl _, Nat.le_succ _⟩

theorem refCutOff_le {o : PWArgs} (h : refCutOff name c = .ok (o, c')) : c.Le c' := by
  obtain ⟨_, _, h⟩ := bind_eq_ok h
  cases h
  exact countCutOff_le c

theorem refEntry_le {item : RefItem ρ}
    (hitem : ∀ name v c o c', item name v c = .ok (o, c') → c.Le c') {e : JavaKey × ρ}
    {b : NamedPWArgs} (h : refEntry limits item e c = .ok (b, c')) : c.Le c' := by
  obtain ⟨name, _, h⟩ := bind_eq_ok h
  obtain ⟨⟨o, c₁⟩, ho, h⟩ := bind_eq_ok h
  cases h
  exact hitem name _ c o _ ho

theorem countElement_le_refTree {depth : Nat} {o : PWArgs}
    (h : refTree limits heap depth name v c = .ok (o, c')) : (countElement limits name c).Le c' := by
  induction depth generalizing name v c c' o with
  | zero => exact refCutOff_le h
  | succ depth ih =>
    have hitem : ∀ name v c o c', refTree limits heap depth name v c = .ok (o, c') → c.Le c' :=
      fun name _ c _ _ h => (countElement_le limits name c).trans (ih h)
    rw [refTree] at h
    split at h
    . exact refCutOff_le h
    . cases refValue_cases h with
      | leaf _ _ hmetrics =>
        exact .of_metrics hmetrics fun _ => ⟨Nat.le_add_right .., Nat.le_refl _, Nat.le_refl _⟩
      | array _ _ _ _ _ _ _ hos => exact refElements_le (hitem none) hos
      | map _ _ _ _ _ _ _ hes => exact refElements_le (fun _ _ _ _ => refEntry_le hitem) hes

theorem refTree_le {depth : Nat} {o : PWArgs}
    (h : refTree limits heap depth name v c = .ok (o, c')) : c.Le c' :=
  (countElement_le limits name c).trans (countElement_le_refTree h)

theorem At.container {item : α → Counters → Except Stop (β × Counters)}
    {iterator : Nat → IterStep α} (slots : Nat → β → List Slot) (slotsAll : Nat → List β → List Slot)
    (hat : At limits heap root path key name v c pos)
    (hge : ¬(countElement limits name c).remaining < 0) (hle : path.length ≤ limits.maxDepth)
    {depth size : Nat} {bs : List β} {o : PWArgs}
    (hroom : Room (maxSlots (depth + 1) c.remaining) c c')
    (hnil : ∀ i, slotsAll i [] = [])
    (hcons : ∀ i b bs, slotsAll i (b :: bs) = slots i b ++ slotsAll (i + 1) bs)
    (hitemLe : ∀ a c b c', item a c = .ok (b, c') → c.Le c')
    (hitem : ItemCounted limits heap root depth item iterator slots)
    (hsize : size ≤ (countElement limits name c).remaining.toNat)
    (htakes : TakesElements (countElement limits name c).remaining.toNat (heap v) size)
    (hser : SerializedAs (·.take limits.maxStringSize) (heap v) o)
    (hcut : cutsString limits (heap v) = false) (hlength : o.length = bs.length)
    (hbs : refElements item iterator size 0 size (countElement limits name c) = .ok (bs, c')) :
    Counted limits heap root pos c (⟨path, key, o⟩ :: slotsAll 0 bs) c' ∧
      (⟨path, key, o⟩ :: slotsAll 0 bs : List Slot).length ≤ maxSlots (depth + 1) c.remaining := by
  have hremaining := hat.remaining
  have hpos := hat.pos
  rw [hremaining] at hsize
  have hstep : 1 + maxSlotsAll depth (c.remaining - 1) size ≤ maxSlots (depth + 1) c.remaining :=
    maxSlots_step (by omega) hsize
  rw [← hremaining] at hstep
  have hroom₁ : Room (maxSlotsAll depth (countElement limits name c).remaining size)
      (countElement limits name c) c' := by
    rcases hroom with hroom | ⟨-, hclean⟩
    . exact Or.inl (by omega)
    . exact Or.inr ⟨by omega, (hclean.split (countElement_le limits name c)
        (refElements_le hitemLe hbs)).2⟩
  have hpos₁ : (countElement limits name c).remaining =
      limits.maxElements - ((pos + 1 : Nat) : Int) := by
    omega
  obtain ⟨hcounted, hlen, hcount⟩ :=
    refElements_counted hnil hcons hitemLe hitem hpos₁ hroom₁ hbs
  have hself : Counted limits heap root pos c [⟨path, key, o⟩] (countElement limits name c) := by
    apply hat.within hge hle hser
    . rw [hlength, hcount]
      exact htakes
    . rfl
    . rw [hcut]
      simp
  refine ⟨hself.append hcounted, ?_⟩
  rw [List.length_cons]
  omega

theorem At.child (hat : At limits heap root path key name v c pos)
    (hchild : childAt (heap v) i = some (name', v')) {key' : Option (List UInt8)}
    (hkey : key' = (refName limits name').map utf8)
    (hle : path.length ≤ limits.maxDepth) {c₁ c₂ : Counters} {pos₁ depth : Nat}
    (hpos : c₁.remaining = limits.maxElements - (pos₁ : Int))
    (hroom : Room (maxSlots depth c₁.remaining) c₁ c₂) :
    At limits heap root (path ++ [i]) key' name' v' c₁ pos₁ := by
  constructor
  . exact valueAt_concat hat.part hchild
  . exact hkey
  . rw [List.length_append, List.length_singleton]
    omega
  . exact hpos
  . exact hroom.lt (one_le_maxSlots ..)

theorem refTree_counted (depth : Nat) {o : PWArgs}
    (hdepth : depth + path.length = limits.maxDepth + 1)
    (hat : At limits heap root path key name v c pos)
    (hroom : Room (maxSlots depth c.remaining) c c')
    (h : refTree limits heap depth name v c = .ok (o, c')) :
    Counted limits heap root pos c (o.slots path key) c' ∧
      (o.slots path key).length ≤ maxSlots depth c.remaining := by
  -- The induction is on the levels that are left; the elements of a container are one level below it.
  induction depth generalizing path key name v c pos o c' with
  | zero =>
    obtain ⟨rfl, hcounted⟩ := hat.cutOff (Or.inr (by omega)) h
    exact ⟨hcounted, one_le_maxSlots ..⟩
  | succ depth ih =>
    rw [refTree] at h
    split at h
    . next hlt =>
      obtain ⟨rfl, hcounted⟩ := hat.cutOff (Or.inl hlt) h
      exact ⟨hcounted, one_le_maxSlots ..⟩
    . next hge =>
      have hle : path.length ≤ limits.maxDepth := by omega
      cases refValue_cases h with
      | leaf hleaf hrem hmetrics =>
        rw [slots_of_leaf hleaf]
        exact ⟨hat.within hge hle (.leaf hleaf) (takesElements_of_leaf hleaf _) hrem hmetrics,
          one_le_maxSlots ..⟩
      | array iterator size hsize htakes hchild hser hcut hos =>
        apply hat.container (fun i o => o.slots (path ++ [i]) none) (PWArgs.slotsArray path) hge
          hle hroom (fun _ => rfl) (fun _ _ _ => rfl) (fun _ _ _ _ => refTree_le) _ hsize htakes hser
          hcut rfl hos
        intro i a c₁ pos₁ b c₂ ha hpos₁ hroom₁ hb
        apply ih _ (hat.child (hchild i a ha) rfl hle hpos₁ hroom₁) hroom₁ hb
        rw [List.length_append, List.length_singleton]
        omega
      | map iterator size hsize htakes hchild hser hcut hes =>
        apply hat.container (fun i e => e.2.slots (path ++ [i]) e.1) (PWArgs.slotsMap path)
          hge hle hroom (fun _ => rfl) (fun _ _ _ => rfl)
          (fun _ _ _ _ => refEntry_le fun _ _ _ _ _ => refTree_le) _ hsize htakes hser
          hcut rfl hes
        intro i e c₁ pos₁ b c₂ he hpos₁ hroom₁ hb
        obtain ⟨key', hkey', hb⟩ := bind_eq_ok hb
        obtain ⟨⟨o', c₃⟩, ho', hb⟩ := bind_eq_ok hb
        cases hb
        apply ih _ (hat.child (hchild i e key' he hkey') rfl hle hpos₁ hroom₁) hroom₁ ho'
        rw [List.length_append, List.length_singleton]
        omega

end Count

end Ddwaf
