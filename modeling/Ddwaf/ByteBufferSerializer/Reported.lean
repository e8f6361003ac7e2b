import Ddwaf.ByteBufferSerializer.Limits
import Ddwaf.Lib.Preorder

/-!
This module contains when the metrics tell that something of a value has been left out.
-/

namespace Ddwaf

open Memory SerializerState Program Preorder

variable {ρ : Type}

/--
A collection has no more elements than its size says, and an iterable has no more of them when it is
iterated again.
-/
def TrueSize : JavaValue ρ → Prop
  | .collection size iterator => ∀ i, (iterator i).elem?.isSome → i < size
  | .iterable first second => ∀ n i, (first n).elem? = none → n ≤ i → (second i).elem? = none
  | .map size iterator => ∀ i, (iterator i).elem?.isSome → i < size
  | _ => True

section Parts

variable (limits : WafLimits) (heap : ρ → JavaValue ρ) (root : ρ)

def nodes : Set (List Nat) := {path | ∃ part, valueAt heap (none, root) path = some part}

def IsKept (path : List Nat) : Prop :=
  ∀ (parent : List Nat) (i : Nat), path = parent ++ [i] →
    position (nodes heap root) parent + 1 + i < (limits.maxElements : ℕ∞)

def OverLimit (path : List Nat) : Prop :=
  limits.maxElements ≤ position (nodes heap root) path ∨ limits.maxDepth < path.length ∨
    ∃ part, valueAt heap (none, root) path = some part ∧
      (part.1.any (isCut limits) ∨ cutsString limits (heap part.2))

variable {limits heap root}

theorem mem_nodes {path : List Nat} {part : Part ρ} (h : valueAt heap (none, root) path = some part) :
    path ∈ nodes heap root := ⟨part, h⟩

theorem childAt_of_mem_nodes {path p : List Nat} {part : Part ρ} {i : Nat}
    (h : valueAt heap (none, root) path = some part) (hp : p ∈ nodes heap root)
    (hpre : path ++ [i] <+: p) : (childAt (heap part.2) i).isSome := by
  obtain ⟨⟨suffix, rfl⟩, part', hpart'⟩ := hpre, hp
  rw [List.append_assoc, valueAt_append, h, Option.bind_some] at hpart'
  cases hchild : childAt (heap part.2) i with
  | none =>
    rw [List.cons_append, valueAt, hchild] at hpart'
    contradiction
  | some child => rfl

theorem childAt_of_leaf {value : JavaValue ρ} {cut : List UInt16 → List UInt16} {o : PWArgs}
    (h : leafObject cut value = some o) (i : Nat) : childAt value i = none := by
  cases value <;> first | contradiction | rfl

theorem refCount_eq {iterator : Nat → IterStep α} {i room n : Nat}
    (h : refCount iterator i room = .ok n) : n = room ∨ (iterator (i + n)).elem? = none := by
  induction room generalizing i n with
  | zero => exact Or.inl (Nat.le_zero.mp (refCount_le h))
  | succ room ih =>
    rw [refCount] at h
    split at h
    . next hdone =>
      cases h
      right
      rw [Nat.add_zero, hdone]
      rfl
    . contradiction
    . contradiction
    . obtain ⟨n', hn', h⟩ := bind_eq_ok h
      cases h
      rcases ih hn' with hroom | hnone
      . exact Or.inl (by rw [hroom])
      . right
        rw [show i + (n' + 1) = i + 1 + n' by omega]
        exact hnone

theorem TakesElements.all {value : JavaValue ρ} {room n : Nat} (h : TakesElements room value n)
    (htrue : TrueSize value) : n = room ∨ ∀ i, (childAt value i).isSome → i < n := by
  cases h with
  | leaf h =>
    right
    intro i hi
    rw [childAt_of_leaf h] at hi
    contradiction
  | @collection size iterator =>
    by_cases hle : size ≤ room
    . right
      rw [Nat.min_eq_left hle]
      intro i hi
      apply htrue
      simpa [childAt] using hi
    . left
      omega
  | @array elements =>
    by_cases hle : elements.length ≤ room
    . right
      rw [Nat.min_eq_left hle]
      intro i hi
      simpa [childAt] using hi
    . left
      omega
  | @iterable first _ second h =>
    rcases refCount_eq h with hroom | hnone
    . exact Or.inl hroom
    . right
      intro i hi
      rw [Nat.zero_add] at hnone
      by_contra hge
      have := htrue n i hnone (by omega)
      simp [childAt, this] at hi
  | @map size iterator =>
    by_cases hle : size ≤ room
    . right
      rw [Nat.min_eq_left hle]
      intro i hi
      apply htrue
      simpa [childAt] using hi
    . left
      omega

end Parts

section Traversal

variable {limits : WafLimits} {heap : ρ → JavaValue ρ} {root : ρ}

/--
What has become of the nodes with `P`: nothing is counted and all of them are within the limits, but
for those that the sizes leave out, or something is counted. The nodes up to the last of them are
`s`.
-/
inductive Traversed (limits : WafLimits) (heap : ρ → JavaValue ρ) (root : ρ) (s : Set (List Nat))
    (P : List Nat → Prop) (pos : Nat) (c c' : Counters) : Prop where
  | within (pos' : Nat) (hmetrics : c'.metrics = c.metrics)
      (hremaining : c'.remaining = limits.maxElements - (pos' : Int)) (hle : pos ≤ pos')
      (hcounts : Counts limits.maxElements s pos')
      (hok : ∀ p ∈ nodes heap root, P p → IsKept limits heap root p → ¬OverLimit limits heap root p)
  | reported (hreported : ¬Clean c c') (p : List Nat) (hp : p ∈ nodes heap root)
      (hkept : IsKept limits heap root p) (hover : OverLimit limits heap root p)

theorem not_clean_of_count {c c₁ c' : Counters} {f : WafMetrics → WafMetrics}
    (hmetrics : c₁.metrics = c.metrics.map f) (hf : ∀ m : WafMetrics, m.Le (f m))
    (hne : ∀ m, f m ≠ m) (hle : c₁.Le c') : ¬Clean c c' := by
  intro h
  obtain ⟨⟨m, hm, hm₁⟩, -⟩ := h.split (.of_metrics hmetrics hf) hle
  rw [hmetrics, hm, Option.map_some, Option.some.injEq] at hm₁
  exact hne m hm₁

theorem not_isKept_behind {path p : List Nat} {pos k : Nat}
    (hpos : position (nodes heap root) path = pos) (hk : limits.maxElements ≤ pos + 1 + k)
    (hcounts : Counts limits.maxElements (before (nodes heap root) (path ++ [k]))
      limits.maxElements) {i : Nat} (hi : k ≤ i) (hpre : path ++ [i] <+: p) :
    ¬IsKept limits heap root p := by
  intro hkept
  obtain ⟨suffix, rfl⟩ := hpre
  rcases List.eq_nil_or_concat' suffix with rfl | ⟨suffix, j, rfl⟩
  . rw [List.append_nil] at hkept
    have hlt := hkept path i rfl
    rw [hpos] at hlt
    have : pos + 1 + i < limits.maxElements := by exact_mod_cast hlt
    omega
  . have hlt := hkept (path ++ [i] ++ suffix) j (by simp)
    have hle : (limits.maxElements : ℕ∞) ≤ position (nodes heap root) (path ++ [i] ++ suffix) :=
      hcounts.le.trans (Set.encard_le_encard
        ((before_concat_mono hi).trans (before_subset (List.prefix_append ..))))
    apply lt_irrefl (limits.maxElements : ℕ∞)
    apply lt_of_le_of_lt hle
    apply lt_of_le_of_lt _ hlt
    rw [add_assoc]
    exact le_self_add

theorem refElements_traversed {item : α → Counters → Except Stop (β × Counters)}
    {iterator : Nat → IterStep α} {size i n pos : Nat} {path : List Nat} {c c' : Counters}
    {bs : List β} (hle : ∀ a c b c', item a c = .ok (b, c') → c.Le c')
    (hitem : ∀ (j : Nat) a c (pos : Nat) b c', j < i + n → iterator j = .elem a →
      c.remaining = limits.maxElements - (pos : Int) →
      Counts limits.maxElements (before (nodes heap root) (path ++ [j])) pos →
      item a c = .ok (b, c') →
      Traversed limits heap root (upTo (nodes heap root) (path ++ [j])) (path ++ [j] <+: ·) (pos + 1)
        c c')
    (hpos : c.remaining = limits.maxElements - (pos : Int))
    (hcounts : Counts limits.maxElements (before (nodes heap root) (path ++ [i])) pos)
    (h : refElements item iterator size i n c = .ok (bs, c')) :
    Traversed limits heap root (before (nodes heap root) (path ++ [i + n]))
      (fun p => ∃ j, i ≤ j ∧ j < i + n ∧ path ++ [j] <+: p) (pos + n) c c' := by
  induction n generalizing i pos c bs with
  | zero =>
    obtain ⟨-, rfl⟩ := refElements_zero_ok h
    apply Traversed.within pos rfl hpos (Nat.le_refl pos) hcounts
    rintro p - ⟨j, hge, hlt, -⟩
    omega
  | succ n ih =>
    obtain ⟨a, b, c₁, bs', ha, hb, hbs, -⟩ := refElements_succ_ok h
    have hle₁ := hle a c b c₁ hb
    have hle₂ := refElements_le hle hbs
    cases hitem i a c pos b c₁ (by omega) ha hpos hcounts hb with
    | reported hreported p hp hkept hover =>
      exact .reported (fun hclean => hreported (hclean.split hle₁ hle₂).1) p hp hkept hover
    | within pos₁ hmetrics hremaining hlt hcounts₁ hok =>
      rw [← before_concat_succ] at hcounts₁
      rw [show i + (n + 1) = i + 1 + n by omega] at hitem ⊢
      cases ih hitem hremaining hcounts₁ hbs with
      | reported hreported p hp hkept hover =>
        exact .reported (fun hclean => hreported (hclean.split hle₁ hle₂).2) p hp hkept hover
      | within pos₂ hmetrics₂ hremaining₂ hlt₂ hcounts₂ hok₂ =>
        apply Traversed.within pos₂ (hmetrics₂.trans hmetrics) hremaining₂ (by omega) hcounts₂
        rintro p hp ⟨j, hge, hjlt, hpre⟩
        by_cases heq : j = i
        . subst heq
          exact hok p hp hpre
        . exact hok₂ p hp ⟨j, by omega, hjlt, hpre⟩

theorem isKept_concat {path : List Nat} {pos i : Nat}
    (hpos : position (nodes heap root) path = pos) (h : pos + 1 + i < limits.maxElements) :
    IsKept limits heap root (path ++ [i]) := by
  intro parent j heq
  obtain ⟨rfl, hij⟩ := List.append_inj' heq rfl
  cases hij
  rw [hpos]
  exact_mod_cast h

structure Unreported (limits : WafLimits) (heap : ρ → JavaValue ρ) (root : ρ) (path : List Nat)
    (v : ρ) (pos : Nat) (c c₁ : Counters) : Prop where
  mem : path ∈ nodes heap root
  lt : pos < limits.maxElements
  counts : Counts limits.maxElements (before (nodes heap root) path) pos
  ok : ¬OverLimit limits heap root path
  metrics : c₁.metrics = c.metrics
  remaining : c₁.remaining = limits.maxElements - ((pos + 1 : Nat) : Int)
  child : ∀ p ∈ nodes heap root, ∀ i, path ++ [i] <+: p → (childAt (heap v) i).isSome

namespace Unreported

variable {path : List Nat} {v : ρ} {pos : Nat} {c c₁ c' : Counters}

theorem counts_zero (h : Unreported limits heap root path v pos c c₁) :
    Counts limits.maxElements (before (nodes heap root) (path ++ [0])) (pos + 1) := by
  rw [before_concat_zero h.mem]
  apply h.counts.insert h.lt
  intro hmem
  exact List.lt_irrefl path hmem.2

theorem position_eq (h : Unreported limits heap root path v pos c c₁) :
    position (nodes heap root) path = pos := h.counts.encard_eq h.lt

theorem leaf (h : Unreported limits heap root path v pos c c₁)
    (hchild : ∀ i, childAt (heap v) i = none) :
    Traversed limits heap root (upTo (nodes heap root) path) (path <+: ·) (pos + 1) c c₁ := by
  have hnone : ∀ p ∈ nodes heap root, ∀ i, ¬path ++ [i] <+: p := by
    intro p hp i hpre
    have := h.child p hp i hpre
    rw [hchild i] at this
    contradiction
  apply Traversed.within (pos + 1) h.metrics h.remaining (Nat.le_refl _)
  . rw [← before_concat_eq_upTo fun p hp i hi => absurd hi (hnone p hp i)]
    exact h.counts_zero
  . intro p hp hpre _
    rcases prefix_cases hpre with rfl | ⟨i, hi⟩
    . exact h.ok
    . exact absurd hi (hnone p hp i)

theorem container {item : α → Counters → Except Stop (β × Counters)} {iterator : Nat → IterStep α}
    {size : Nat} {bs : List β} (h : Unreported limits heap root path v pos c c₁)
    (hle : ∀ a c b c', item a c = .ok (b, c') → c.Le c')
    (hsize : size ≤ c₁.remaining.toNat)
    (hall : size = c₁.remaining.toNat ∨ ∀ i, (childAt (heap v) i).isSome → i < size)
    (hitem : ∀ (j : Nat) a c (pos : Nat) b c', IsKept limits heap root (path ++ [j]) →
      iterator j = .elem a → c.remaining = limits.maxElements - (pos : Int) →
      Counts limits.maxElements (before (nodes heap root) (path ++ [j])) pos →
      item a c = .ok (b, c') →
      Traversed limits heap root (upTo (nodes heap root) (path ++ [j])) (path ++ [j] <+: ·) (pos + 1)
        c c')
    (hbs : refElements item iterator size 0 size c₁ = .ok (bs, c')) :
    Traversed limits heap root (upTo (nodes heap root) path) (path <+: ·) (pos + 1) c c' := by
  have hlt := h.lt
  have hroom : c₁.remaining.toNat = limits.maxElements - 1 - pos := by
    rw [h.remaining]
    omega
  rw [hroom] at hsize hall
  have hitem₀ : ∀ (j : Nat) a c (pos : Nat) b c', j < 0 + size → iterator j = .elem a →
      c.remaining = limits.maxElements - (pos : Int) →
      Counts limits.maxElements (before (nodes heap root) (path ++ [j])) pos →
      item a c = .ok (b, c') →
      Traversed limits heap root (upTo (nodes heap root) (path ++ [j])) (path ++ [j] <+: ·) (pos + 1)
        c c' := by
    intro j a c₂ pos₂ b c₃ hj
    apply hitem j a c₂ pos₂ b c₃ (isKept_concat h.position_eq _)
    omega
  cases refElements_traversed hle hitem₀ h.remaining h.counts_zero hbs with
  | reported hreported p hp hkept hover =>
    refine .reported (fun hclean => hreported ?_) p hp hkept hover
    obtain ⟨m, hm, hm'⟩ := hclean
    exact ⟨m, h.metrics.trans hm, hm'⟩
  | within pos' hmetrics hremaining hpos' hcounts hok =>
    rw [Nat.zero_add] at hcounts
    apply Traversed.within pos' (hmetrics.trans h.metrics) hremaining (by omega)
    . rcases hall with hsize | hall
      . have hfull : pos' = limits.maxElements := by
          have := hcounts.le_right
          omega
        rw [hfull] at hcounts ⊢
        exact hcounts.mono before_concat_subset
      . rw [← before_concat_eq_upTo fun p hp i hi => hall i (h.child p hp i hi)]
        exact hcounts
    . intro p hp hpre hkept
      rcases prefix_cases hpre with rfl | ⟨i, hi⟩
      . exact h.ok
      . by_cases hlt : i < size
        . exact hok p hp ⟨i, Nat.zero_le i, by omega, hi⟩ hkept
        . rcases hall with hsize | hall
          . have hfull : pos' = limits.maxElements := by
              have := hcounts.le_right
              omega
            rw [hfull] at hcounts
            exact absurd hkept
              (not_isKept_behind h.position_eq (by omega) hcounts (by omega) hi)
          . exact absurd (hall i (h.child p hp i hi)) hlt

end Unreported

theorem countElement_remaining_pos (name : Option (List UInt16)) {pos : Nat} {c : Counters}
    (hpos : c.remaining = limits.maxElements - (pos : Int)) (hle : pos ≤ limits.maxElements) :
    (countElement limits name c).remaining = limits.maxElements - ((pos + 1 : Nat) : Int) := by
  have := limits.maxElements_le
  unfold intMax at this
  rw [countElement_remaining (by omega) (by omega) name]
  omega

theorem not_clean_cutOff (limits : WafLimits) (name : Option (List UInt16)) (c : Counters) :
    ¬Clean c (countCutOff (countElement limits name c)) := by
  intro hclean
  obtain ⟨-, ⟨a, b, d⟩, hm, hm'⟩ := hclean.split (countElement_le limits name c) (countCutOff_le _)
  unfold countCutOff at hm'
  split at hm'
  . simp [Counters.count, hm] at hm'
  . simp [Counters.count, hm] at hm'

theorem not_clean_of_cut {c c₁ c' : Counters} {cut : Bool}
    (hmetrics : c₁.metrics = c.metrics.map fun m =>
      { m with truncatedStringTooLongCount := m.truncatedStringTooLongCount + cut.toNat })
    (hcut : cut = true) (hle : c₁.Le c') : ¬Clean c c' := by
  apply not_clean_of_count hmetrics (fun m => ⟨Nat.le_add_right .., Nat.le_refl _, Nat.le_refl _⟩) _ hle
  intro m
  rw [hcut]
  intro heq
  simpa using congrArg WafMetrics.truncatedStringTooLongCount heq

theorem RefValue.not_clean {item : RefItem ρ} {value : JavaValue ρ} {c c' : Counters}
    {o : PWArgs} (h : RefValue limits item value c o c') (hstring : cutsString limits value) :
    ¬Clean c c' := by
  cases h with
  | leaf hleaf hrem hmetrics => exact not_clean_of_cut hmetrics hstring (.refl _)
  | array _ _ _ _ _ _ hcut =>
    rw [hcut] at hstring
    contradiction
  | map _ _ _ _ _ _ hcut =>
    rw [hcut] at hstring
    contradiction

theorem metrics_of_uncut {c c₁ : Counters} {cut : Bool}
    (hmetrics : c₁.metrics = c.metrics.map fun m =>
      { m with truncatedStringTooLongCount := m.truncatedStringTooLongCount + cut.toNat })
    (hcut : ¬cut = true) : c₁.metrics = c.metrics := by
  rw [hmetrics, Bool.eq_false_iff.mpr hcut]
  simp

theorem Unreported.of_uncut {path : List Nat} {name : Option (List UInt16)} {v : ρ} {pos : Nat}
    {c : Counters} (hpart : valueAt heap (none, root) path = some (name, v))
    (hlt : pos < limits.maxElements) (hlevel : path.length ≤ limits.maxDepth)
    (hpos : c.remaining = limits.maxElements - (pos : Int))
    (hcounts : Counts limits.maxElements (before (nodes heap root) path) pos)
    (hname : ¬name.any (isCut limits)) (hstring : ¬cutsString limits (heap v)) :
    Unreported limits heap root path v pos c (countElement limits name c) where
  mem := mem_nodes hpart
  lt := hlt
  counts := hcounts
  ok := by
    rintro (hover | hover | ⟨part, hpart', hover⟩)
    . have hposition : position (nodes heap root) path = pos := hcounts.encard_eq hlt
      rw [hposition] at hover
      have : limits.maxElements ≤ pos := by exact_mod_cast hover
      omega
    . omega
    . rw [hpart, Option.some.injEq] at hpart'
      subst hpart'
      rcases hover with hover | hover
      . exact hname hover
      . exact hstring hover
  metrics := metrics_of_uncut (countElement_metrics limits name c) hname
  remaining := countElement_remaining_pos name hpos hcounts.le_right
  child p hp i hpre := childAt_of_mem_nodes hpart hp hpre

theorem refTree_traversed (depth : Nat) {path : List Nat} {name : Option (List UInt16)} {v : ρ}
    {pos : Nat} {c c' : Counters} {o : PWArgs}
    (htrue : ∀ path part, valueAt heap (none, root) path = some part → TrueSize (heap part.2))
    (hdepth : depth + path.length = limits.maxDepth + 1)
    (hpart : valueAt heap (none, root) path = some (name, v)) (hkept : IsKept limits heap root path)
    (hpos : c.remaining = limits.maxElements - (pos : Int))
    (hcounts : Counts limits.maxElements (before (nodes heap root) path) pos)
    (h : refTree limits heap depth name v c = .ok (o, c')) :
    Traversed limits heap root (upTo (nodes heap root) path) (path <+: ·) (pos + 1) c c' := by
  -- The induction is on the levels that are left. Up to the first thing that is counted, the slots are
  -- the nodes in pre-order, and a node that the size of its container leaves out is behind all of these.
  induction depth generalizing path name v pos c o c' with
  | zero =>
    obtain ⟨_, _, hcut⟩ := bind_eq_ok h
    cases hcut
    refine .reported (not_clean_cutOff limits name c) path (mem_nodes hpart) hkept (Or.inr (Or.inl ?_))
    omega
  | succ depth ih =>
    have hrest := countElement_le_refTree h
    have hremaining := countElement_remaining_pos name hpos hcounts.le_right
    rw [refTree] at h
    split at h
    . next hlt =>
      obtain ⟨_, _, hcut⟩ := bind_eq_ok h
      cases hcut
      refine .reported (not_clean_cutOff limits name c) path (mem_nodes hpart) hkept (Or.inl ?_)
      have hfull : pos = limits.maxElements := by
        have := hcounts.le_right
        omega
      rw [hfull] at hcounts
      exact hcounts.le
    . next hge =>
      by_cases hname : name.any (isCut limits)
      . exact .reported (not_clean_of_cut (countElement_metrics limits name c) hname hrest) path
          (mem_nodes hpart) hkept (Or.inr (Or.inr ⟨(name, v), hpart, Or.inl hname⟩))
      . by_cases hstring : cutsString limits (heap v)
        . refine .reported (fun hclean => (refValue_cases h).not_clean hstring ?_) path
            (mem_nodes hpart) hkept (Or.inr (Or.inr ⟨(name, v), hpart, Or.inr hstring⟩))
          exact (hclean.split (countElement_le limits name c) hrest).2
        . have hun := Unreported.of_uncut hpart (by omega) (by omega) hpos hcounts hname hstring
          have hlen : ∀ i, depth + (path ++ [i]).length = limits.maxDepth + 1 := by
            intro i
            rw [List.length_append, List.length_singleton]
            omega
          cases refValue_cases h with
          | leaf hleaf hrem hmetrics' =>
            apply Unreported.leaf _ (childAt_of_leaf hleaf)
            exact { hun with
              metrics := (metrics_of_uncut hmetrics' hstring).trans hun.metrics
              remaining := hrem.trans hremaining }
          | array iterator size hsize htakes hchild _ _ hos =>
            apply hun.container (fun _ _ _ _ => refTree_le) hsize (htakes.all (htrue path _ hpart)) _
              hos
            intro j a c₁ pos₁ b c₂ hkept₁ ha hpos₁ hcounts₁ hb
            exact ih (hlen j) (valueAt_concat hpart (hchild j a ha)) hkept₁ hpos₁ hcounts₁ hb
          | map iterator size hsize htakes hchild _ _ hes =>
            apply hun.container (fun _ _ _ _ => refEntry_le fun _ _ _ _ _ => refTree_le) hsize
              (htakes.all (htrue path _ hpart)) _ hes
            intro j e c₁ pos₁ b c₂ hkept₁ he hpos₁ hcounts₁ hb
            obtain ⟨key, hkey, hb⟩ := bind_eq_ok hb
            obtain ⟨⟨o', c₃⟩, ho', hb⟩ := bind_eq_ok hb
            cases hb
            exact ih (hlen j) (valueAt_concat hpart (hchild j e key he hkey)) hkept₁ hpos₁ hcounts₁ ho'

end Traversal

section Paths

theorem nodup_paths {slots : Nat → β → List Slot} {slotsAll : Nat → List β → List Slot}
    {path : List Nat} (hnil : ∀ i, slotsAll i [] = [])
    (hcons : ∀ i b bs, slotsAll i (b :: bs) = slots i b ++ slotsAll (i + 1) bs) (bs : List β)
    (hitem : ∀ i, ∀ b ∈ bs, (∀ slot ∈ slots i b, path ++ [i] <+: slot.path) ∧
      ((slots i b).map Slot.path).Nodup) (i : Nat) :
    (∀ slot ∈ slotsAll i bs, ∃ j, i ≤ j ∧ path ++ [j] <+: slot.path) ∧
      ((slotsAll i bs).map Slot.path).Nodup := by
  induction bs generalizing i with
  | nil => simp [hnil]
  | cons b bs ih =>
    obtain ⟨hpre, hnodup⟩ := hitem i b List.mem_cons_self
    obtain ⟨hprefixes, hnodups⟩ :=
      ih (fun i b hb => hitem i b (List.mem_cons_of_mem _ hb)) (i + 1)
    rw [hcons]
    constructor
    . intro slot hslot
      rcases List.mem_append.mp hslot with hslot | hslot
      . exact ⟨i, Nat.le_refl i, hpre slot hslot⟩
      . obtain ⟨j, hge, hj⟩ := hprefixes slot hslot
        exact ⟨j, by omega, hj⟩
    . rw [List.map_append, List.nodup_append]
      refine ⟨hnodup, hnodups, ?_⟩
      intro p hp q hq heq
      obtain ⟨slot, hslot, rfl⟩ := List.mem_map.mp hp
      obtain ⟨slot', hslot', rfl⟩ := List.mem_map.mp hq
      obtain ⟨j, hge, hj⟩ := hprefixes slot' hslot'
      have hi := hpre slot hslot
      rw [heq] at hi
      have hsame := List.prefix_of_prefix_length_le hi hj (by simp)
      rw [List.prefix_append_right_inj, List.cons_prefix_cons] at hsame
      omega

theorem slots_paths (o : PWArgs) : ∀ path key,
    (∀ slot ∈ o.slots path key, path <+: slot.path) ∧
      ((o.slots path key).map Slot.path).Nodup := by
  have hcontainer : ∀ (path : List Nat) (slot : Slot) (S : List Slot), slot.path = path →
      ((∀ slot ∈ S, ∃ j, 0 ≤ j ∧ path ++ [j] <+: slot.path) ∧ (S.map Slot.path).Nodup) →
      (∀ slot' ∈ slot :: S, path <+: slot'.path) ∧ ((slot :: S).map Slot.path).Nodup := by
    rintro path slot S rfl ⟨hpre, hnodup⟩
    constructor
    . intro slot' hslot'
      rcases List.mem_cons.mp hslot' with rfl | hmem
      . exact List.prefix_refl _
      . obtain ⟨j, -, hj⟩ := hpre slot' hmem
        exact (List.prefix_append _ _).trans hj
    . rw [List.map_cons, List.nodup_cons]
      refine ⟨?_, hnodup⟩
      intro hmem
      obtain ⟨slot', hslot', heq⟩ := List.mem_map.mp hmem
      obtain ⟨j, -, hj⟩ := hpre slot' hslot'
      have := hj.length_le
      rw [heq, List.length_append, List.length_singleton] at this
      omega
  induction o using PWArgs.ind with
  | array a ih =>
    intro path key
    apply hcontainer path _ _ rfl
    have hnil : ∀ i, PWArgs.slotsArray path i [] = [] := fun _ => rfl
    exact nodup_paths hnil (fun _ _ _ => rfl) a (fun i o ho => ih o ho _ _) 0
  | map a ih =>
    intro path key
    apply hcontainer path _ _ rfl
    have hnil : ∀ i, PWArgs.slotsMap path i [] = [] := fun _ => rfl
    exact nodup_paths hnil (fun _ _ _ => rfl) a (fun i o ho => ih o ho _ _) 0
  | _ =>
    intro path key
    simp [PWArgs.slots]

end Paths

section Complete

variable {limits : WafLimits} {heap : ρ → JavaValue ρ} {root : ρ}

def Complete (heap : ρ → JavaValue ρ) (root : ρ) (o : PWArgs) : Prop :=
  ∀ path part, valueAt heap (none, root) path = some part → ∃ slot ∈ o.slots [] none,
    slot.path = path ∧ slot.key = part.1.map utf8 ∧
      SerializedAs id (heap part.2) slot.object

theorem take_of_not_isCut {units : List UInt16} (h : isCut limits units = false) :
    units.take limits.maxStringSize = units := by
  apply List.take_of_length_le
  simpa [isCut] using h

theorem SerializedAs.whole {value : JavaValue ρ} {o : PWArgs}
    (h : SerializedAs (·.take limits.maxStringSize) value o)
    (hcut : cutsString limits value = false) : SerializedAs id value o := by
  cases h with
  | leaf hleaf =>
    apply SerializedAs.leaf
    cases value with
    | charSequence s =>
      cases hleaf
      simp only [leafObject, take_of_not_isCut hcut, id]
    | _ => exact hleaf
  | collection => exact .collection
  | array => exact .array
  | iterable => exact .iterable
  | map => exact .map

theorem Counted.whole {c c' : Counters} {S : List Slot}
    (h : Counted limits heap root 0 c S c') (hclean : Clean c c') :
    ∀ slot ∈ S, ∃ part, partAt heap root slot = some part ∧
      slot.key = part.1.map utf8 ∧
      SerializedAs id (heap part.2) slot.object := by
  obtain ⟨m, hm, hm'⟩ := hclean
  have hmetrics := h.metrics
  rw [hm, hm', Option.map_some, Option.some.injEq] at hmetrics
  have hstrings := congrArg WafMetrics.truncatedStringTooLongCount hmetrics
  have hlarge := congrArg WafMetrics.truncatedListMapTooLargeCount hmetrics
  have hdeep := congrArg WafMetrics.truncatedObjectTooDeepCount hmetrics
  simp only [tally] at hstrings hlarge hdeep
  have hname : (S.zipIdx 0).countP (fun s => hasCutName limits heap root s.1) = 0 := by omega
  have hstring : (S.zipIdx 0).countP (fun s => !isTooLarge limits s.2 && !isTooDeep limits s.1 &&
    hasCutString limits heap root s.1) = 0 := by omega
  replace hlarge : (S.zipIdx 0).countP (fun s => isTooLarge limits s.2) = 0 := by omega
  replace hdeep : (S.zipIdx 0).countP (fun s =>
    !isTooLarge limits s.2 && isTooDeep limits s.1) = 0 := by omega
  rw [List.countP_eq_zero] at hname hstring hlarge hdeep
  intro slot hslot
  obtain ⟨k, hk⟩ := List.mem_iff_getElem?.mp hslot
  have hmem : (slot, k) ∈ S.zipIdx 0 := by
    rw [List.mem_zipIdx_iff_getElem?]
    exact hk
  obtain ⟨part, hpart, hkey, -, hobject⟩ := h.ok _ hmem
  have hlarge := Bool.eq_false_iff.mpr (hlarge _ hmem)
  have hdeep := hdeep _ hmem
  have hname := hname _ hmem
  have hstring := hstring _ hmem
  simp only [hlarge, Bool.not_false, Bool.true_and, Bool.not_eq_true] at hdeep
  simp only [hlarge, hdeep, Bool.not_false, Bool.true_and, hasCutString, hpart, Option.any_some,
    Bool.not_eq_true] at hstring
  simp only [hasCutName, hpart, Option.any_some, Bool.not_eq_true] at hname
  rw [if_neg (by simp [hlarge, hdeep])] at hobject
  refine ⟨part, hpart, ?_, hobject.1.whole hstring⟩
  rw [hkey]
  cases hpart₁ : part.1 with
  | none => rfl
  | some name =>
    rw [hpart₁] at hname
    rw [refName, Option.map_some, take_of_not_isCut hname]

theorem complete_iff {o : PWArgs}
    (hwhole : ∀ slot ∈ o.slots [] none, ∃ part, partAt heap root slot = some part ∧
      slot.key = part.1.map utf8 ∧ SerializedAs id (heap part.2) slot.object)
    (hcounts : Counts limits.maxElements (nodes heap root) (o.slots [] none).length) :
    Complete heap root o ↔ (nodes heap root).encard ≤ limits.maxElements := by
  have hcard : {p | p ∈ (o.slots [] none).map Slot.path}.encard = (o.slots [] none).length := by
    rw [← List.coe_toFinset, Set.encard_coe_eq_coe_finsetCard,
      List.toFinset_card_of_nodup (slots_paths o [] none).2, List.length_map]
  constructor
  . intro h
    have hsubset : nodes heap root ⊆ {p | p ∈ (o.slots [] none).map Slot.path} := by
      rintro path ⟨part, hpart⟩
      obtain ⟨slot, hslot, rfl, -⟩ := h path part hpart
      exact List.mem_map_of_mem hslot
    apply (Set.encard_le_encard hsubset).trans
    rw [hcard]
    exact_mod_cast hcounts.le_right
  . intro h path part hpart
    have hsubset : {p | p ∈ (o.slots [] none).map Slot.path} ⊆ nodes heap root := by
      intro p hp
      obtain ⟨slot, hslot, rfl⟩ := List.mem_map.mp hp
      obtain ⟨part, hpart, -⟩ := hwhole slot hslot
      exact mem_nodes hpart
    have heq := (List.finite_toSet _).eq_of_subset_of_encard_le hsubset (by
      rw [hcard, hcounts.encard_eq_of_le h])
    have hmem := mem_nodes hpart
    rw [← heq] at hmem
    obtain ⟨slot, hslot, rfl⟩ := List.mem_map.mp hmem
    obtain ⟨part', hpart', hkey, hobject⟩ := hwhole slot hslot
    rw [partAt, hpart, Option.some.injEq] at hpart'
    subst hpart'
    exact ⟨slot, hslot, rfl, hkey, hobject⟩

end Complete

/--
A call that counts nothing has lost nothing if and only if the value has at most `maxElements`
slots. A call that loses something counts it if and only if it comes to a slot that is over a limit.
-/
theorem serializeMore_reports_iff {ls : List (ArenaEvent ρ)} {s t : SerializerState} {call : Call ρ}
    {root : ByteBuffer} {m : WafMetrics} (hrun : (arenaSystem ρ).Reaches ls s)
    (hstep : arenaStep s (.serializeMore call (.ok root)) t) (hmetrics : call.metrics = some m)
    (htrue : ∀ path part, valueAt call.heap (none, call.map) path = some part →
      TrueSize (call.heap part.2)) :
    ∃ o, decode t.memory call.levels root.address = some (none, o) ∧
      ((t.metrics = some m → Complete call.heap call.map o) ↔
        (nodes call.heap call.map).encard ≤ call.limits.maxElements ∨
          ∃ path ∈ nodes call.heap call.map, IsKept call.limits call.heap call.map path ∧
            OverLimit call.limits call.heap call.map path) := by
  obtain ⟨F, o, href, hserialized⟩ :=
    (CallDone.of_step (WF.of_reaches hrun) hstep).root root rfl
  refine ⟨o, hserialized.decode t.memory fun _ _ => rfl, ?_⟩
  have hkept : IsKept call.limits call.heap call.map [] := by
    intro parent i heq
    simp at heq
  have hcounts : Counts call.limits.maxElements (before (nodes call.heap call.map) []) 0 := by
    rw [before_nil]
    exact .empty _
  have hpos : (⟨call.limits.maxElements, call.metrics⟩ : Counters).remaining =
      call.limits.maxElements - ((0 : Nat) : Int) := by
    simp
  have htraversed := refTree_traversed _ htrue (by simp) rfl hkept hpos hcounts href
  rw [upTo_nil] at htraversed
  cases htraversed with
  | reported hreported p hp hkept hover =>
    constructor
    . intro _
      exact Or.inr ⟨p, hp, hkept, hover⟩
    . intro _ hclean
      exact absurd ⟨m, hmetrics, hclean⟩ hreported
  | within pos' hsame hremaining hle hcounts hok =>
    have hclean : Clean ⟨call.limits.maxElements, call.metrics⟩ t.counters :=
      ⟨m, hmetrics, hsame.trans hmetrics⟩
    obtain ⟨hcounted, -⟩ := Call.counted href (Or.inr ⟨Int.natCast_nonneg _, hclean⟩)
    have hlength : pos' = (o.slots [] none).length := by
      have := hcounted.remaining
      rw [hremaining] at this
      simp only at this
      omega
    rw [hlength] at hcounts
    rw [← complete_iff (hcounted.whole hclean) hcounts]
    constructor
    . intro h
      exact Or.inl (h (hsame.trans hmetrics))
    . rintro (h | ⟨p, hp, hkept, hover⟩) _
      . exact h
      . exact absurd hover (hok p hp (List.nil_prefix) hkept)

def smallCall : Call Bool where
  alloc := bumpAllocator
  limits := { WafLimits.sample with maxElements := 1, maxElements_le := by decide }
  heap := sampleHeap
  map := true
  metrics := some ⟨0, 0, 0⟩

theorem smallCall_reference : smallCall.reference = .ok (.map [], ⟨0, some ⟨0, 0, 0⟩⟩) := by
  rfl

theorem smallCall_returns : ∃ t root, exec smallCall.program freshState = (.ok root, t) := by
  have hok : (exec smallCall.program freshState).1.isOk = true := by
    decide +kernel
  cases hexec : exec smallCall.program freshState with
  | mk result t =>
    rw [hexec] at hok
    cases result with
    | error e => contradiction
    | ok root => exact ⟨t, root, rfl⟩

theorem trueSize_sampleHeap (v : Bool) : TrueSize (sampleHeap v) := by
  cases v with
  | false => trivial
  | true =>
    intro i hi
    by_contra hge
    simp only [show i ≠ 0 by omega, if_false] at hi
    contradiction

theorem serializeMore_reports_iff_small :
    ∃ (t : SerializerState) (root : ByteBuffer) (o : PWArgs),
      decode t.memory smallCall.levels root.address = some (none, o) ∧
      ((t.metrics = some ⟨0, 0, 0⟩ → Complete smallCall.heap smallCall.map o) ↔
        (nodes smallCall.heap smallCall.map).encard ≤ smallCall.limits.maxElements ∨
          ∃ path ∈ nodes smallCall.heap smallCall.map,
            IsKept smallCall.limits smallCall.heap smallCall.map path ∧
              OverLimit smallCall.limits smallCall.heap smallCall.map path) := by
  obtain ⟨t, root, hexec⟩ := smallCall_returns
  have hstep : arenaStep freshState (.serializeMore smallCall (.ok root)) t := hexec
  obtain ⟨o, hdecode, hiff⟩ := serializeMore_reports_iff (.init freshState_fresh) hstep rfl
    fun _ part _ => trueSize_sampleHeap part.2
  exact ⟨t, root, o, hdecode, hiff⟩

theorem serializeMore_small_not_reported :
    ∃ (t : SerializerState) (root : ByteBuffer) (o : PWArgs),
      arenaStep freshState (.serializeMore smallCall (.ok root)) t ∧
      (∀ v, TrueSize (smallCall.heap v)) ∧ t.metrics = smallCall.metrics ∧
      decode t.memory smallCall.levels root.address = some (none, o) ∧
      ¬Complete smallCall.heap smallCall.map o := by
  obtain ⟨t, root, hexec⟩ := smallCall_returns
  have hstep : arenaStep freshState (.serializeMore smallCall (.ok root)) t := hexec
  obtain ⟨F, o, href, hserialized⟩ :=
    (CallDone.of_step freshState_fresh.wf hstep).root root rfl
  rw [smallCall_reference, Except.ok.injEq, Prod.mk.injEq] at href
  obtain ⟨rfl, hcounters⟩ := href
  refine ⟨t, root, .map [], hstep, trueSize_sampleHeap, ?_, hserialized.decode t.memory fun _ _ => rfl,
    ?_⟩
  . exact (congrArg Counters.metrics hcounters).symm
  . intro hcomplete
    obtain ⟨slot, hslot, hpath, -⟩ := hcomplete [0] (some [97], false) rfl
    rw [PWArgs.slots, PWArgs.slotsMap, List.mem_singleton] at hslot
    subst hslot
    cases hpath

end Ddwaf
