import Mathlib.Algebra.GroupWithZero.Nat
import Ddwaf.ConvertChecked.Seen

/-!
This module contains what the serializer makes of a value when none of its limits is reached.
-/

namespace Ddwaf

open ByteBufferSerializer (arrayIterator)

def Counters.spend (c : Counters) (n : Nat) : Counters := { c with remaining := c.remaining - n }

@[simp]
theorem Counters.spend_remaining (c : Counters) (n : Nat) :
    (c.spend n).remaining = c.remaining - n := by
  rfl

@[simp]
theorem Counters.spend_zero (c : Counters) : c.spend 0 = c := by
  simp [spend]

theorem Counters.spend_spend (c : Counters) (m n : Nat) : (c.spend m).spend n = c.spend (m + n) := by
  simp only [spend, Int.natCast_add, Int.sub_sub]

def Counters.Enough (c : Counters) (n : Nat) : Prop := n ≤ c.remaining ∧ c.remaining ≤ intMax

theorem Counters.Enough.spend {c : Counters} {m n : Nat} (h : c.Enough (m + n)) :
    (c.spend m).Enough n := by
  obtain ⟨hle, hmax⟩ := h
  constructor
  . rw [spend_remaining]
    omega
  . rw [spend_remaining]
    omega

theorem Counters.Enough.le {c : Counters} {m n : Nat} (h : c.Enough n) (hmn : m ≤ n) :
    c.Enough m := by
  obtain ⟨hle, hmax⟩ := h
  exact ⟨by omega, hmax⟩

theorem arrayIterator_succ (a : α) (elements : List α) (i : Nat) :
    arrayIterator (a :: elements) (i + 1) = arrayIterator elements i := by
  rfl

section Iterator

variable {iterator : Nat → IterStep α} {elements : List α} {i : Nat}

theorem refElements_yields {item : α → Counters → Except Stop (β × Counters)} {value : α → Option β}
    {nodes : α → Nat} {size : Nat} {c : Counters}
    (hiterator : ∀ j, iterator (i + j) = arrayIterator elements j)
    (hitem : ∀ a ∈ elements, ∀ c : Counters, c.Enough (nodes a) →
      Yields id (item a c) (value a) (c.spend (nodes a)))
    (hc : c.Enough (elements.map nodes).sum) :
    Yields id (refElements item iterator size i elements.length c) (elements.mapM value)
      (c.spend (elements.map nodes).sum) := by
  induction elements generalizing i c with
  | nil =>
    have hi : iterator i = .done := hiterator 0
    rw [List.length_nil, refElements, hi]
    exact (Yields.ok id [] c).congr c.spend_zero.symm
  | cons a rest ih =>
    obtain ⟨ha, hrest⟩ := List.forall_mem_cons.mp hitem
    have hi : iterator i = .elem a := hiterator 0
    have hnext : ∀ j, iterator (i + 1 + j) = arrayIterator rest j := by
      intro j
      rw [← arrayIterator_succ a, ← hiterator, Nat.add_assoc, Nat.add_comm 1]
    rw [List.map_cons, List.sum_cons] at hc ⊢
    rw [List.length_cons, refElements, hi, List.mapM_cons]
    apply Yields.bind (ha c (hc.le (Nat.le_add_right ..)))
    intro b _
    apply Yields.bind (ih hnext hrest hc.spend)
    intro bs _
    exact (Yields.ok id (b :: bs) _).congr (c.spend_spend ..)

theorem refCount_arrayIterator (hiterator : ∀ j, iterator (i + j) = arrayIterator elements j) {n : Nat}
    (hn : elements.length ≤ n) : refCount iterator i n = .ok elements.length := by
  induction elements generalizing i n with
  | nil =>
    have hi : iterator i = .done := hiterator 0
    cases n with
    | zero => rw [refCount, hi, List.length_nil]
    | succ n => rw [refCount, hi, List.length_nil]
  | cons a rest ih =>
    have hi : iterator i = .elem a := hiterator 0
    have hnext : ∀ j, iterator (i + 1 + j) = arrayIterator rest j := by
      intro j
      rw [← arrayIterator_succ a, ← hiterator, Nat.add_assoc, Nat.add_comm 1]
    cases n with
    | zero => contradiction
    | succ n =>
      rw [refCount, hi]
      dsimp only
      rw [ih hnext (Nat.le_of_succ_le_succ hn)]
      rfl

theorem length_le_sum {nodes : α → Nat} (hpos : ∀ a, 1 ≤ nodes a) (elements : List α) :
    elements.length ≤ (elements.map nodes).sum := by
  induction elements with
  | nil => exact Nat.le_refl 0
  | cons a rest ih =>
    have ha := hpos a
    rw [List.length_cons, List.map_cons, List.sum_cons]
    omega

theorem min_length_eq {nodes : α → Nat} (hpos : ∀ a, 1 ≤ nodes a) {c : Counters}
    (hc : c.Enough (elements.map nodes).sum) :
    min elements.length c.remaining.toNat = elements.length := by
  have hlength := length_le_sum hpos elements
  have hle := hc.1
  omega

end Iterator

variable {ρ : Type} {limits : WafLimits}

def FitsLimits (limits : WafLimits) (s : List UInt16) : Prop :=
  s.length ≤ limits.maxStringSize ∧ fits s

def NameFits (limits : WafLimits) (name : Option (List UInt16)) : Prop :=
  ∀ s, name = some s → FitsLimits limits s

theorem NameFits.none : NameFits limits none := by
  intro s h
  cases h

theorem refName_eq {name : Option (List UInt16)} (h : NameFits limits name) :
    refName limits name = name := by
  cases name with
  | none => rfl
  | some s => rw [refName, Option.map_some, List.take_of_length_le (h s rfl).1]

theorem checkName_eq {name : Option (List UInt16)} (h : NameFits limits name) (msg : String) :
    checkName name msg = .ok () := by
  rw [checkName, if_pos]
  intro s hs
  exact (h s hs).2

theorem countTruncated_eq {units : List UInt16} (h : units.length ≤ limits.maxStringSize)
    (c : Counters) : countTruncated limits units c = c := by
  rw [countTruncated, if_neg (Nat.not_lt.mpr h)]

theorem countElement_eq {name : Option (List UInt16)} (h : NameFits limits name) {c : Counters}
    (hc : c.Enough 1) : countElement limits name c = c.spend 1 := by
  obtain ⟨hle, hmax⟩ := hc
  have hname : countTruncatedName limits name c = c := by
    cases name with
    | none => rfl
    | some s => exact countTruncated_eq (h s rfl).1 c
  have hint : toInt32 (c.remaining - 1) = c.remaining - 1 := by
    unfold intMax at hmax
    unfold toInt32
    apply Int.bmod_eq_of_le
    . omega
    . omega
  rw [countElement, hname, hint]
  rfl

theorem refString_eq {units : List UInt16} (h : fits units) :
    refString ⟨units, none⟩ = .ok (utf8 units) := by
  rw [refString, if_pos h]

section Value

variable {item : RefItem ρ} {value : ρ → Option PWArgs} {nodes : ρ → Nat}

theorem refEntry_yields {entry : JavaKey × ρ} {c c' : Counters}
    (hkey : ∀ key, entry.1.seenBySerialize = some (some key) → FitsLimits limits key)
    (hitem : ∀ name, NameFits limits name → Yields id (item name entry.2 c) (value entry.2) c') :
    Yields id (refEntry limits item entry c) (Seen.entry value (entry.1.seenBySerialize, entry.2)) c' := by
  obtain ⟨key, child⟩ := entry
  have hnamed : ∀ name, (∀ key, name = some key → FitsLimits limits key) →
      Yields id (item name child c >>= fun result =>
          .ok (((refName limits name).map utf8, result.1), result.2))
        ((value child).map fun o => (name.map utf8, o)) c' := by
    intro name hname
    rw [refName_eq hname]
    exact Yields.map (g := id) (hitem name hname) fun _ => rfl
  rw [refEntry, Seen.entry]
  cases key with
  | throwing exc => exact Yields.error _ _ _
  | null => exact hnamed (some []) fun key h => hkey key (congrArg some h)
  | toString s => exact hnamed s fun key h => hkey key (congrArg some h)

theorem refIterable_yields {elements : List ρ} {c : Counters}
    (hitem : ∀ r ∈ elements, ∀ c : Counters, c.Enough (nodes r) →
      Yields id (item none r c) (value r) (c.spend (nodes r)))
    (hc : c.Enough (elements.map nodes).sum) :
    Yields id (refIterable item (arrayIterator elements) elements.length c)
      ((elements.mapM value).map .array) (c.spend (elements.map nodes).sum) := by
  have hiterator (j : Nat) : arrayIterator elements (0 + j) = arrayIterator elements j := by
    rw [Nat.zero_add]
  exact Yields.map (g := id) (refElements_yields hiterator hitem hc) fun _ => rfl

theorem refMap_yields {entries : List (JavaKey × ρ)} {c : Counters}
    (hentry : ∀ e ∈ entries, ∀ c : Counters, c.Enough (nodes e.2) →
      Yields id (refEntry limits item e c) (Seen.entry value (e.1.seenBySerialize, e.2))
        (c.spend (nodes e.2)))
    (hc : c.Enough (entries.map fun e => nodes e.2).sum) :
    Yields id (refMap limits item (arrayIterator entries) entries.length c)
      ((entries.mapM fun e => Seen.entry value (e.1.seenBySerialize, e.2)).map .map)
      (c.spend (entries.map fun e => nodes e.2).sum) := by
  have hiterator (j : Nat) : arrayIterator entries (0 + j) = arrayIterator entries j := by
    rw [Nat.zero_add]
  exact Yields.map (g := id) (refElements_yields hiterator hentry hc) fun _ => rfl

theorem refValue_yields {fits : ρ → Prop} (hpos : ∀ r, 1 ≤ nodes r)
    (hitem : ∀ name r, NameFits limits name → fits r → ∀ c : Counters, c.Enough (nodes r) →
      Yields id (item name r c) (value r) (c.spend (nodes r)))
    {name : Option (List UInt16)} (hname : NameFits limits name) {obj : JavaObj ρ} {c : Counters}
    (hfits : obj.seenBySerialize.Fits (FitsLimits limits) fun e =>
      ∀ child, e = some child → fits child)
    (hc : c.Enough (obj.seenBySerialize.size nodes)) :
    Yields id (refValue limits item name obj.toJavaValue c) (obj.seenBySerialize.value value)
      (c.spend (obj.seenBySerialize.size nodes)) := by
  have hstring : ∀ units, FitsLimits limits units → Yields id
      (refValue limits item name (.charSequence ⟨units, none⟩) c) (some (.string (utf8 units)))
      (c.spend 0) := by
    intro units hunits
    rw [refValue, checkName_eq hname, List.take_of_length_le hunits.1, refString_eq hunits.2,
      countTruncated_eq hunits.1, c.spend_zero]
    exact Yields.ok id _ _
  have hiterable : ∀ elements : List ρ, (∀ r ∈ elements, fits r) →
      c.Enough (elements.map nodes).sum →
      Yields id (refIterable item (arrayIterator elements) elements.length c)
        ((elements.mapM value).map .array) (c.spend (elements.map nodes).sum) := by
    intro elements helements hc
    apply refIterable_yields _ hc
    intro r hr
    exact hitem none r .none (helements r hr)
  unfold JavaObj.toJavaValue
  split
  . rw [refValue, checkName_eq hname]
    exact (Yields.ok id _ _).congr c.spend_zero.symm
  . next units => exact hstring units hfits
  . next units _ => exact hstring _ hfits
  . next number =>
    simp only [JavaObj.seenBySerialize, Seen.value, Seen.size, JavaNumber.convert, c.spend_zero]
    cases number.floating with
    | true =>
      simp only [if_true, refValue, checkName_eq hname]
      exact Yields.ok id _ _
    | false =>
      simp only [Bool.false_eq_true, if_false, refValue, checkName_eq hname]
      exact Yields.ok id _ _
  . next primitive elements =>
    simp only [JavaObj.seenBySerialize, Seen.Fits, Seen.value, Seen.size, List.forall_mem_map,
      List.map_map, List.mapM_map] at hfits hc ⊢
    rw [refValue, checkName_eq hname, ok_bind, min_length_eq hpos hc]
    exact hiterable elements (fun r hr => hfits r hr r rfl) hc
  . next iterable =>
    simp only [JavaObj.seenBySerialize, Seen.Fits, Seen.value, Seen.size, List.forall_mem_map,
      List.map_map, List.mapM_map] at hfits hc ⊢
    have hrun := hiterable iterable.elements (fun r hr => hfits r hr r rfl) hc
    split
    . rw [refValue, checkName_eq hname, ok_bind, min_length_eq hpos hc]
      exact hrun
    . have hmin := min_length_eq hpos hc
      have hcount : refCount (arrayIterator iterable.elements) 0 c.remaining.toNat =
          .ok iterable.elements.length := by
        apply refCount_arrayIterator
        . intro j
          rw [Nat.zero_add]
        . omega
      rw [refValue, hcount, ok_bind, checkName_eq hname, ok_bind]
      exact hrun
  . next entries =>
    simp only [JavaObj.seenBySerialize, Seen.Fits, Seen.value, Seen.size, List.forall_mem_map,
      List.map_map, List.mapM_map] at hfits hc ⊢
    have hmin := min_length_eq (fun e : JavaKey × ρ => hpos e.2) hc
    rw [refValue, checkName_eq hname, ok_bind, hmin]
    apply refMap_yields _ hc
    intro e he c hc
    obtain ⟨hkey, hchild⟩ := hfits e he
    apply refEntry_yields hkey
    intro name hname
    exact hitem name e.2 hname (hchild e.2 rfl) c hc
  . rw [refValue, checkName_eq hname]
    exact (Yields.ok id _ _).congr c.spend_zero.symm
  . rw [refValue, checkName_eq hname]
    exact (Yields.ok id _ _).congr c.spend_zero.symm

end Value

theorem refTree_yields {heap : ρ → JavaObj ρ} {level : Nat} {name : Option (List UInt16)} {obj : ρ}
    {c : Counters} (hname : NameFits limits name)
    (hfits : Seen.TreeFits (fun r => (heap r).seenBySerialize) (FitsLimits limits) level obj)
    (hc : c.Enough (Seen.nodes (fun r => (heap r).seenBySerialize) level obj)) :
    Yields id (refTree limits (fun r => (heap r).toJavaValue) level name obj c)
      (Seen.tree (fun r => (heap r).seenBySerialize) level obj)
      (c.spend (Seen.nodes (fun r => (heap r).seenBySerialize) level obj)) := by
  induction level generalizing name obj c with
  | zero => cases hfits
  | succ level ih =>
    have hnodes : Seen.nodes (fun r => (heap r).seenBySerialize) (level + 1) obj =
        1 + (heap obj).seenBySerialize.size (Seen.nodes (fun r => (heap r).seenBySerialize) level) := by
      rw [Seen.nodes, Nat.add_comm]
    rw [hnodes] at hc ⊢
    have hone : c.Enough 1 := hc.le (Nat.le_add_right ..)
    have hremaining : ¬ (c.spend 1).remaining < 0 := by
      have hle := hone.1
      rw [Counters.spend_remaining]
      omega
    rw [refTree, countElement_eq hname hone, if_neg hremaining, refName_eq hname, ← c.spend_spend,
      Seen.tree]
    have hvalue := Seen.Fits.imp hfits fun e he => he.2
    apply refValue_yields (Seen.nodes_pos _ level) _ hname hvalue hc.spend
    intro name r hname hr c hc
    exact ih hname hr hc

theorem refRoot_eq_ok_iff {heap : ρ → JavaObj ρ} {obj : ρ} {metrics : Option WafMetrics}
    (hsmall : Seen.Small (fun r => (heap r).seenBySerialize) (FitsLimits limits) limits obj)
    (p : PWArgs) :
    (∃ c, refRoot limits (fun r => (heap r).toJavaValue) obj metrics = .ok (p, c)) ↔
      Seen.tree (fun r => (heap r).seenBySerialize) (limits.maxDepth + 1) obj = some p := by
  have hc : Counters.Enough ⟨limits.maxElements, metrics⟩
      (Seen.nodes (fun r => (heap r).seenBySerialize) (limits.maxDepth + 1) obj) :=
    ⟨Int.ofNat_le.mpr hsmall.nodes, Int.ofNat_le.mpr limits.maxElements_le⟩
  rw [← (refTree_yields .none hsmall.fits hc).eq_some_iff p]
  constructor
  . rintro ⟨c, h⟩
    exact ⟨p, c, h, rfl⟩
  . rintro ⟨p', c, h, rfl⟩
    exact ⟨c, h⟩

end Ddwaf
