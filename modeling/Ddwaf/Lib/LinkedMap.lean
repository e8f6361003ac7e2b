import Mathlib.Data.List.Basic
import Mathlib.Data.List.Induction
import Mathlib.Data.List.Nodup

/-!
This module contains maps that keep the order in which their keys were put first, as lists of
entries.
-/

namespace LinkedMap

variable {K : Type u} {V : Type v} [DecidableEq K]

def put (m : List (K × V)) (k : K) (v : V) : List (K × V) :=
  match m with
  | [] => [(k, v)]
  | e :: m => if e.1 = k then (k, v) :: m else e :: put m k v

def ofEntries (es : List (K × V)) : List (K × V) := es.foldl (fun m e => put m e.1 e.2) []

def keys (m : List (K × V)) : List K := m.map Prod.fst

theorem put_ne_nil (m : List (K × V)) (k : K) (v : V) : put m k v ≠ [] := by
  cases m with
  | nil => exact List.cons_ne_nil _ _
  | cons e m =>
    unfold put
    split
    . exact List.cons_ne_nil _ _
    . exact List.cons_ne_nil _ _

theorem mem_keys_put {m : List (K × V)} {k : K} {v : V} (k' : K) :
    k' ∈ keys (put m k v) ↔ k' ∈ keys m ∨ k' = k := by
  induction m with
  | nil => simp [put, keys]
  | cons e m ih =>
    unfold keys at ih
    unfold put
    split
    . next he =>
      simp only [keys, List.map_cons, List.mem_cons, he]
      tauto
    . simp only [keys, List.map_cons, List.mem_cons, ih]
      tauto

theorem nodup_put {m : List (K × V)} (k : K) (v : V) (h : (keys m).Nodup) :
    (keys (put m k v)).Nodup := by
  induction m with
  | nil => simp [put, keys]
  | cons e m ih =>
    simp only [keys, List.map_cons, List.nodup_cons] at h
    have hmem := mem_keys_put (m := m) (k := k) (v := v) e.1
    unfold put
    split
    . next he =>
      rw [he] at h
      simpa [keys] using h
    . next he =>
      simp only [keys, List.map_cons, List.nodup_cons] at hmem ih ⊢
      rw [hmem]
      tauto

theorem lookup_cons (e : K × V) (m : List (K × V)) (k : K) :
    (e :: m).lookup k = if k = e.1 then some e.2 else m.lookup k := by
  rw [List.lookup_cons]
  by_cases h : k = e.1
  . simp [h]
  . rw [if_neg h, beq_eq_false_iff_ne.mpr h]

theorem lookup_eq_none {m : List (K × V)} {k : K} (h : k ∉ keys m) : m.lookup k = none := by
  induction m with
  | nil => rfl
  | cons e m ih =>
    simp only [keys, List.map_cons, List.mem_cons, not_or] at h ih
    rw [lookup_cons, if_neg h.1, ih h.2]

theorem lookup_put (m : List (K × V)) (k : K) (v : V) (k' : K) :
    (put m k v).lookup k' = if k' = k then some v else m.lookup k' := by
  induction m with
  | nil => rw [put, lookup_cons]
  | cons e m ih =>
    unfold put
    split
    . next he =>
      rw [lookup_cons, lookup_cons, he]
      split <;> rfl
    . next he =>
      rw [lookup_cons, lookup_cons, ih]
      split
      . next hk => rw [hk, if_neg he]
      . rfl

theorem keys_put_congr {m m' : List (K × V)} (k : K) (v v' : V) (h : keys m = keys m') :
    keys (put m k v) = keys (put m' k v') := by
  induction m generalizing m' with
  | nil =>
    cases m' with
    | nil => rfl
    | cons e m' => simp [keys] at h
  | cons e m ih =>
    cases m' with
    | nil => simp [keys] at h
    | cons e' m' =>
      simp only [keys, List.map_cons, List.cons.injEq] at h ih
      unfold put
      rw [h.1]
      split
      . simp [keys, h.2]
      . simp [keys, ih h.2, h.1]

theorem eq_of_lookup {m m' : List (K × V)} (hk : keys m = keys m') (hnodup : (keys m).Nodup)
    (hl : ∀ k, m.lookup k = m'.lookup k) : m = m' := by
  induction m generalizing m' with
  | nil =>
    cases m' with
    | nil => rfl
    | cons e m' => simp [keys] at hk
  | cons e m ih =>
    cases m' with
    | nil => simp [keys] at hk
    | cons e' m' =>
      have hcons : keys m = keys m' ∧ e.1 = e'.1 := by
        simp only [keys, List.map_cons, List.cons.injEq] at hk
        exact ⟨hk.2, hk.1⟩
      have hmem : e.1 ∉ keys m ∧ (keys m).Nodup := by
        simpa [keys] using hnodup
      have hv := hl e.1
      rw [lookup_cons, lookup_cons, if_pos rfl, if_pos hcons.2, Option.some.injEq] at hv
      rw [Prod.ext hcons.2 hv, List.cons.injEq]
      refine ⟨rfl, ih hcons.1 hmem.2 ?_⟩
      intro k
      have hk := hl k
      rw [lookup_cons, lookup_cons, ← hcons.2] at hk
      by_cases h : k = e.1
      . rw [h, lookup_eq_none hmem.1, lookup_eq_none (hcons.1 ▸ hmem.1)]
      . rw [if_neg h, if_neg h] at hk
        exact hk

section OfEntries

theorem ofEntries_concat (es : List (K × V)) (e : K × V) :
    ofEntries (es ++ [e]) = put (ofEntries es) e.1 e.2 := by
  simp [ofEntries]

theorem mem_keys_ofEntries {es : List (K × V)} (k : K) :
    k ∈ keys (ofEntries es) ↔ k ∈ keys es := by
  induction es using List.reverseRecOn with
  | nil => rfl
  | append_singleton es e ih =>
    rw [ofEntries_concat, mem_keys_put, ih]
    simp [keys]

theorem nodup_ofEntries (es : List (K × V)) : (keys (ofEntries es)).Nodup := by
  induction es using List.reverseRecOn with
  | nil => simp [ofEntries, keys]
  | append_singleton es e ih =>
    rw [ofEntries_concat]
    exact nodup_put _ _ ih

variable {α : Type w} (key : α → K) (f g : α → V)

theorem keys_ofEntries_congr (as : List α) :
    keys (ofEntries (as.map fun a => (key a, f a))) =
      keys (ofEntries (as.map fun a => (key a, g a))) := by
  induction as using List.reverseRecOn with
  | nil => rfl
  | append_singleton as a ih =>
    rw [List.map_append, List.map_append, List.map_singleton, List.map_singleton, ofEntries_concat,
      ofEntries_concat]
    exact keys_put_congr _ _ _ ih

def IsLast (as : List α) (a : α) : Prop := ∃ p r, as = p ++ a :: r ∧ ∀ b ∈ r, key b ≠ key a

theorem lookup_ofEntries_of_isLast {as : List α} {a : α} (h : IsLast key as a) :
    (ofEntries (as.map fun a => (key a, f a))).lookup (key a) = some (f a) := by
  obtain ⟨p, r, rfl, hr⟩ := h
  induction r using List.reverseRecOn with
  | nil =>
    rw [List.map_append, List.map_singleton, ofEntries_concat, lookup_put, if_pos rfl]
  | append_singleton r b ih =>
    have hb : key a ≠ key b := (hr b (by simp)).symm
    have hrest := ih (fun c hc => hr c (List.mem_append_left [b] hc))
    rw [← List.cons_append, ← List.append_assoc, List.map_append, List.map_singleton,
      ofEntries_concat, lookup_put, if_neg hb]
    exact hrest

theorem exists_isLast {as : List α} {k : K} (h : ∃ a ∈ as, key a = k) :
    ∃ a, IsLast key as a ∧ key a = k := by
  induction as using List.reverseRecOn with
  | nil => simp at h
  | append_singleton as b ih =>
    by_cases hb : key b = k
    . exact ⟨b, ⟨as, [], rfl, by simp⟩, hb⟩
    . obtain ⟨a, ha, hk⟩ := h
      have hmem : a ∈ as := by
        rcases List.mem_append.mp ha with ha | ha
        . exact ha
        . rw [List.mem_singleton] at ha
          rw [ha] at hk
          contradiction
      obtain ⟨a', ⟨p, r, heq, hr⟩, hk'⟩ := ih ⟨a, hmem, hk⟩
      refine ⟨a', ⟨p, r ++ [b], ?_, ?_⟩, hk'⟩
      . rw [heq, List.append_assoc, List.cons_append]
      . intro c hc
        rcases List.mem_append.mp hc with hc | hc
        . exact hr c hc
        . rw [List.mem_singleton] at hc
          rw [hc, hk']
          exact hb

theorem ofEntries_eq_iff (as : List α) :
    ofEntries (as.map fun a => (key a, f a)) = ofEntries (as.map fun a => (key a, g a))
      ↔
    ∀ a, IsLast key as a → f a = g a := by
  constructor
  . intro h a ha
    have hf := lookup_ofEntries_of_isLast key f ha
    rw [h, lookup_ofEntries_of_isLast key g ha, Option.some.injEq] at hf
    exact hf.symm
  . intro h
    apply eq_of_lookup
    . exact keys_ofEntries_congr key f g as
    . exact nodup_ofEntries _
    . intro k
      by_cases hk : ∃ a ∈ as, key a = k
      . obtain ⟨a, ha, rfl⟩ := exists_isLast key hk
        rw [lookup_ofEntries_of_isLast key f ha, lookup_ofEntries_of_isLast key g ha, h a ha]
      . have hnot : ∀ f : α → V, k ∉ keys (ofEntries (as.map fun a => (key a, f a))) := by
          intro f hmem
          rw [mem_keys_ofEntries] at hmem
          apply hk
          simpa [keys] using hmem
        rw [lookup_eq_none (hnot f), lookup_eq_none (hnot g)]

def get (m : List (K × V)) (k : K) : Option V := m.lookup k

theorem get_ofEntries_of_isLast {as : List α} {a : α} (h : IsLast key as a) :
    get (ofEntries (as.map fun a => (key a, f a))) (key a) = some (f a) :=
  lookup_ofEntries_of_isLast key f h

theorem exists_of_get_ofEntries {as : List α} {k : K} {v : V}
    (h : get (ofEntries (as.map fun a => (key a, f a))) k = some v) :
    ∃ a, IsLast key as a ∧ key a = k ∧ f a = v := by
  have hmem : ∃ a ∈ as, key a = k := by
    by_contra hnot
    rw [get, lookup_eq_none] at h
    . contradiction
    . rw [mem_keys_ofEntries, keys, List.map_map, List.mem_map]
      exact hnot
  have ⟨a, hlast, hkey⟩ := exists_isLast key hmem
  refine ⟨a, hlast, hkey, ?_⟩
  rw [← hkey, get_ofEntries_of_isLast key f hlast] at h
  exact Option.some.inj h

end OfEntries

section Merge

theorem get_put (m : List (K × V)) (k : K) (v : V) (k' : K) :
    get (put m k v) k' = if k' = k then some v else get m k' :=
  lookup_put m k v k'

def merged (f : V → V → V) (o : Option V) (v : V) : V :=
  match o with
  | none => v
  | some w => f w v

def merge (f : V → V → V) (m : List (K × V)) (k : K) (v : V) : List (K × V) :=
  put m k (merged f (get m k) v)

def valuesOf (es : List (K × V)) (k : K) : List V := (es.filter fun e => e.1 = k).map Prod.snd

theorem get_foldl_merge (f : V → V → V) (es : List (K × V)) (m : List (K × V)) (k : K) :
    get (es.foldl (fun m e => merge f m e.1 e.2) m) k =
      (valuesOf es k).foldl (fun o v => some (merged f o v)) (get m k) := by
  induction es generalizing m with
  | nil => rfl
  | cons e es ih =>
    rw [List.foldl_cons, ih, merge, get_put]
    by_cases hk : k = e.1
    . rw [if_pos hk, valuesOf, valuesOf, List.filter_cons_of_pos (by simp [hk]), List.map_cons,
        List.foldl_cons, hk]
    . have hne : e.1 ≠ k := fun h => hk h.symm
      rw [if_neg hk, valuesOf, valuesOf, List.filter_cons_of_neg (by simp [hne])]

theorem foldl_merged_append {α : Type w} (ls : List (List α)) (l : List α) :
    ls.foldl (fun o v => some (merged (· ++ ·) o v)) (some l) = some (l ++ ls.flatten) := by
  induction ls generalizing l with
  | nil => simp
  | cons l' ls ih =>
    rw [List.foldl_cons, ih]
    simp [merged]

theorem get_foldl_merge_append {α : Type w} (es : List (K × List α)) (k : K) :
    get (es.foldl (fun m e => merge (· ++ ·) m e.1 e.2) []) k =
      if valuesOf es k = [] then none else some (valuesOf es k).flatten := by
  rw [get_foldl_merge]
  cases valuesOf es k with
  | nil => rfl
  | cons l ls =>
    rw [List.foldl_cons, if_neg (List.cons_ne_nil l ls)]
    exact foldl_merged_append ls l

theorem valuesOf_of_nodup {m : List (K × V)} (h : (keys m).Nodup) (k : K) :
    valuesOf m k = (get m k).toList := by
  induction m with
  | nil => rfl
  | cons e m ih =>
    have hmem : e.1 ∉ keys m ∧ (keys m).Nodup := by
      simpa [keys] using h
    by_cases hk : k = e.1
    . have hnone : valuesOf m k = [] := by
        rw [ih hmem.2, get, lookup_eq_none (hk ▸ hmem.1)]
        rfl
      rw [valuesOf] at hnone
      rw [valuesOf, List.filter_cons_of_pos (by simp [hk]), List.map_cons, hnone, get, lookup_cons,
        if_pos hk]
      rfl
    . have hne : e.1 ≠ k := fun h => hk h.symm
      rw [valuesOf, List.filter_cons_of_neg (by simp [hne]), get, lookup_cons, if_neg hk]
      exact ih hmem.2

theorem valuesOf_flatMap {β : Type w} (bs : List β) (f : β → List (K × V)) (k : K) :
    valuesOf (bs.flatMap f) k = bs.flatMap fun b => valuesOf (f b) k := by
  induction bs with
  | nil => rfl
  | cons b bs ih =>
    rw [List.flatMap_cons, List.flatMap_cons, ← ih, valuesOf, List.filter_append, List.map_append]
    rfl

end Merge

section MapValues

def mapValues {W : Type w} (g : V → W) (m : List (K × V)) : List (K × W) :=
  m.map fun e => (e.1, g e.2)

theorem mapValues_put {W : Type w} (g : V → W) (m : List (K × V)) (k : K) (v : V) :
    mapValues g (put m k v) = put (mapValues g m) k (g v) := by
  induction m with
  | nil => rfl
  | cons e m ih =>
    unfold mapValues at ih ⊢
    rw [put]
    split
    . next he =>
      rw [List.map_cons, List.map_cons, put, if_pos he]
    . next he =>
      rw [List.map_cons, List.map_cons, put, if_neg he, ih]

theorem mapValues_ofEntries {α : Type w} {W : Type w'} (g : V → W) (key : α → K) (f : α → V)
    (as : List α) :
    mapValues g (ofEntries (as.map fun a => (key a, f a))) =
      ofEntries (as.map fun a => (key a, g (f a))) := by
  induction as using List.reverseRecOn with
  | nil => rfl
  | append_singleton as a ih =>
    rw [List.map_append, List.map_append, List.map_singleton, List.map_singleton, ofEntries_concat,
      ofEntries_concat, mapValues_put, ih]

end MapValues

end LinkedMap
