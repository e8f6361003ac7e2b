import Ddwaf.ByteBufferSerializer.Lease
import Ddwaf.ConvertChecked.Serialize
import Mathlib.Logic.Relation

/-!
This module contains on which values the converter of configurations agrees with the serializer.
-/

namespace Ddwaf

variable {ρ : Type}

namespace JavaObj

def children : JavaObj ρ → List ρ
  | .array _ elements => elements
  | .object interfaces =>
    (interfaces.map.elim [] fun entries => entries.map Prod.snd) ++
      interfaces.iterable.elim [] JavaIterable.elements
  | _ => []

/--
No array of primitives with an element, no key without a string, and no choice between a map, an
iterable and a value.
-/
def Convertible : JavaObj ρ → Prop
  | .null => True
  | .array primitive elements => primitive = true → elements = []
  | .string _ => True
  | .boolean _ => True
  | .object ⟨some entries, none, none, none⟩ => ∀ e ∈ entries, ∃ s, e.1 = .toString (some s)
  | .object ⟨none, some _, none, none⟩ => True
  | .object ⟨none, none, some _, _⟩ => True
  | .object ⟨none, none, none, some _⟩ => True
  | .object _ => False

theorem map_both_iff {x y : Option α} {wrap : α → PWArgs} (h : Function.Injective wrap) :
    (∃ o, x.map wrap = some o ∧ y.map wrap = some o) ↔ ∃ a, x = some a ∧ y = some a := by
  simp only [Option.map_eq_some_iff]
  constructor
  . rintro ⟨o, ⟨a, ha, rfl⟩, b, hb, heq⟩
    rw [h heq] at hb
    exact ⟨a, ha, hb⟩
  . rintro ⟨a, ha, hb⟩
    exact ⟨wrap a, ⟨a, ha, rfl⟩, a, hb, rfl⟩

theorem array_ne_convert (a : List PWArgs) (number : JavaNumber) :
    .array a ≠ number.convert.toPWArgs := by
  unfold JavaNumber.convert
  split
  . intro h
    cases h
  . intro h
    cases h

theorem map_ne_convert (a : List NamedPWArgs) (number : JavaNumber) :
    .map a ≠ number.convert.toPWArgs := by
  unfold JavaNumber.convert
  split
  . intro h
    cases h
  . intro h
    cases h

theorem array_injective : Function.Injective PWArgs.array := by
  intro a b h
  exact PWArgs.array.inj h

theorem map_injective : Function.Injective PWArgs.map := by
  intro a b h
  exact PWArgs.map.inj h

theorem entry_both_iff {f g : ρ → Option PWArgs} {key : JavaKey} {r : ρ} :
    (∃ b, Seen.entry f (key.seenByConvert, r) = some b ∧
      Seen.entry g (key.seenBySerialize, r) = some b) ↔
      (∃ s, key = .toString (some s)) ∧ ∃ o, f r = some o ∧ g r = some o := by
  cases key with
  | null => simp [Seen.entry, JavaKey.seenByConvert]
  | throwing exc => simp [Seen.entry, JavaKey.seenByConvert]
  | toString s =>
    cases s with
    | none => simp [Seen.entry, JavaKey.seenByConvert]
    | some s => simp [Seen.entry, JavaKey.seenByConvert, JavaKey.seenBySerialize]

section Value

variable {f g : ρ → Option PWArgs}

theorem value_both_array_iff (primitive : Bool) (elements : List ρ) :
    (∃ o, (array primitive elements).seenByConvert.value f = some o ∧
      (array primitive elements).seenBySerialize.value g = some o) ↔
      (array primitive elements).Convertible ∧
        ∀ r ∈ elements, ∃ o, f r = some o ∧ g r = some o := by
  simp only [seenByConvert, seenBySerialize, Seen.value, List.mapM_map]
  rw [map_both_iff array_injective, mapM_both_iff]
  cases primitive with
  | false => simp [Convertible]
  | true =>
    cases elements with
    | nil => simp [Convertible]
    | cons r rest =>
      apply iff_of_false
      . intro h
        obtain ⟨o, ho, -⟩ := h r List.mem_cons_self
        cases ho
      . intro h
        exact List.cons_ne_nil r rest (h.1 rfl)

theorem value_both_map_iff (entries : List (JavaKey × ρ)) :
    (∃ o, (object ⟨some entries, none, none, none⟩).seenByConvert.value f = some o ∧
      (object ⟨some entries, none, none, none⟩).seenBySerialize.value g = some o) ↔
      (object ⟨some entries, none, none, none⟩).Convertible ∧
        ∀ r ∈ entries.map Prod.snd, ∃ o, f r = some o ∧ g r = some o := by
  simp only [seenByConvert, seenBySerialize, Seen.value, List.mapM_map, Convertible,
    List.forall_mem_map]
  rw [map_both_iff map_injective, mapM_both_iff, ← forall₂_and]
  apply forall₂_congr
  intro e _
  exact entry_both_iff

theorem value_both_iterable_iff (iterable : JavaIterable ρ) :
    (∃ o, (object ⟨none, some iterable, none, none⟩).seenByConvert.value f = some o ∧
      (object ⟨none, some iterable, none, none⟩).seenBySerialize.value g = some o) ↔
      ∀ r ∈ iterable.elements, ∃ o, f r = some o ∧ g r = some o := by
  simp only [seenByConvert, seenBySerialize, Seen.value, List.mapM_map]
  rw [map_both_iff array_injective, mapM_both_iff]
  rfl

theorem value_both_iff (obj : JavaObj ρ) :
    (∃ o, obj.seenByConvert.value f = some o ∧ obj.seenBySerialize.value g = some o) ↔
      obj.Convertible ∧ ∀ r ∈ obj.children, ∃ o, f r = some o ∧ g r = some o := by
  cases obj with
  | null => simp [seenByConvert, seenBySerialize, Seen.value, Convertible, children]
  | string units => simp [seenByConvert, seenBySerialize, Seen.value, Convertible, children]
  | boolean value => simp [seenByConvert, seenBySerialize, Seen.value, Convertible, children]
  | array primitive elements => exact value_both_array_iff primitive elements
  | object interfaces =>
    obtain ⟨map, iterable, charSequence, number⟩ := interfaces
    cases map with
    | none =>
      cases iterable with
      | none =>
        cases charSequence with
        | none =>
          cases number with
          | none => simp [seenByConvert, seenBySerialize, Seen.value, Convertible]
          | some number =>
            simp [seenByConvert, seenBySerialize, Seen.value, Convertible, children]
        | some units => simp [seenByConvert, seenBySerialize, Seen.value, Convertible, children]
      | some iterable =>
        cases charSequence with
        | some units => simp [seenByConvert, seenBySerialize, Seen.value, Convertible]
        | none =>
          cases number with
          | none =>
            rw [value_both_iterable_iff]
            simp [Convertible, children]
          | some number =>
            simp [seenByConvert, seenBySerialize, Seen.value, Convertible, array_ne_convert]
    | some entries =>
      cases charSequence with
      | some units => simp [seenByConvert, seenBySerialize, Seen.value, Convertible]
      | none =>
        cases number with
        | some number =>
          simp [seenByConvert, seenBySerialize, Seen.value, Convertible, map_ne_convert]
        | none =>
          cases iterable with
          | some iterable => simp [seenByConvert, seenBySerialize, Seen.value, Convertible]
          | none =>
            rw [value_both_map_iff]
            simp [Convertible, children]

end Value

theorem children_cases {obj : JavaObj ρ} {child : ρ} (hobj : obj.Convertible)
    (hchild : child ∈ obj.children) :
    (∃ elements, obj = .array false elements ∧ child ∈ elements) ∨
    (∃ iterable : JavaIterable ρ, obj = .object ⟨none, some iterable, none, none⟩ ∧
      child ∈ iterable.elements) ∨
    ∃ entries, obj = .object ⟨some entries, none, none, none⟩ ∧ ∃ key, (key, child) ∈ entries := by
  cases obj with
  | null => cases hchild
  | string units => cases hchild
  | boolean value => cases hchild
  | array primitive elements =>
    left
    cases primitive with
    | false => exact ⟨elements, rfl, hchild⟩
    | true =>
      rw [children, hobj rfl] at hchild
      cases hchild
  | object interfaces =>
    right
    obtain ⟨map, iterable, charSequence, number⟩ := interfaces
    unfold Convertible at hobj
    split at hobj
    . contradiction
    . contradiction
    . contradiction
    . contradiction
    . next entries h =>
      cases h
      right
      simp only [children, Option.elim_some, Option.elim_none, List.append_nil, List.mem_map] at hchild
      obtain ⟨⟨key, _⟩, he, rfl⟩ := hchild
      exact ⟨entries, rfl, key, he⟩
    . next iterable h =>
      cases h
      left
      simp only [children, Option.elim_some, Option.elim_none, List.nil_append] at hchild
      exact ⟨iterable, rfl, hchild⟩
    . next h =>
      cases h
      simp [children] at hchild
    . next h =>
      cases h
      simp [children] at hchild
    . contradiction

theorem fits_child {fitsString : List UInt16 → Prop} {fits : Option ρ → Prop} {obj : JavaObj ρ}
    {child : ρ} (hobj : obj.Convertible) (hchild : child ∈ obj.children) :
    (obj.seenByConvert.Fits fitsString fits → fits (some child)) ∧
      (obj.seenBySerialize.Fits fitsString fits → fits (some child)) := by
  rcases children_cases hobj hchild with
    ⟨elements, rfl, hmem⟩ | ⟨iterable, rfl, hmem⟩ | ⟨entries, rfl, key, hmem⟩
  . have hsome : some child ∈ elements.map some := List.mem_map_of_mem hmem
    exact ⟨fun h => h _ hsome, fun h => h _ hsome⟩
  . have hsome : some child ∈ iterable.elements.map some := List.mem_map_of_mem hmem
    exact ⟨fun h => h _ hsome, fun h => h _ hsome⟩
  . exact ⟨fun h => (h _ (List.mem_map_of_mem hmem)).2, fun h => (h _ (List.mem_map_of_mem hmem)).2⟩

end JavaObj

def InValue (heap : ρ → JavaObj ρ) : ρ → ρ → Prop :=
  Relation.ReflTransGen fun obj child => child ∈ (heap obj).children

theorem forall_inValue_iff {heap : ρ → JavaObj ρ} {p : JavaObj ρ → Prop} {obj : ρ} :
    (∀ r, InValue heap obj r → p (heap r)) ↔
      p (heap obj) ∧ ∀ child ∈ (heap obj).children, ∀ r, InValue heap child r → p (heap r) := by
  constructor
  . intro h
    refine ⟨h obj .refl, ?_⟩
    intro child hchild r hr
    exact h r (.head hchild hr)
  . rintro ⟨hobj, hchildren⟩ r hr
    rcases Relation.ReflTransGen.cases_head hr with rfl | ⟨child, hchild, hr⟩
    . exact hobj
    . exact hchildren child hchild r hr

theorem tree_both_iff {heap : ρ → JavaObj ρ} {fitsConvert fitsSerialize : List UInt16 → Prop}
    {level level' : Nat} {obj : ρ}
    (hconvert : Seen.TreeFits (fun r => (heap r).seenByConvert) fitsConvert level obj)
    (hserialize : Seen.TreeFits (fun r => (heap r).seenBySerialize) fitsSerialize level' obj) :
    (∃ o, Seen.tree (fun r => (heap r).seenByConvert) level obj = some o ∧
      Seen.tree (fun r => (heap r).seenBySerialize) level' obj = some o) ↔
      ∀ r, InValue heap obj r → (heap r).Convertible := by
  -- By induction on the levels, an object is converted by both if it is convertible and its children are.
  induction level generalizing level' obj with
  | zero => cases hconvert
  | succ level ih =>
    cases level' with
    | zero => cases hserialize
    | succ level' =>
      rw [Seen.tree, Seen.tree, JavaObj.value_both_iff, forall_inValue_iff]
      apply and_congr_right
      intro hobj
      apply forall₂_congr
      intro child hchild
      apply ih
      . exact ((JavaObj.fits_child hobj hchild).1 hconvert).2 child rfl
      . exact ((JavaObj.fits_child hobj hchild).2 hserialize).2 child rfl

def configurationLimits : WafLimits := .configuration

def serializeCall (alloc : Allocator) (limits : WafLimits) (heap : ρ → JavaObj ρ) (obj : ρ)
    (metrics : Option WafMetrics) : Call ρ where
  alloc := alloc
  limits := limits
  heap r := (heap r).toJavaValue
  map := obj
  metrics := metrics

/--
On a value that is small enough for both, the converters make the same object, and neither of them
fails, exactly if every object in the value is convertible.
-/
theorem convertChecked_agrees_iff {ls : List (ArenaEvent ρ)} {s t : SerializerState}
    {alloc : Allocator} {lims limits : WafLimits} {heap : ρ → JavaObj ρ} {obj : ρ}
    {metrics : Option WafMetrics} {result : Except Stop ByteBuffer}
    (hrun : (arenaSystem ρ).Reaches ls s)
    (hstep : arenaStep s (.serializeMore (serializeCall alloc limits heap obj metrics) result) t)
    (hroom : ∀ e, result = .error e → ¬ CannotAllocate e)
    (hconvert : Seen.Small (fun r => (heap r).seenByConvert)
      (fun s => s.length ≤ lims.maxStringSize) lims obj)
    (hserialize : Seen.Small (fun r => (heap r).seenBySerialize) (FitsLimits limits) limits obj) :
    (∃ o root, convertChecked lims heap obj = .ok o ∧ result = .ok root ∧
      decode t.memory (serializeCall alloc limits heap obj metrics).levels root.address =
        some (none, o.toPWArgs)) ↔
      ∀ r, InValue heap obj r → (heap r).Convertible := by
  have hdone := CallDone.of_step (WF.of_reaches hrun) hstep
  have hreference (o : PWArgs) :
      (∃ c, (serializeCall alloc limits heap obj metrics).reference = .ok (o, c)) ↔
        Seen.tree (fun r => (heap r).seenBySerialize) (limits.maxDepth + 1) obj = some o :=
    refRoot_eq_ok_iff hserialize o
  rw [← tree_both_iff hconvert.fits hserialize.fits]
  constructor
  . rintro ⟨o, root, ho, hresult, hdecode⟩
    obtain ⟨F, o', ho', hserialized⟩ := hdone.root root hresult
    rw [hserialized.decode t.memory fun _ _ => rfl, Option.some.injEq, Prod.mk.injEq] at hdecode
    obtain ⟨-, rfl⟩ := hdecode
    exact ⟨_, (convertChecked_eq_ok_iff hconvert _).mp ⟨o, ho, rfl⟩, (hreference _).mp ⟨_, ho'⟩⟩
  . rintro ⟨p, htree, htree'⟩
    obtain ⟨c, hc⟩ := (hreference p).mpr htree'
    obtain ⟨o, ho, rfl⟩ := (convertChecked_eq_ok_iff hconvert p).mpr htree
    cases result with
    | error e =>
      rcases hdone.error e rfl with he | he
      . exact absurd he (hroom e rfl)
      . rw [hc] at he
        cases he
    | ok root =>
      obtain ⟨F, o', ho', hserialized⟩ := hdone.root root rfl
      rw [hc] at ho'
      cases ho'
      exact ⟨o, root, ho, rfl, hserialized.decode t.memory fun _ _ => rfl⟩

section Sample

open Program (exec)

def keyHeap (key : JavaKey) : Bool → JavaObj Bool
  | true => .object ⟨some [(key, false)], none, none, none⟩
  | false => .object ⟨some [], none, none, none⟩

def runLimits : WafLimits := .sample

theorem keyHeap_smallForConvert {key : JavaKey} (h : key = .null ∨ key = .toString (some [97])) :
    Seen.Small (fun r => (keyHeap key r).seenByConvert)
      (fun s => s.length ≤ configurationLimits.maxStringSize) configurationLimits true := by
  constructor
  . intro e he
    cases List.mem_singleton.mp he
    refine ⟨?_, by decide, ?_⟩
    . intro s hs
      rcases h with rfl | rfl
      . cases hs
      . cases hs
        decide
    . intro child hchild
      cases hchild
      intro e he
      cases he
  . exact Nat.le_of_ble_eq_true rfl

theorem keyHeap_smallForSerialize {key : JavaKey} (h : key = .null ∨ key = .toString (some [97])) :
    Seen.Small (fun r => (keyHeap key r).seenBySerialize) (FitsLimits runLimits) runLimits true := by
  constructor
  . intro e he
    cases List.mem_singleton.mp he
    refine ⟨?_, by decide, ?_⟩
    . intro s hs
      rcases h with rfl | rfl
      . cases hs
        exact ⟨by decide, by decide⟩
      . cases hs
        exact ⟨by decide, by decide⟩
    . intro child hchild
      cases hchild
      intro e he
      cases he
  . exact Nat.le_of_ble_eq_true rfl

def keyCall (key : JavaKey) : Call Bool :=
  serializeCall bumpAllocator runLimits (keyHeap key) true none

theorem keyCall_returns {key : JavaKey} (h : key = .null ∨ key = .toString (some [97])) :
    ∃ t root, exec (keyCall key).program freshState = (.ok root, t) := by
  have hok : (exec (keyCall key).program freshState).1.isOk = true := by
    rcases h with rfl | rfl
    . decide +kernel
    . decide +kernel
  cases hexec : exec (keyCall key).program freshState with
  | mk result t =>
    rw [hexec] at hok
    cases result with
    | error e => contradiction
    | ok root => exact ⟨t, root, rfl⟩

theorem convertChecked_agrees_key :
    ∃ t o root, convertChecked configurationLimits (keyHeap (.toString (some [97]))) true = .ok o ∧
      exec (keyCall (.toString (some [97]))).program freshState = (.ok root, t) ∧
      decode t.memory (keyCall (.toString (some [97]))).levels root.address =
        some (none, o.toPWArgs) := by
  obtain ⟨t, root, hexec⟩ := keyCall_returns (.inr rfl)
  have hstep : arenaStep freshState (.serializeMore (keyCall (.toString (some [97]))) (.ok root)) t :=
    hexec
  have hconvertible : ∀ r, InValue (keyHeap (.toString (some [97]))) true r →
      (keyHeap (.toString (some [97])) r).Convertible := by
    intro r _
    cases r with
    | false =>
      intro e he
      cases he
    | true =>
      intro e he
      cases List.mem_singleton.mp he
      exact ⟨[97], rfl⟩
  obtain ⟨o, root', ho, hroot, hdecode⟩ := (convertChecked_agrees_iff (.init freshState_fresh) hstep
    (by intro e he; cases he) (keyHeap_smallForConvert (.inr rfl))
    (keyHeap_smallForSerialize (.inr rfl))).mpr hconvertible
  cases hroot
  exact ⟨t, o, root, ho, hexec, hdecode⟩

theorem convertChecked_null_key :
    Seen.Small (fun r => (keyHeap .null r).seenByConvert)
        (fun s => s.length ≤ configurationLimits.maxStringSize) configurationLimits true ∧
      Seen.Small (fun r => (keyHeap .null r).seenBySerialize) (FitsLimits runLimits) runLimits true ∧
      convertChecked configurationLimits (keyHeap .null) true = .error .outOfBounds ∧
      ∃ t root, exec (keyCall .null).program freshState = (.ok root, t) ∧
        decode t.memory (keyCall .null).levels root.address = some (none, .map [(some [], .map [])]) := by
  refine ⟨keyHeap_smallForConvert (.inl rfl), keyHeap_smallForSerialize (.inl rfl), rfl, ?_⟩
  obtain ⟨t, root, hexec⟩ := keyCall_returns (.inl rfl)
  have hstep : arenaStep freshState (.serializeMore (keyCall .null) (.ok root)) t := hexec
  have hreaches : (arenaSystem Bool).Reaches [] freshState := .init freshState_fresh
  have hdone := CallDone.of_step (WF.of_reaches hreaches) hstep
  obtain ⟨F, o, ho, hserialized⟩ := hdone.root root rfl
  have hreference : (keyCall .null).reference = .ok (.map [(some [], .map [])], ⟨254, none⟩) := by
    rfl
  rw [hreference] at ho
  obtain ⟨rfl, -⟩ := Prod.mk.inj (Except.ok.inj ho)
  exact ⟨t, root, hexec, hserialized.decode t.memory fun _ _ => rfl⟩

end Sample

end Ddwaf
