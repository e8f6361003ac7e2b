import Ddwaf.Lib.Json.Lemmas.Lexical

/-!
This module contains the proof that the parser accepts the texts of the grammar and nothing else.
-/

namespace Json

def Follow (r : List UInt8) : Prop := ∀ b ∈ r.head?, isNumberByte b = false

theorem isNumberByte_of_isWs {b : UInt8} (h : isWs b = true) : isNumberByte b = false := by
  simp only [isWs, Bool.or_eq_true, decide_eq_true_eq] at h
  rcases h with ((h | h) | h) | h <;> (rw [h]; decide)

theorem ne_of_isNumberByte {b c : UInt8} (hb : isNumberByte b = true)
    (hc : isNumberByte c = false) : b ≠ c := by
  rintro rfl
  rw [hb] at hc
  contradiction

theorem follow_cons {b : UInt8} (r : List UInt8) (h : isNumberByte b = false) :
    Follow (b :: r) := by
  intro c hc
  rw [List.head?_cons, Option.mem_some_iff] at hc
  rw [← hc]
  exact h

theorem follow_append {w r : List UInt8} (hw : Ws w) (hr : Follow r) : Follow (w ++ r) := by
  cases w with
  | nil => exact hr
  | cons b w => exact follow_cons _ (isNumberByte_of_isWs (hw b (by simp)))

theorem skipWs_append {w : List UInt8} (s : List UInt8) (hw : Ws w) :
    skipWs (w ++ s) = skipWs s := List.dropWhile_append_of_pos hw

theorem skipWs_cons {b : UInt8} (s : List UInt8) (hb : isWs b = false) :
    skipWs (b :: s) = b :: s := by
  simp [skipWs, hb]

theorem skipWs_spec (s : List UInt8) : ∃ w, Ws w ∧ s = w ++ skipWs s := by
  refine ⟨s.takeWhile isWs, ?_, ?_⟩
  . intro b hb
    exact List.mem_takeWhile_imp hb
  . exact (List.takeWhile_append_dropWhile ..).symm

section Sep

variable {α β : Type} {item : Parser α} {close : UInt8}

theorem length_le_commaJoin (ts : List (List UInt8)) : ts.length ≤ (commaJoin ts).length + 1 := by
  induction ts with
  | nil => simp
  | cons t ts ih =>
    cases ts with
    | nil => simp
    | cons u ts =>
      rw [commaJoin_cons_cons]
      simp only [List.length_cons, List.length_append] at ih ⊢
      omega

theorem parseSep_commaJoin {text : β → List UInt8} {value : β → α} (j : β) (js : List β)
    (hclose : close ≠ 0x2C)
    (hitem : ∀ k ∈ j :: js, ∀ c r, c = close ∨ c = 0x2C →
      item (text k ++ c :: r) = some (value k, c :: r))
    (r : List UInt8) {n : Nat} (hn : (j :: js).length ≤ n) :
    parseSep item close n (commaJoin ((j :: js).map text) ++ close :: r) =
      some ((j :: js).map value, r) := by
  induction js generalizing j n with
  | nil =>
    cases n with
    | zero => simp at hn
    | succ n =>
      have hj := hitem j (by simp) close r (Or.inl rfl)
      simp [parseSep, commaJoin, hj]
  | cons k ks ih =>
    cases n with
    | zero => simp at hn
    | succ n =>
      have hj := hitem j (by simp) 0x2C (commaJoin ((k :: ks).map text) ++ close :: r) (Or.inr rfl)
      have hks := ih k (fun i hi => hitem i (List.mem_cons_of_mem j hi)) (by simpa using hn)
      simp only [List.map_cons] at hj hks ⊢
      rw [commaJoin_cons_cons, List.append_assoc, List.cons_append, parseSep, hj]
      simp only [Option.bind_eq_bind, Option.bind_some, hclose.symm, hks, ↓reduceIte]
      rfl

theorem parseSep_spec {text : β → List UInt8} {value : β → α} {P : β → Prop} {n : Nat}
    {s r : List UInt8} {as : List α}
    (hitem : ∀ s a r, item s = some (a, r) → ∃ j, P j ∧ s = text j ++ r ∧ value j = a)
    (h : parseSep item close n s = some (as, r)) :
    ∃ j js, (∀ k ∈ j :: js, P k) ∧ s = commaJoin ((j :: js).map text) ++ close :: r ∧
      as = (j :: js).map value := by
  induction n generalizing s as with
  | zero => simp [parseSep] at h
  | succ n ih =>
    simp only [parseSep, Option.bind_eq_bind, Option.bind_eq_some_iff] at h
    obtain ⟨⟨a, t⟩, ha, h⟩ := h
    obtain ⟨j, hj, hs, hv⟩ := hitem s a t ha
    cases t with
    | nil => contradiction
    | cons c t =>
      dsimp only at h
      split at h
      . next hc =>
        rw [Option.some.injEq, Prod.mk.injEq] at h
        refine ⟨j, [], ?_, ?_, ?_⟩
        . simpa using hj
        . rw [hs, hc, h.2]
          rfl
        . rw [← h.1, ← hv]
          rfl
      . split at h
        . next hc =>
          simp only [Option.bind_eq_some_iff, Option.pure_def, Option.some.injEq,
            Prod.mk.injEq] at h
          obtain ⟨⟨as', r'⟩, hsep, has, hr⟩ := h
          dsimp only at has hr
          rw [hr] at hsep
          obtain ⟨k, ks, hall, ht, hv'⟩ := ih hsep
          refine ⟨j, k :: ks, ?_, ?_, ?_⟩
          . simpa [hj] using hall
          . rw [hs, hc, ht, List.map_cons, List.map_cons, List.map_cons, commaJoin_cons_cons,
              List.append_assoc, List.cons_append]
          . rw [← has, hv', ← hv]
            rfl
        . contradiction

end Sep

structure Starts (b : UInt8) : Prop where
  notWs : isWs b = false
  notArrayEnd : b ≠ 0x5D
  notObjectEnd : b ≠ 0x7D

theorem starts_of_isNumberByte {b : UInt8} (h : isNumberByte b = true) : Starts b := by
  constructor
  . cases hb : isWs b with
    | false => rfl
    | true =>
      rw [isNumberByte_of_isWs hb] at h
      contradiction
  . apply ne_of_isNumberByte h
    decide
  . apply ne_of_isNumberByte h
    decide

theorem Text.starts {t : List UInt8} {v : Value} (h : Text t v) :
    ∃ b t', t = b :: t' ∧ Starts b := by
  cases h with
  | null => exact ⟨_, _, rfl, by constructor <;> decide⟩
  | bool b => cases b <;> exact ⟨_, _, rfl, by constructor <;> decide⟩
  | number t q h =>
    obtain ⟨hne, hall⟩ := numberValue_bytes h
    obtain ⟨b, t', rfl⟩ := List.exists_cons_of_ne_nil hne
    exact ⟨b, t', rfl, starts_of_isNumberByte (hall b (by simp))⟩
  | string t s h => exact ⟨_, _, rfl, by constructor <;> decide⟩
  | arrayNil w h => exact ⟨_, _, rfl, by constructor <;> decide⟩
  | array i is hs h => exact ⟨_, _, rfl, by constructor <;> decide⟩
  | objectNil w h => exact ⟨_, _, rfl, by constructor <;> decide⟩
  | object m ms hs h => exact ⟨_, _, rfl, by constructor <;> decide⟩

section Complete

variable {value : Parser Value} {c : UInt8}

theorem parseItem_padded {i : Item} (hi : i.Spaced) (hstarts : ∃ b t, i.text = b :: t ∧ Starts b)
    (hvalue : ∀ r, Follow r → value (i.text ++ r) = some (i.value, r)) (hws : isWs c = false)
    (hnum : isNumberByte c = false) (r : List UInt8) :
    parseItem value (i.padded ++ c :: r) = some (i.value, c :: r) := by
  obtain ⟨b, t, htext, hb⟩ := hstarts
  have hskip : skipWs (i.text ++ (i.after ++ c :: r)) = i.text ++ (i.after ++ c :: r) := by
    rw [htext]
    exact skipWs_cons _ hb.notWs
  have hfollow := follow_append hi.after (follow_cons r hnum)
  rw [parseItem, Item.padded, List.append_assoc, List.append_assoc, skipWs_append _ hi.before, hskip,
    hvalue _ hfollow]
  simp only [Option.bind_eq_bind, Option.bind_some, skipWs_append _ hi.after, skipWs_cons _ hws,
    Option.pure_def]

theorem parseString_of_unescape {t s : List UInt8} (r : List UInt8) (h : unescape t = some s) :
    parseString (t ++ 0x22 :: r) = some (s, r) := by
  simp [parseString, stringBody_of_unescape r h, h]

theorem parseMember_padded {m : Member} (hm : m.Spaced)
    (hstarts : ∃ b t, m.item.text = b :: t ∧ Starts b)
    (hvalue : ∀ r, Follow r → value (m.item.text ++ r) = some (m.item.value, r))
    (hws : isWs c = false) (hnum : isNumberByte c = false) (r : List UInt8) :
    parseMember value (m.padded ++ c :: r) = some ((m.key, m.item.value), c :: r) := by
  have hitem := parseItem_padded hm.item hstarts hvalue hws hnum r
  have hquote : skipWs (0x22 :: (m.keyText ++ 0x22 :: (m.after ++ 0x3A :: (m.item.padded ++ c :: r))))
      = _ := skipWs_cons _ (by decide)
  have hcolon : skipWs (0x3A :: (m.item.padded ++ c :: r)) = _ := skipWs_cons _ (by decide)
  have hassoc : m.padded ++ c :: r =
      m.before ++ 0x22 :: (m.keyText ++ 0x22 :: (m.after ++ 0x3A :: (m.item.padded ++ c :: r))) := by
    simp [Member.padded, quoted]
  rw [parseMember, hassoc, skipWs_append _ hm.before, hquote]
  simp only [↓reduceIte, parseString_of_unescape _ hm.key, Option.bind_eq_bind, Option.bind_some,
    skipWs_append _ hm.after, hcolon, hitem, Option.pure_def]

theorem parseList_commaJoin {α β : Type} {item : Parser α} {close : UInt8} {text : β → List UInt8}
    {value : β → α} (j : β) (js : List β) (hclose : close ≠ 0x2C)
    (hitem : ∀ k ∈ j :: js, ∀ c r, c = close ∨ c = 0x2C →
      item (text k ++ c :: r) = some (value k, c :: r))
    (hstarts : ∃ w b t, text j = w ++ b :: t ∧ Ws w ∧ isWs b = false ∧ b ≠ close) (r : List UInt8) :
    parseList item close (commaJoin ((j :: js).map text) ++ close :: r) =
      some ((j :: js).map value, r) := by
  obtain ⟨w, b, t, hj, hw, hb, hne⟩ := hstarts
  have hsplit : ∃ u, commaJoin ((j :: js).map text) = text j ++ u := by
    cases js with
    | nil => exact ⟨[], by simp [commaJoin]⟩
    | cons k ks => exact ⟨_, commaJoin_cons_cons ..⟩
  obtain ⟨u, hu⟩ := hsplit
  have hskip : skipWs (commaJoin ((j :: js).map text) ++ close :: r) =
      b :: (t ++ (u ++ close :: r)) := by
    rw [hu, hj, List.append_assoc, List.append_assoc, skipWs_append _ hw, List.cons_append,
      skipWs_cons _ hb]
  have hlen : (j :: js).length ≤ (commaJoin ((j :: js).map text) ++ close :: r).length := by
    have := length_le_commaJoin ((j :: js).map text)
    rw [List.length_map] at this
    rw [List.length_append, List.length_cons (a := close)]
    omega
  rw [parseList, hskip]
  simp only [hne, ↓reduceIte]
  exact parseSep_commaJoin j js hclose hitem r hlen

theorem parseList_items {i : Item} {is : List Item} (hs : ∀ j ∈ i :: is, j.Spaced)
    (hstarts : ∀ j ∈ i :: is, ∃ b t, j.text = b :: t ∧ Starts b)
    (hvalue : ∀ j ∈ i :: is, ∀ r, Follow r → value (j.text ++ r) = some (j.value, r))
    (r : List UInt8) :
    parseList (parseItem value) 0x5D (commaJoin ((i :: is).map Item.padded) ++ 0x5D :: r) =
      some ((i :: is).map Item.value, r) := by
  apply parseList_commaJoin
  . decide
  . intro j hj c r hc
    apply parseItem_padded (hs j hj) (hstarts j hj) (hvalue j hj)
    . rcases hc with hc | hc <;> (rw [hc]; decide)
    . rcases hc with hc | hc <;> (rw [hc]; decide)
  . have hi : i ∈ i :: is := List.mem_cons_self
    obtain ⟨b, t, ht, hb⟩ := hstarts i hi
    refine ⟨i.before, b, t ++ i.after, ?_, (hs i hi).before, hb.notWs, hb.notArrayEnd⟩
    simp [Item.padded, ht]

theorem parseList_members {m : Member} {ms : List Member} (hs : ∀ j ∈ m :: ms, j.Spaced)
    (hstarts : ∀ j ∈ m :: ms, ∃ b t, j.item.text = b :: t ∧ Starts b)
    (hvalue : ∀ j ∈ m :: ms, ∀ r, Follow r →
      value (j.item.text ++ r) = some (j.item.value, r))
    (r : List UInt8) :
    parseList (parseMember value) 0x7D (commaJoin ((m :: ms).map Member.padded) ++ 0x7D :: r) =
      some ((m :: ms).map fun m => (m.key, m.item.value), r) := by
  apply parseList_commaJoin
  . decide
  . intro j hj c r hc
    apply parseMember_padded (hs j hj) (hstarts j hj) (hvalue j hj)
    . rcases hc with hc | hc <;> (rw [hc]; decide)
    . rcases hc with hc | hc <;> (rw [hc]; decide)
  . have hm : m ∈ m :: ms := List.mem_cons_self
    refine ⟨m.before, 0x22, m.keyText ++ 0x22 :: (m.after ++ 0x3A :: m.item.padded), ?_,
      (hs m hm).before, ?_, ?_⟩
    . simp [Member.padded, quoted]
    . decide
    . decide

theorem length_le_of_mem {t : List UInt8} {ts : List (List UInt8)} (h : t ∈ ts) :
    t.length ≤ (commaJoin ts).length := by
  induction ts with
  | nil => contradiction
  | cons u us ih =>
    cases us with
    | nil =>
      rw [List.mem_singleton] at h
      rw [h, commaJoin]
    | cons u' us =>
      rw [commaJoin_cons_cons, List.length_append, List.length_cons]
      rcases List.mem_cons.mp h with h | h
      . rw [h]
        omega
      . have := ih h
        omega

theorem takeWhile_number {t r : List UInt8} (ht : ∀ b ∈ t, isNumberByte b = true) (hr : Follow r) :
    (t ++ r).takeWhile isNumberByte = t ∧ (t ++ r).dropWhile isNumberByte = r := by
  rw [List.takeWhile_append_of_pos ht, List.dropWhile_append_of_pos ht]
  cases r with
  | nil => simp
  | cons b r =>
    have hb : isNumberByte b = false := hr b (by simp)
    simp [hb]

theorem parseValue_number {b : UInt8} (fuel : Nat) (s : List UInt8) (hb : isNumberByte b = true) :
    parseValue (fuel + 1) (b :: s) = parseNumber (b :: s) := by
  have hne : ∀ c, isNumberByte c = false → b ≠ c := fun c => ne_of_isNumberByte hb
  rw [parseValue, if_neg (hne _ (by decide)), if_neg (hne _ (by decide)),
    if_neg (hne _ (by decide)), if_neg (hne _ (by decide)), if_neg (hne _ (by decide)),
    if_neg (hne _ (by decide))]

theorem parseValue_text {t : List UInt8} {v : Value} (h : Text t v) (fuel : Nat) (r : List UInt8)
    (hfuel : t.length ≤ fuel) (hr : Follow r) : parseValue fuel (t ++ r) = some (v, r) := by
  induction h generalizing fuel r with
  | null =>
    cases fuel with
    | zero => simp [nullText] at hfuel
    | succ fuel => simp [parseValue, parseLiteral, nullText]
  | bool b =>
    cases fuel with
    | zero => cases b <;> simp [boolText] at hfuel
    | succ fuel => cases b <;> simp [parseValue, parseLiteral, boolText]
  | number t q h =>
    obtain ⟨hne, hall⟩ := numberValue_bytes h
    obtain ⟨htake, hdrop⟩ := takeWhile_number hall hr
    obtain ⟨b, t', rfl⟩ := List.exists_cons_of_ne_nil hne
    cases fuel with
    | zero => simp at hfuel
    | succ fuel =>
      rw [List.cons_append] at htake hdrop ⊢
      rw [parseValue_number _ _ (hall b (by simp)), parseNumber, htake, hdrop, h]
      rfl
  | string t s h =>
    cases fuel with
    | zero => simp [quoted] at hfuel
    | succ fuel => simp [quoted, parseValue, parseString_of_unescape r h]
  | arrayNil w h =>
    cases fuel with
    | zero => simp at hfuel
    | succ fuel =>
      have hskip : skipWs (w ++ 0x5D :: r) = 0x5D :: r := by
        rw [skipWs_append _ h]
        exact skipWs_cons r (by decide)
      simp [parseValue, parseList, hskip]
  | array i is hs h ih =>
    cases fuel with
    | zero => simp at hfuel
    | succ fuel =>
      have hvalue : ∀ j ∈ i :: is, ∀ r, Follow r →
          parseValue fuel (j.text ++ r) = some (j.value, r) := by
        intro j hj r hr
        apply ih j hj fuel r _ hr
        have := length_le_of_mem (List.mem_map_of_mem (f := Item.padded) hj)
        simp only [Item.padded, List.length_append, List.length_cons] at this hfuel ⊢
        omega
      have hlist := parseList_items hs (fun j hj => (h j hj).starts) hvalue r
      rw [List.map_cons] at hlist
      rw [List.append_assoc, List.cons_append, parseValue]
      simp [hlist]
  | objectNil w h =>
    cases fuel with
    | zero => simp at hfuel
    | succ fuel =>
      have hskip : skipWs (w ++ 0x7D :: r) = 0x7D :: r := by
        rw [skipWs_append _ h]
        exact skipWs_cons r (by decide)
      simp [parseValue, parseList, hskip]
  | object m ms hs h ih =>
    cases fuel with
    | zero => simp at hfuel
    | succ fuel =>
      have hvalue : ∀ j ∈ m :: ms, ∀ r, Follow r →
          parseValue fuel (j.item.text ++ r) = some (j.item.value, r) := by
        intro j hj r hr
        apply ih j hj fuel r _ hr
        have := length_le_of_mem (List.mem_map_of_mem (f := Member.padded) hj)
        simp only [Member.padded, Item.padded, List.length_append, List.length_cons]
          at this hfuel ⊢
        omega
      have hlist := parseList_members hs (fun j hj => (h j hj).starts) hvalue r
      rw [List.map_cons] at hlist
      rw [List.append_assoc, List.cons_append, parseValue]
      simp [hlist]

end Complete

section Sound

variable {value : Parser Value} {s r : List UInt8}

theorem parseItem_spec {v : Value}
    (hvalue : ∀ s v r, value s = some (v, r) → ∃ t, s = t ++ r ∧ Text t v)
    (h : parseItem value s = some (v, r)) :
    ∃ i : Item, (i.Spaced ∧ Text i.text i.value) ∧ s = i.padded ++ r ∧ i.value = v := by
  simp only [parseItem, Option.bind_eq_bind, Option.bind_eq_some_iff, Option.pure_def,
    Option.some.injEq, Prod.mk.injEq] at h
  obtain ⟨⟨v', r'⟩, hv, hv', hr⟩ := h
  obtain ⟨t, ht, htext⟩ := hvalue _ _ _ hv
  obtain ⟨w, hw, hs⟩ := skipWs_spec s
  obtain ⟨w', hw', hr'⟩ := skipWs_spec r'
  refine ⟨⟨w, t, w', v'⟩, ⟨⟨hw, hw'⟩, htext⟩, ?_, hv'⟩
  dsimp only at hr
  rw [hs, ht, hr', hr]
  simp [Item.padded]

theorem parseString_spec {t : List UInt8} (h : parseString s = some (t, r)) :
    ∃ u, s = u ++ 0x22 :: r ∧ unescape u = some t := by
  simp only [parseString, Option.bind_eq_bind, Option.bind_eq_some_iff, Option.pure_def,
    Option.some.injEq, Prod.mk.injEq] at h
  obtain ⟨⟨u, r'⟩, hbody, t', hu, ht, hr⟩ := h
  dsimp only at hu hr
  rw [hr] at hbody
  exact ⟨u, stringBody_append hbody, ht ▸ hu⟩

theorem parseMember_spec {m : List UInt8 × Value}
    (hvalue : ∀ s v r, value s = some (v, r) → ∃ t, s = t ++ r ∧ Text t v)
    (h : parseMember value s = some (m, r)) :
    ∃ j : Member, (j.Spaced ∧ Text j.item.text j.item.value) ∧ s = j.padded ++ r ∧
      (j.key, j.item.value) = m := by
  obtain ⟨w, hw, hs⟩ := skipWs_spec s
  unfold parseMember at h
  split at h
  . contradiction
  . next q s' hq =>
    rw [hq] at hs
    split at h
    . next hquote =>
      simp only [Option.bind_eq_bind, Option.bind_eq_some_iff] at h
      obtain ⟨⟨k, r'⟩, hk, h⟩ := h
      obtain ⟨u, hu, hkey⟩ := parseString_spec hk
      obtain ⟨w', hw', hr'⟩ := skipWs_spec r'
      dsimp only at h
      split at h
      . contradiction
      . next c r'' hc =>
        rw [hc] at hr'
        split at h
        . next hcolon =>
          simp only [Option.bind_eq_some_iff, Option.pure_def, Option.some.injEq,
            Prod.mk.injEq] at h
          obtain ⟨⟨v, r3⟩, hv, hm, hr⟩ := h
          obtain ⟨i, ⟨hi, htext⟩, hitem, hvalue'⟩ := parseItem_spec hvalue hv
          refine ⟨⟨w, u, w', k, i⟩, ⟨⟨hw, hw', hi, hkey⟩, htext⟩, ?_, ?_⟩
          . dsimp only at hr
            rw [hs, hquote, hu, hr', hcolon, hitem, hr]
            simp [Member.padded, quoted]
          . rw [← hm, hvalue']
        . contradiction
    . contradiction

theorem parseList_spec {α β : Type} {item : Parser α} {close : UInt8} {text : β → List UInt8}
    {value : β → α} {P : β → Prop} {as : List α}
    (hitem : ∀ s a r, item s = some (a, r) → ∃ j, P j ∧ s = text j ++ r ∧ value j = a)
    (h : parseList item close s = some (as, r)) :
    (∃ w, Ws w ∧ s = w ++ close :: r ∧ as = []) ∨
    ∃ j js, (∀ k ∈ j :: js, P k) ∧ s = commaJoin ((j :: js).map text) ++ close :: r ∧
      as = (j :: js).map value := by
  obtain ⟨w, hw, hs⟩ := skipWs_spec s
  unfold parseList at h
  split at h
  . contradiction
  . next c r' hc =>
    rw [hc] at hs
    split at h
    . next hclose =>
      rw [Option.some.injEq, Prod.mk.injEq] at h
      left
      exact ⟨w, hw, by rw [hs, hclose, h.2], h.1.symm⟩
    . right
      exact parseSep_spec hitem h

theorem parseLiteral_spec {t : List UInt8} {v v' : Value} (h : parseLiteral t v s = some (v', r)) :
    s = t ++ r ∧ v' = v := by
  unfold parseLiteral at h
  split at h
  . next ht =>
    rw [Option.some.injEq, Prod.mk.injEq] at h
    obtain ⟨u, hu⟩ := ht
    rw [← hu, List.drop_left] at h
    rw [← hu, h.2]
    exact ⟨rfl, h.1.symm⟩
  . contradiction

theorem parseNumber_spec {v : Value} (h : parseNumber s = some (v, r)) :
    ∃ t, s = t ++ r ∧ Text t v := by
  simp only [parseNumber, Option.bind_eq_bind, Option.bind_eq_some_iff, Option.pure_def,
    Option.some.injEq, Prod.mk.injEq] at h
  obtain ⟨q, hq, hv, hr⟩ := h
  refine ⟨s.takeWhile isNumberByte, ?_, ?_⟩
  . rw [← hr, List.takeWhile_append_dropWhile]
  . rw [← hv]
    exact Text.number _ q hq

theorem parseValue_spec {fuel : Nat} {v : Value} (h : parseValue fuel s = some (v, r)) :
    ∃ t, s = t ++ r ∧ Text t v := by
  induction fuel generalizing s v r with
  | zero => simp [parseValue] at h
  | succ fuel ih =>
    have hvalue : ∀ s v r, parseValue fuel s = some (v, r) → ∃ t, s = t ++ r ∧ Text t v :=
      fun s v r => ih
    cases s with
    | nil => simp [parseValue] at h
    | cons b s =>
      rw [parseValue] at h
      split at h
      . next hb =>
        simp only [Option.bind_eq_bind, Option.bind_eq_some_iff, Option.pure_def,
          Option.some.injEq, Prod.mk.injEq] at h
        obtain ⟨⟨t, r'⟩, hstring, hv, hr⟩ := h
        obtain ⟨u, hu, hunescape⟩ := parseString_spec hstring
        refine ⟨quoted u, ?_, ?_⟩
        . dsimp only at hr
          rw [hb, hu, hr]
          simp [quoted]
        . rw [← hv]
          exact Text.string u t hunescape
      . split at h
        . next hb =>
          simp only [Option.bind_eq_bind, Option.bind_eq_some_iff, Option.pure_def,
            Option.some.injEq, Prod.mk.injEq] at h
          obtain ⟨⟨vs, r'⟩, hlist, hv, hr⟩ := h
          dsimp only at hr hv
          rw [hr] at hlist
          rw [hb, ← hv]
          rcases parseList_spec (fun s v r => parseItem_spec hvalue) hlist with
            ⟨w, hw, hs, hnil⟩ | ⟨i, is, hall, hs, hvs⟩
          . refine ⟨_, ?_, hnil ▸ Text.arrayNil w hw⟩
            rw [hs]
            simp
          . refine ⟨_, ?_, hvs ▸ Text.array i is (fun j hj => (hall j hj).1)
              (fun j hj => (hall j hj).2)⟩
            rw [hs]
            simp
        . split at h
          . next hb =>
            simp only [Option.bind_eq_bind, Option.bind_eq_some_iff, Option.pure_def,
              Option.some.injEq, Prod.mk.injEq] at h
            obtain ⟨⟨ms, r'⟩, hlist, hv, hr⟩ := h
            dsimp only at hr hv
            rw [hr] at hlist
            rw [hb, ← hv]
            rcases parseList_spec (fun s v r => parseMember_spec hvalue) hlist with
              ⟨w, hw, hs, hnil⟩ | ⟨m, ms', hall, hs, hms⟩
            . refine ⟨_, ?_, hnil ▸ Text.objectNil w hw⟩
              rw [hs]
              simp
            . refine ⟨_, ?_, hms ▸ Text.object m ms' (fun j hj => (hall j hj).1)
                (fun j hj => (hall j hj).2)⟩
              rw [hs]
              simp
          . split at h
            . obtain ⟨hs, hv⟩ := parseLiteral_spec h
              exact ⟨_, hs, hv ▸ Text.null⟩
            . split at h
              . obtain ⟨hs, hv⟩ := parseLiteral_spec h
                exact ⟨_, hs, hv ▸ Text.bool true⟩
              . split at h
                . obtain ⟨hs, hv⟩ := parseLiteral_spec h
                  exact ⟨_, hs, hv ▸ Text.bool false⟩
                . exact parseNumber_spec h

end Sound

/--
The parser accepts the texts of a value with whitespace around them, and gives that value.
-/
theorem parse_eq_some_iff {s : List UInt8} {v : Value} :
    parse s = some v ↔ ∃ i : Item, i.Spaced ∧ Text i.text i.value ∧ s = i.padded ∧ i.value = v := by
  constructor
  . intro h
    simp only [parse, Option.bind_eq_bind, Option.bind_eq_some_iff] at h
    obtain ⟨⟨v', r⟩, hitem, h⟩ := h
    split at h
    . next hr =>
      obtain ⟨i, ⟨hi, htext⟩, hs, hv⟩ := parseItem_spec (fun s v r => parseValue_spec) hitem
      rw [Option.some.injEq] at h
      dsimp only at hr
      refine ⟨i, hi, htext, ?_, hv.trans h⟩
      rw [hs, hr, List.append_nil]
    . contradiction
  . rintro ⟨i, hi, htext, rfl, rfl⟩
    obtain ⟨b, t, ht, hb⟩ := htext.starts
    have hafter : skipWs i.after = [] := by
      have := skipWs_append [] hi.after
      rw [List.append_nil] at this
      exact this
    have hskip : skipWs i.padded = i.text ++ i.after := by
      rw [Item.padded, List.append_assoc, skipWs_append _ hi.before, ht]
      exact skipWs_cons _ hb.notWs
    have hfollow : Follow i.after := by
      have := follow_append hi.after (r := []) (by simp [Follow])
      rw [List.append_nil] at this
      exact this
    have hvalue : parseValue (i.padded.length + 1) (i.text ++ i.after) = some (i.value, i.after) := by
      apply parseValue_text htext
      . simp only [Item.padded, List.length_append]
        omega
      . exact hfollow
    simp [parse, parseItem, hskip, hvalue, hafter]

end Json
