import Mathlib.Order.Defs.Unbundled

/-!
This module contains programs that change a state and may stop with an error, which leaves the
changes that were made before it, and a program logic for them: what holds of every way to end.
-/

abbrev Program (σ : Type u) (ε : Type u) := ExceptT ε (StateM σ)

namespace Program

variable {σ ε α β : Type u}

def exec (x : Program σ ε α) (s : σ) : Except ε α × σ := (ExceptT.run x).run s

@[simp]
theorem exec_pure (a : α) (s : σ) : exec (pure a : Program σ ε α) s = (.ok a, s) := by
  rfl

@[simp]
theorem exec_throw (e : ε) (s : σ) : exec (throw e : Program σ ε α) s = (.error e, s) := by
  rfl

@[simp]
theorem exec_get (s : σ) : exec (get : Program σ ε σ) s = (.ok s, s) := by
  rfl

@[simp]
theorem exec_modify (f : σ → σ) (s : σ) :
    exec (modify f : Program σ ε PUnit) s = (.ok ⟨⟩, f s) := by
  rfl

theorem exec_bind (x : Program σ ε α) (f : α → Program σ ε β) (s : σ) :
    exec (x >>= f) s =
      match exec x s with
      | (.ok a, s') => exec (f a) s'
      | (.error e, s') => (.error e, s') := by
  cases h : exec x s with
  | mk r s' =>
    have hrun : (ExceptT.run x).run s = (r, s') := h
    cases r with
    | ok a =>
      show (ExceptT.run (x >>= f)).run s = _
      simp only [ExceptT.run_bind, StateT.run_bind]
      rw [hrun]
      rfl
    | error e =>
      show (ExceptT.run (x >>= f)).run s = _
      simp only [ExceptT.run_bind, StateT.run_bind]
      rw [hrun]
      rfl

/--
However `x` ends, the invariant `I` holds and the state has gone along `R`. When it returns a value,
`Q` holds as well, and when it stops with an error, the error is one of `E`.
-/
structure Keeps (I : σ → Prop) (R : σ → σ → Prop) (E : ε → Prop) (x : Program σ ε α) (s : σ)
    (Q : α → σ → Prop) : Prop where
  inv : I (exec x s).2
  rel : R s (exec x s).2
  post : ∀ a, (exec x s).1 = .ok a → Q a (exec x s).2
  err : ∀ e, (exec x s).1 = .error e → E e

section Rules

variable {I : σ → Prop} {R : σ → σ → Prop} {E : ε → Prop}

theorem Keeps.of_ok {x : Program σ ε α} {s : σ} {Q : α → σ → Prop} (a : α) (s' : σ)
    (h : exec x s = (.ok a, s')) (hI : I s') (hR : R s s') (hQ : Q a s') : Keeps I R E x s Q := by
  constructor
  . rw [h]
    exact hI
  . rw [h]
    exact hR
  . rw [h]
    intro b hb
    cases hb
    exact hQ
  . rw [h]
    intro e he
    contradiction

theorem Keeps.of_error {x : Program σ ε α} {s : σ} {Q : α → σ → Prop} (e : ε) (s' : σ)
    (h : exec x s = (.error e, s')) (hI : I s') (hR : R s s') (hE : E e) : Keeps I R E x s Q := by
  constructor
  . rw [h]
    exact hI
  . rw [h]
    exact hR
  . rw [h]
    intro a ha
    contradiction
  . rw [h]
    intro e' he
    cases he
    exact hE

theorem Keeps.pure [IsPreorder σ R] {a : α} {s : σ} {Q : α → σ → Prop} (hI : I s) (hQ : Q a s) :
    Keeps I R E (pure a : Program σ ε α) s Q :=
  Keeps.of_ok a s (exec_pure a s) hI (refl s) hQ

theorem Keeps.throw [IsPreorder σ R] {e : ε} {s : σ} {Q : α → σ → Prop} (hI : I s) (hE : E e) :
    Keeps I R E (throw e : Program σ ε α) s Q :=
  Keeps.of_error e s (exec_throw e s) hI (refl s) hE

theorem Keeps.congr {x : Program σ ε α} {y : Program σ ε α} {s : σ} {Q : α → σ → Prop}
    (hexec : exec y s = exec x s) (h : Keeps I R E x s Q) : Keeps I R E y s Q := by
  constructor
  . rw [hexec]
    exact h.inv
  . rw [hexec]
    exact h.rel
  . rw [hexec]
    exact h.post
  . rw [hexec]
    exact h.err

theorem Keeps.get_bind {f : σ → Program σ ε α} {s : σ} {Q : α → σ → Prop}
    (h : Keeps I R E (f s) s Q) : Keeps I R E (get >>= f) s Q := by
  apply Keeps.congr _ h
  rw [exec_bind, exec_get]

theorem Keeps.modify_bind (R' : σ → σ → Prop) {f : σ → σ} {g : PUnit → Program σ ε α} {s : σ}
    {Q : α → σ → Prop} (h : Keeps I R' E (g ⟨⟩) (f s) Q) (hR : ∀ s', R' (f s) s' → R s s') :
    Keeps I R E (modify f >>= g) s Q := by
  have hexec : exec (modify f >>= g) s = exec (g ⟨⟩) (f s) := by
    rw [exec_bind, exec_modify]
  constructor
  . rw [hexec]
    exact h.inv
  . rw [hexec]
    exact hR _ h.rel
  . rw [hexec]
    exact h.post
  . rw [hexec]
    exact h.err

theorem Keeps.modify {f : σ → σ} {s : σ} {Q : PUnit → σ → Prop} (hI : I (f s)) (hR : R s (f s))
    (hQ : Q ⟨⟩ (f s)) : Keeps I R E (modify f : Program σ ε PUnit) s Q :=
  Keeps.of_ok ⟨⟩ (f s) (exec_modify f s) hI hR hQ

theorem Keeps.bind [IsPreorder σ R] {x : Program σ ε α} {f : α → Program σ ε β} {s : σ}
    {Q : α → σ → Prop} {Q' : β → σ → Prop} (hx : Keeps I R E x s Q)
    (hf : ∀ a s', I s' → R s s' → Q a s' → Keeps I R E (f a) s' Q') :
    Keeps I R E (x >>= f) s Q' := by
  cases h : exec x s with
  | mk r s' =>
    have hI := hx.inv
    have hR := hx.rel
    have hQ := hx.post
    have hE := hx.err
    rw [h] at hI hR hQ hE
    cases r with
    | error e => exact Keeps.of_error e s' (by rw [exec_bind, h]) hI hR (hE e rfl)
    | ok a =>
      have hrest := hf a s' hI hR (hQ a rfl)
      have hexec : exec (x >>= f) s = exec (f a) s' := by
        rw [exec_bind, h]
      constructor
      . rw [hexec]
        exact hrest.inv
      . rw [hexec]
        exact Trans.trans hR hrest.rel
      . rw [hexec]
        exact hrest.post
      . rw [hexec]
        exact hrest.err

theorem Keeps.mono {R' : σ → σ → Prop} {x : Program σ ε α} {s : σ} {Q Q' : α → σ → Prop}
    (h : Keeps I R E x s Q) (hR : ∀ s', R s s' → R' s s')
    (hQ : ∀ a s', I s' → R s s' → Q a s' → Q' a s') : Keeps I R' E x s Q' := by
  constructor
  . exact h.inv
  . exact hR _ h.rel
  . intro a ha
    exact hQ a _ h.inv h.rel (h.post a ha)
  . exact h.err

theorem Keeps.mono_error {E' : ε → Prop} {x : Program σ ε α} {s : σ} {Q : α → σ → Prop}
    (h : Keeps I R E x s Q) (hE : ∀ e, E e → E' e) : Keeps I R E' x s Q :=
  ⟨h.inv, h.rel, h.post, fun e he => hE e (h.err e he)⟩

end Rules

def ofExec (f : σ → Except ε α × σ) : Program σ ε α := ExceptT.mk f

@[simp]
theorem exec_ofExec (f : σ → Except ε α × σ) (s : σ) : exec (ofExec f) s = f s := by
  rfl

theorem exec_tryCatch (x : Program σ ε α) (f : ε → Program σ ε α) (s : σ) :
    exec (tryCatch x f) s =
      match exec x s with
      | (.ok a, s') => (.ok a, s')
      | (.error e, s') => exec (f e) s' := by
  cases h : exec x s with
  | mk r s' =>
    have hrun : (ExceptT.run x).run s = (r, s') := h
    show (ExceptT.run (tryCatch x f)).run s = _
    rw [ExceptT.run_tryCatch, StateT.run_bind, hrun]
    cases r with
    | ok a => rfl
    | error e => rfl

structure Ensures (x : Program σ ε α) (s : σ) (Q : α → σ → Prop) (E : ε → σ → Prop) : Prop where
  ok : ∀ a s', exec x s = (.ok a, s') → Q a s'
  error : ∀ e s', exec x s = (.error e, s') → E e s'

section Ensures

variable {E : ε → σ → Prop}

theorem Ensures.of_ok {x : Program σ ε α} {s s' : σ} {a : α} {Q : α → σ → Prop}
    (h : exec x s = (.ok a, s')) (hQ : Q a s') : Ensures x s Q E := by
  constructor
  . intro b t ht
    rw [h] at ht
    cases ht
    exact hQ
  . intro e t ht
    rw [h] at ht
    cases ht

theorem Ensures.of_error {x : Program σ ε α} {s s' : σ} {e : ε} {Q : α → σ → Prop}
    (h : exec x s = (.error e, s')) (hE : E e s') : Ensures x s Q E := by
  constructor
  . intro a t ht
    rw [h] at ht
    cases ht
  . intro e' t ht
    rw [h] at ht
    cases ht
    exact hE

theorem Ensures.pure {a : α} {s : σ} {Q : α → σ → Prop} (h : Q a s) :
    Ensures (pure a : Program σ ε α) s Q E :=
  Ensures.of_ok (exec_pure a s) h

theorem Ensures.throw {e : ε} {s : σ} {Q : α → σ → Prop} (h : E e s) :
    Ensures (throw e : Program σ ε α) s Q E :=
  Ensures.of_error (exec_throw e s) h

theorem Ensures.get {s : σ} {Q : σ → σ → Prop} (h : Q s s) :
    Ensures (get : Program σ ε σ) s Q E :=
  Ensures.of_ok (exec_get s) h

theorem Ensures.bind {x : Program σ ε α} {f : α → Program σ ε β} {s : σ} {Q : α → σ → Prop}
    {Q' : β → σ → Prop} (hx : Ensures x s Q E) (hf : ∀ a s', Q a s' → Ensures (f a) s' Q' E) :
    Ensures (x >>= f) s Q' E := by
  cases h : exec x s with
  | mk r s' =>
    cases r with
    | error e => exact Ensures.of_error (by rw [exec_bind, h]) (hx.error e s' h)
    | ok a =>
      have hrest := hf a s' (hx.ok a s' h)
      have hexec : exec (x >>= f) s = exec (f a) s' := by
        rw [exec_bind, h]
      constructor
      . rw [hexec]
        exact hrest.ok
      . rw [hexec]
        exact hrest.error

theorem Ensures.mono {E' : ε → σ → Prop} {x : Program σ ε α} {s : σ} {Q Q' : α → σ → Prop}
    (h : Ensures x s Q E) (hQ : ∀ a s', Q a s' → Q' a s') (hE : ∀ e s', E e s' → E' e s') :
    Ensures x s Q' E' :=
  ⟨fun a s' ha => hQ a s' (h.ok a s' ha), fun e s' he => hE e s' (h.error e s' he)⟩

theorem Ensures.mono_error {E' : ε → σ → Prop} {x : Program σ ε α} {s : σ} {Q : α → σ → Prop}
    (h : Ensures x s Q E) (hE : ∀ e s', E e s' → E' e s') : Ensures x s Q E' :=
  h.mono (fun _ _ hQ => hQ) hE

def StopsWith (E : ε → σ → Prop) (x : Program σ ε α) : Prop :=
  ∀ s, Ensures x s (fun _ _ => True) E

theorem Ensures.stopsWith {E' : ε → σ → Prop} {x : Program σ ε α} {Q : σ → α → σ → Prop}
    (h : ∀ s, Ensures x s (Q s) E') (hE : ∀ e s, E' e s → E e s) : StopsWith E x :=
  fun s => (h s).mono (fun _ _ _ => trivial) hE

theorem StopsWith.pure (a : α) : StopsWith E (pure a : Program σ ε α) :=
  fun _ => Ensures.pure trivial

theorem StopsWith.bind {x : Program σ ε α} {f : α → Program σ ε β} (hx : StopsWith E x)
    (hf : ∀ a, StopsWith E (f a)) : StopsWith E (x >>= f) :=
  fun s => Ensures.bind (hx s) fun a s' _ => hf a s'

end Ensures

section Simulates

variable {δ γ : Type u}

/--
A run ends like something that has no state: in a state with `I` and with a value that is related by
`R`, or both are stopped, which is related by `E`.
-/
inductive EndsLike (I : σ → Prop) (E : ε → σ → δ → Prop) (R : α → β → Prop) :
    Except ε α × σ → Except δ β → Prop where
  | ok (hI : I s) (hR : R a b) : EndsLike I E R (.ok a, s) (.ok b)
  | error (hE : E e s d) : EndsLike I E R (.error e, s) (.error d)

def Simulates (I : σ → Prop) (E : ε → σ → δ → Prop) (R : α → β → Prop) (x : Program σ ε α)
    (y : Except δ β) : Prop :=
  ∀ s, I s → EndsLike I E R (exec x s) y

variable {I : σ → Prop} {E : ε → σ → δ → Prop} {R : α → β → Prop}

theorem Simulates.pure {a : α} {b : β} (h : R a b) :
    Simulates I E R (pure a : Program σ ε α) (.ok b) :=
  fun _ hs => .ok hs h

theorem Simulates.of_ok {x : Program σ ε α} {b : β}
    (h : ∀ s, I s → ∃ a s', exec x s = (.ok a, s') ∧ I s' ∧ R a b) :
    Simulates I E R x (.ok b) := by
  intro s hs
  have ⟨a, s', hexec, hI, hR⟩ := h s hs
  rw [hexec]
  exact .ok hI hR

theorem Simulates.of_ensures {x : Program σ ε α} {b : β}
    (h : ∀ s, I s → Ensures x s (fun a s' => I s' ∧ R a b) fun _ _ => False) :
    Simulates I E R x (.ok b) := by
  apply Simulates.of_ok
  intro s hs
  cases hexec : exec x s with
  | mk r s' =>
    cases r with
    | ok a => exact ⟨a, s', rfl, (h s hs).ok a s' hexec⟩
    | error e => exact ((h s hs).error e s' hexec).elim

theorem Simulates.ensures {E' : ε → σ → Prop} {x : Program σ ε α} {b : β}
    (h : Simulates I E R x (.ok b)) {s : σ} (hs : I s) :
    Ensures x s (fun a s' => I s' ∧ R a b) E' := by
  have h := h s hs
  generalize hexec : exec x s = r at h
  cases h with
  | ok hI hR => exact Ensures.of_ok hexec ⟨hI, hR⟩

theorem Simulates.bind {α' β' : Type u} {Q : α' → β' → Prop}
    {x : Program σ ε α} {y : Except δ β} {f : α → Program σ ε α'} {g : β → Except δ β'}
    (hx : Simulates I E R x y) (hf : ∀ a b, R a b → Simulates I E Q (f a) (g b)) :
    Simulates I E Q (x >>= f) (y >>= g) := by
  intro s hs
  have h := hx s hs
  rw [exec_bind]
  generalize exec x s = r at h
  cases h with
  | ok hI hR => exact hf _ _ hR _ hI
  | error hE => exact .error hE

theorem EndsLike.of_ensures {x : Program σ ε α} {s : σ} {d : δ}
    (h : Ensures x s (fun _ _ => False) fun e s' => E e s' d) :
    EndsLike I E R (exec x s) (.error d) := by
  cases hexec : exec x s with
  | mk r s' =>
    cases r with
    | ok a => exact (h.ok a s' hexec).elim
    | error e => exact .error (h.error e s' hexec)

theorem Simulates.step {b : γ} {α' β' : Type u} {Q : α → Prop} {R' : α' → β' → Prop}
    {x : Program σ ε α} {f : α → Program σ ε α'} {y : Except δ β'}
    (hx : Simulates I E (fun a _ => Q a) x (.ok b)) (hf : ∀ a, Q a → Simulates I E R' (f a) y) :
    Simulates I E R' (x >>= f) y :=
  Simulates.bind hx (g := fun _ => y) fun a _ ha => hf a ha

theorem Simulates.more {α' : Type u} {Q : α' → β → Prop} {x : Program σ ε α} {y : Except δ β}
    {f : α → Program σ ε α'} (hx : Simulates I E R x y)
    (hf : ∀ a b, R a b → Simulates I E Q (f a) (.ok b)) : Simulates I E Q (x >>= f) y := by
  have h := Simulates.bind hx (g := Except.ok) hf
  cases y with
  | ok b => exact h
  | error d => exact h

theorem Simulates.map_right {β' : Type u} {R' : α → β' → Prop} {x : Program σ ε α} {y : Except δ β}
    {g : β → β'} (hx : Simulates I E R x y) (hg : ∀ a b, R a b → R' a (g b)) :
    Simulates I E R' x (y >>= fun b => .ok (g b)) := by
  intro s hs
  have h := hx s hs
  generalize exec x s = r at h ⊢
  cases h with
  | ok hI hR => exact .ok hI (hg _ _ hR)
  | error hE => exact .error hE

theorem Simulates.mono {R' : α → β → Prop} {x : Program σ ε α} {y : Except δ β}
    (h : Simulates I E R x y) (hR : ∀ a b, R a b → R' a b) : Simulates I E R' x y := by
  intro s hs
  have h := h s hs
  generalize exec x s = r at h ⊢
  cases h with
  | ok hI hab => exact .ok hI (hR _ _ hab)
  | error hE => exact .error hE

theorem Simulates.result {x : Program σ ε α} {y : Except δ β} (h : Simulates I E R x y) :
    Simulates I E (fun a b => R a b ∧ y = .ok b) x y := by
  intro s hs
  have h := h s hs
  generalize exec x s = r at h ⊢
  cases h with
  | ok hI hR => exact .ok hI ⟨hR, rfl⟩
  | error hE => exact .error hE

theorem Simulates.value {c : γ} {Q : α → Prop} {b : β} {x : Program σ ε α}
    (h : Simulates I E (fun a _ => Q a) x (.ok c)) (hR : ∀ a, Q a → R a b) :
    Simulates I E R x (.ok b) := by
  intro s hs
  have h := h s hs
  generalize exec x s = r at h ⊢
  cases h with
  | ok hI ha => exact .ok hI (hR _ ha)

theorem Simulates.mapError {f : δ → γ} {E : ε → σ → γ → Prop} {x : Program σ ε α} {y : Except δ β}
    (h : Simulates I (fun e s d => E e s (f d)) R x y) : Simulates I E R x (y.mapError f) := by
  intro s hs
  have h := h s hs
  generalize exec x s = r at h ⊢
  cases h with
  | ok hI hR => exact .ok hI hR
  | error hE => exact .error hE

end Simulates

end Program
