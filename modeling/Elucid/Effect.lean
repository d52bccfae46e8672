import Mathlib.Tactic

/-!
# Programs over a state that may stop

A program is an `EStateM` : it reads and changes a state, and returns a value or stops with
an error. The state it leaves is there in both cases. `wp` is the weakest precondition of a
postcondition for the value and one for the error, so a specification is a `wp` at the
state a program starts from, and it can compare the two states.

There is one rule for each way to build a program : sequencing (`wp_bind`), handling some
of the errors (`wp_attempt`), a loop of bounded length (`wp_loop`) and a loop over a list
(`wp_foldlM`). `Keeps` is for programs that move along a transitive relation, with or without
an error, and has the same rules.
-/

namespace Effect

variable {σ ε δ α β : Type}

/-- The program ends in a state and with a value, or with an error, as required. -/
def wp (x : EStateM ε σ α) (Q : α → σ → Prop) (E : ε → σ → Prop) (s : σ) : Prop :=
  match x s with
  | .ok a t => Q a t
  | .error e t => E e t

section Rules

variable {x : EStateM ε σ α} {f : α → EStateM ε σ β} {Q Q' : α → σ → Prop}
  {R : β → σ → Prop} {E E' : ε → σ → Prop} {s : σ}

@[simp] theorem wp_pure (a : α) : wp (pure a : EStateM ε σ α) Q E s ↔ Q a s := Iff.rfl

@[simp] theorem wp_get {S : σ → σ → Prop} : wp (get : EStateM ε σ σ) S E s ↔ S s s := Iff.rfl

/-- The second program starts where the first one ends. -/
theorem wp_bind : wp (x >>= f) R E s ↔ wp x (fun a t => wp (f a) R E t) E s := by
  change (match EStateM.bind x f s with | .ok a t => R a t | .error e t => E e t) ↔ _
  rw [EStateM.bind, wp]
  cases x s <;> rfl

/-- A specification may be weakened. -/
theorem wp_mono (h : wp x Q E s) (hQ : ∀ a t, Q a t → Q' a t) (hE : ∀ e t, E e t → E' e t) :
    wp x Q' E' s := by
  unfold wp at h ⊢
  cases hx : x s with
  | ok a t =>
    rw [hx] at h
    exact hQ a t h
  | error e t =>
    rw [hx] at h
    exact hE e t h

/-- A program that returns under a condition, and fails without it. -/
theorem exists_iff_of_wp {C : Prop} (h : wp x (fun a t => C ∧ Q a t) (fun _ _ => ¬ C) s) :
    (∃ a t, x s = .ok a t ∧ Q a t) ↔ C := by
  unfold wp at h
  cases hx : x s with
  | ok a t =>
    rw [hx] at h
    exact ⟨fun _ => h.1, fun _ => ⟨a, t, rfl, h.2⟩⟩
  | error e t =>
    rw [hx] at h
    exact ⟨fun ⟨_, _, hok, _⟩ => (by cases hok), fun hC => absurd hC h⟩

/-- The value of a program that returns. -/
theorem run'_eq_some {a : α} : x.run' s = some a ↔ ∃ t, x s = .ok a t := by
  delta EStateM.run' EStateM.run
  cases x s <;> simp

/-- Two programs return one after the other. -/
theorem exists_of_bind {b : β} {t : σ} (h : (x >>= f) s = .ok b t) :
    ∃ a u, x s = .ok a u ∧ f a u = .ok b t := by
  change EStateM.bind x f s = .ok b t at h
  rw [EStateM.bind] at h
  cases hx : x s with
  | ok a u =>
    rw [hx] at h
    exact ⟨a, u, rfl, h⟩
  | error e u =>
    rw [hx] at h
    cases h

end Rules

/-! ## Steps -/

/-- A step that changes the state, or stops and leaves it. -/
def ofStep (step : σ → Except ε (α × σ)) : EStateM ε σ α := fun s =>
  match step s with
  | .ok (a, t) => .ok a t
  | .error e => .error e s

theorem wp_ofStep {step : σ → Except ε (α × σ)} {Q : α → σ → Prop} {E : ε → σ → Prop} {s : σ} :
    wp (ofStep step) Q E s ↔
      (∀ a t, step s = .ok (a, t) → Q a t) ∧ ∀ e, step s = .error e → E e s := by
  unfold wp ofStep
  cases h : step s with
  | ok result =>
    obtain ⟨a, t⟩ := result
    simp
  | error e => simp

/-! ## Errors that are handled -/

/-- Run a program, and turn the errors `recover` knows into a value. -/
def attempt (recover : ε → Option δ) (x : EStateM ε σ α) : EStateM ε σ (Except δ α) := fun s =>
  match x s with
  | .ok a t => .ok (.ok a) t
  | .error e t =>
    match recover e with
    | some d => .ok (.error d) t
    | none => .error e t

theorem wp_attempt {recover : ε → Option δ} {x : EStateM ε σ α}
    {Q : Except δ α → σ → Prop} {E : ε → σ → Prop} {s : σ} :
    wp (attempt recover x) Q E s ↔
      wp x (fun a => Q (.ok a)) (fun e t => (recover e).elim (E e t) fun d => Q (.error d) t) s := by
  unfold wp attempt
  cases x s with
  | ok a t => rfl
  | error e t => cases hr : recover e <;> simp [hr]

/-! ## Loops -/

/-- Repeat `body` until it gives a result, for at most so many rounds. -/
def loop (exhausted : ε) (body : α → EStateM ε σ (α ⊕ β)) : Nat → α → EStateM ε σ β
  | 0, _ => throw exhausted
  | rounds + 1, a => do
    match ← body a with
    | .inl next => loop exhausted body rounds next
    | .inr result => pure result

/-- One round of a loop. -/
theorem wp_loop_succ {exhausted : ε} {body : α → EStateM ε σ (α ⊕ β)} {Q : β → σ → Prop}
    {E : ε → σ → Prop} {rounds : Nat} {a : α} {s : σ} :
    wp (loop exhausted body (rounds + 1) a) Q E s ↔
      wp (body a) (fun r t => r.elim (fun a => wp (loop exhausted body rounds a) Q E t)
        fun b => Q b t) E s := by
  rw [loop, wp_bind]
  refine ⟨fun h => wp_mono h (fun r t hr => ?_) fun _ _ he => he,
    fun h => wp_mono h (fun r t hr => ?_) fun _ _ he => he⟩ <;> cases r <;> exact hr

/-- A loop invariant holds before every round. -/
theorem wp_loop {exhausted : ε} {body : α → EStateM ε σ (α ⊕ β)} {Q : β → σ → Prop}
    {E : ε → σ → Prop} (I : α → σ → Prop)
    (hbody : ∀ a s, I a s → wp (body a) (fun r t => r.elim (fun a => I a t) fun b => Q b t) E s)
    (hexhausted : ∀ a s, I a s → E exhausted s) (rounds : Nat) {a : α} {s : σ} (h : I a s) :
    wp (loop exhausted body rounds a) Q E s := by
  induction rounds generalizing a s with
  | zero => exact hexhausted a s h
  | succ rounds ih =>
    rw [wp_loop_succ]
    refine wp_mono (hbody a s h) (fun r t hr => ?_) fun _ _ he => he
    cases r with
    | inl next => exact ih hr
    | inr result => exact hr

/-- A loop invariant speaks about what is left of the list. -/
theorem wp_foldlM {f : β → α → EStateM ε σ β} {E : ε → σ → Prop} (I : β → List α → σ → Prop)
    (hstep : ∀ b a rest s, I b (a :: rest) s → wp (f b a) (fun b t => I b rest t) E s) {xs : List α}
    {b : β} {s : σ} (h : I b xs s) :
    wp (xs.foldlM f b) (fun b t => I b [] t) E s := by
  induction xs generalizing b s with
  | nil => exact h
  | cons a rest ih =>
    rw [List.foldlM_cons, wp_bind]
    exact wp_mono (hstep b a rest s h) (fun _ _ hr => ih hr) fun _ _ he => he

/-! ## Programs that move along a relation -/

/-- Where the program ends, the relation holds between the two states, and `P` holds of a
value. -/
def Keeps (G : σ → σ → Prop) (x : EStateM ε σ α) (P : α → σ → Prop) (s : σ) : Prop :=
  wp x (fun a t => G s t ∧ P a t) (fun _ t => G s t) s

section Keeps

variable {G : σ → σ → Prop} {x : EStateM ε σ α} {f : α → EStateM ε σ β} {P P' : α → σ → Prop}
  {Q : β → σ → Prop} {s : σ}

theorem Keeps.pure {a : α} (h : G s s) (hP : P a s) : Keeps G (pure a : EStateM ε σ α) P s :=
  ⟨h, hP⟩

/-- What is known where the program returns. -/
theorem Keeps.of_ok {a : α} {t : σ} (h : Keeps G x P s) (hx : x s = .ok a t) : G s t ∧ P a t := by
  rwa [Keeps, wp, hx] at h

theorem Keeps.throw {e : ε} (h : G s s) : Keeps G (throw e : EStateM ε σ α) P s := h

theorem Keeps.attempt {recover : ε → Option δ} (h : Keeps G x P s) :
    Keeps G (attempt recover x) (fun r t => ∀ a, r = .ok a → P a t) s := by
  rw [Keeps, wp_attempt]
  refine wp_mono h (fun a t ht => ⟨ht.1, ?_⟩) fun e t ht => ?_
  · rintro _ ⟨⟩
    exact ht.2
  · cases recover e with
    | none => exact ht
    | some d => exact ⟨ht, fun _ h => by cases h⟩

theorem Keeps.mono (h : Keeps G x P s) (hP : ∀ a t, G s t → P a t → P' a t) : Keeps G x P' s :=
  wp_mono h (fun a t ht => ⟨ht.1, hP a t ht.1 ht.2⟩) fun _ _ ht => ht

/-- A relation may be weakened, and is still known where the program returns. -/
theorem Keeps.weaken {H : σ → σ → Prop} (h : Keeps G x P s) (hH : ∀ t, G s t → H s t) :
    Keeps H x (fun a t => G s t ∧ P a t) s :=
  wp_mono h (fun _ t ht => ⟨hH t ht.1, ht⟩) fun _ t ht => hH t ht

variable [IsTrans σ G]

theorem Keeps.bind (h : Keeps G x P s) (hf : ∀ a t, G s t → P a t → Keeps G (f a) Q t) :
    Keeps G (x >>= f) Q s := by
  rw [Keeps, wp_bind]
  refine wp_mono h (fun a t ht => ?_) fun _ _ ht => ht
  exact wp_mono (hf a t ht.1 ht.2) (fun _ _ hu => ⟨IsTrans.trans _ _ _ ht.1 hu.1, hu.2⟩)
    fun _ _ hu => IsTrans.trans _ _ _ ht.1 hu

/-- A loop that keeps to the relation, and to an invariant besides. -/
theorem Keeps.loop {exhausted : ε} {body : α → EStateM ε σ (α ⊕ β)} (I : α → σ → Prop)
    (hbody : ∀ a t, G s t → I a t →
      Keeps G (body a) (fun r u => r.elim (fun a => I a u) fun b => Q b u) t)
    (rounds : Nat) {a : α} (h : G s s) (ha : I a s) :
    Keeps G (loop exhausted body rounds a) Q s := by
  refine wp_loop (E := fun _ t => G s t) (fun a t => G s t ∧ I a t) (fun a t ht => ?_)
    (fun _ _ ht => ht.1) rounds ⟨h, ha⟩
  refine wp_mono (hbody a t ht.1 ht.2) (fun r u hu => ?_) fun _ u hu => IsTrans.trans _ _ _ ht.1 hu
  have hstep : G s u := IsTrans.trans _ _ _ ht.1 hu.1
  cases r with
  | inl next => exact ⟨hstep, hu.2⟩
  | inr result => exact ⟨hstep, hu.2⟩

/-- A loop over a list, with an invariant about what is left of it. -/
theorem Keeps.foldlM {f : β → α → EStateM ε σ β} (I : β → List α → σ → Prop)
    (hstep : ∀ b a rest t, G s t → I b (a :: rest) t → Keeps G (f b a) (fun b u => I b rest u) t)
    {xs : List α} {b : β} (h : G s s) (hb : I b xs s) :
    Keeps G (xs.foldlM f b) (fun b t => I b [] t) s := by
  refine wp_mono (wp_foldlM (fun b rest t => G s t ∧ I b rest t) (fun b a rest t ht => ?_)
    (E := fun _ t => G s t) ⟨h, hb⟩) (fun _ _ ht => ht) fun _ _ ht => ht
  exact wp_mono (hstep b a rest t ht.1 ht.2)
    (fun _ _ hu => ⟨IsTrans.trans _ _ _ ht.1 hu.1, hu.2⟩) fun _ _ hu => IsTrans.trans _ _ _ ht.1 hu

end Keeps

end Effect
