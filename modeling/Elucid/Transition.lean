import Mathlib.Tactic

/-!
# Labelled transitions that compute

A transition function takes a state and a label to the next state, or refuses the label.
`run` follows a list of labels, so a run on given labels can be evaluated. A property of
runs is proved by an invariant, and a property that needs a discipline of the steps by an
invariant that only steps of that discipline keep : `Follows` says that every step of a
run meets a condition on its label and the state before it, and `invariant_of_follows` is
the induction.
-/

namespace Transition

variable {σ : Type*} {κ : Type*}

/-- The state behind the labels, if every one of them is accepted in its turn. -/
def run (step : σ → κ → Option σ) : σ → List κ → Option σ
  | s, [] => some s
  | s, l :: ls => (step s l).bind fun s' => run step s' ls

/-- Every step of the run over the labels meets the condition. -/
def Follows (step : σ → κ → Option σ) (condition : σ → κ → Prop) : σ → List κ → Prop
  | _, [] => True
  | s, l :: ls => condition s l ∧ ∀ s', step s l = some s' → Follows step condition s' ls

section Rules

variable {step : σ → κ → Option σ} {condition : σ → κ → Prop} {s s' : σ} {l : κ} {ls : List κ}

theorem run_cons : run step s (l :: ls) = (step s l).bind fun s' => run step s' ls := rfl

theorem run_cons_eq_some :
    run step s (l :: ls) = some s' ↔ ∃ next, step s l = some next ∧ run step next ls = some s' := by
  rw [run_cons, Option.bind_eq_some_iff]

/-- What every step of a discipline keeps holds behind every run that follows it. -/
theorem invariant_of_follows (invariant : σ → Prop)
    (hstep : ∀ {s l s'}, invariant s → condition s l → step s l = some s' → invariant s')
    (hinit : invariant s) (hrun : run step s ls = some s')
    (hfollows : Follows step condition s ls) : invariant s' := by
  induction ls generalizing s with
  | nil =>
    obtain rfl : s = s' := Option.some.inj hrun
    exact hinit
  | cons l ls ih =>
    obtain ⟨next, hnext, hrest⟩ := run_cons_eq_some.mp hrun
    exact ih (hstep hinit hfollows.1 hnext) hrest (hfollows.2 next hnext)

/-- A condition on labels alone is checked label by label. -/
theorem follows_of_forall (h : ∀ s, ∀ l ∈ ls, condition s l) : Follows step condition s ls := by
  induction ls generalizing s with
  | nil => trivial
  | cons l ls ih =>
    exact ⟨h s l List.mem_cons_self, fun _ _ => ih fun s l hl => h s l (List.mem_cons_of_mem _ hl)⟩

end Rules

end Transition
