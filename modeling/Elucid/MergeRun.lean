import Mathlib.Data.List.Perm.Basic

/-!
# Runs of mergeable accumulators

An accumulator is made, updated with batches of inputs, and merged with the states of others,
which came about in the same way. A run is the tree of these steps, with the inputs at its
leaves.

`Guarded` says of the operations that they keep a value of the inputs seen so far, fail only with
an overflow, and never for inputs that are safe. `Guarded.execute` says so of whole runs, by one
induction over the tree. `Checked` is the case in which the inputs that fit are safe : then a run
gives the value of all its inputs if they fit, and fails if they do not, whatever the order of
the steps (`Checked.execute_eq`).
-/

namespace Elucid

open List

/-- How an accumulator came about. -/
inductive MergeRun (α : Type)
  | new
  | updateBatch (run : MergeRun α) (values : List α)
  | mergeBatch (run : MergeRun α) (parts : List (MergeRun α))

namespace MergeRun

variable {α σ τ ε : Type}

/-- What an accumulator `σ` with states `τ` can do. -/
structure Operations (α σ τ ε : Type) where
  new : σ
  update : σ → List α → Except ε σ
  state : σ → τ
  merge : σ → List τ → Except ε σ

mutual

/-- The accumulator of a run. -/
def execute (operations : Operations α σ τ ε) : MergeRun α → Except ε σ
  | .new => .ok operations.new
  | .updateBatch run values => run.execute operations >>= (operations.update · values)
  | .mergeBatch run parts =>
    run.execute operations >>= fun accumulator =>
      executeParts operations parts >>= operations.merge accumulator

/-- The states of some runs. -/
def executeParts (operations : Operations α σ τ ε) : List (MergeRun α) → Except ε (List τ)
  | [] => .ok []
  | part :: parts =>
    part.execute operations >>= fun accumulator =>
      (executeParts operations parts).map (operations.state accumulator :: ·)

end

mutual

/-- The inputs of a run. -/
def inputs : MergeRun α → List α
  | .new => []
  | .updateBatch run values => run.inputs ++ values
  | .mergeBatch run parts => run.inputs ++ inputsOfParts parts

/-- The inputs of some runs. -/
def inputsOfParts : List (MergeRun α) → List α
  | [] => []
  | part :: parts => part.inputs ++ inputsOfParts parts

end

theorem inputsOfParts_eq (parts : List (MergeRun α)) :
    inputsOfParts parts = (parts.map inputs).flatten := by
  induction parts with
  | nil => rfl
  | cons part parts ih => rw [inputsOfParts, ih, map_cons, flatten_cons]

/-- The result is `value`, which fits, or the failure `overflow`, and the inputs are not safe. -/
def Outcome {β : Type} (value : β) (Fits Safe : Prop) (overflow : ε) : Except ε β → Prop
  | .ok result => result = value ∧ Fits
  | .error error => error = overflow ∧ ¬ Safe

theorem Outcome.bind {β γ : Type} {value : β} {total : γ} {Fits Safe FitsAll SafeAll : Prop}
    {overflow : ε} {x : Except ε β} {f : β → Except ε γ} (hx : Outcome value Fits Safe overflow x)
    (hsafe : SafeAll → Safe) (hf : Fits → Outcome total FitsAll SafeAll overflow (f value)) :
    Outcome total FitsAll SafeAll overflow (x >>= f) := by
  cases x with
  | ok result =>
    obtain ⟨rfl, hfits⟩ := hx
    exact hf hfits
  | error error => exact ⟨hx.1, fun hall => hx.2 (hsafe hall)⟩

/-- A failure that comes exactly if the value does not fit. -/
theorem outcome_iff {β : Type} {value : β} {Fits : Prop} [Decidable Fits] {overflow : ε}
    {x : Except ε β} :
    Outcome value Fits Fits overflow x ↔ x = if Fits then .ok value else .error overflow := by
  cases x <;> by_cases h : Fits <;> simp [Outcome, h]

/-- The operations keep the value of the inputs, and fail with `overflow`, but not on inputs that
are safe. -/
structure Guarded (operations : Operations α σ τ ε) (ofInputs : List α → σ)
    (Fits Safe : List α → Prop) (overflow : ε) : Prop where
  new : operations.new = ofInputs []
  fits_nil : Fits []
  safe_append : ∀ {seen values : List α}, Safe (seen ++ values) → Safe seen ∧ Safe values
  update : ∀ {seen values : List α}, Fits seen →
    Outcome (ofInputs (seen ++ values)) (Fits (seen ++ values)) (Safe (seen ++ values)) overflow
      (operations.update (ofInputs seen) values)
  merge : ∀ {seen : List α} {parts : List (List α)}, Fits seen → (∀ part ∈ parts, Fits part) →
    Outcome (ofInputs (seen ++ parts.flatten)) (Fits (seen ++ parts.flatten))
      (Safe (seen ++ parts.flatten)) overflow
      (operations.merge (ofInputs seen) (parts.map fun part => operations.state (ofInputs part)))

/-- A loop whose steps keep the value of the inputs, and fail only if they are not safe. -/
theorem foldlM_outcome {β : Type} (ofInputs : List α → σ) (Fits Safe : List α → Prop)
    (step : σ → β → Except ε σ) (part : β → List α) {overflow : ε} {items : List β}
    (hsafe : ∀ {seen values : List α}, Safe (seen ++ values) → Safe seen ∧ Safe values)
    (hstep : ∀ seen, ∀ item ∈ items, Fits seen → Outcome (ofInputs (seen ++ part item))
      (Fits (seen ++ part item)) (Safe (seen ++ part item)) overflow (step (ofInputs seen) item))
    {seen : List α} (hseen : Fits seen) :
    Outcome (ofInputs (seen ++ items.flatMap part)) (Fits (seen ++ items.flatMap part))
      (Safe (seen ++ items.flatMap part)) overflow (items.foldlM step (ofInputs seen)) := by
  induction items generalizing seen with
  | nil =>
    rw [flatMap_nil, append_nil]
    exact ⟨rfl, hseen⟩
  | cons item items ih =>
    rw [foldlM_cons, flatMap_cons, ← append_assoc]
    refine (hstep seen item mem_cons_self hseen).bind (fun hall => (hsafe hall).1) ?_
    exact ih fun seen other hother => hstep seen other (mem_cons_of_mem _ hother)

/-- A loop whose steps keep the value of the inputs, and fail once they do not fit. -/
theorem foldlM_eq {β : Type} (ofInputs : List α → σ) (Fits : List α → Prop) [DecidablePred Fits]
    (step : σ → β → Except ε σ) (part : β → List α) {overflow : ε} {items : List β}
    (hfits : ∀ {seen values : List α}, Fits (seen ++ values) → Fits seen ∧ Fits values)
    (hstep : ∀ seen, ∀ item ∈ items, Fits seen → step (ofInputs seen) item =
      if Fits (seen ++ part item) then .ok (ofInputs (seen ++ part item)) else .error overflow)
    {seen : List α} (hseen : Fits seen) :
    items.foldlM step (ofInputs seen) =
      if Fits (seen ++ items.flatMap part) then .ok (ofInputs (seen ++ items.flatMap part))
      else .error overflow :=
  outcome_iff.mp (foldlM_outcome ofInputs Fits Fits step part hfits
    (fun seen item hitem hseen => outcome_iff.mpr (hstep seen item hitem hseen)) hseen)

namespace Guarded

variable {operations : Operations α σ τ ε} {ofInputs : List α → σ} {Fits Safe : List α → Prop}
  {overflow : ε}

mutual

/-- A run gives the value of its inputs, and fails only if they are not safe. -/
theorem execute (h : Guarded operations ofInputs Fits Safe overflow) (run : MergeRun α) :
    Outcome (ofInputs run.inputs) (Fits run.inputs) (Safe run.inputs) overflow
      (run.execute operations) := by
  cases run with
  | new => exact ⟨h.new, h.fits_nil⟩
  | updateBatch run values =>
    rw [MergeRun.execute, inputs]
    exact (execute h run).bind (fun hall => (h.safe_append hall).1) h.update
  | mergeBatch run parts =>
    rw [MergeRun.execute, inputs, inputsOfParts_eq]
    refine (execute h run).bind (fun hall => (h.safe_append hall).1) fun hrun => ?_
    refine (executeParts h parts).bind (fun hall => ?_) (h.merge hrun)
    rw [inputsOfParts_eq]
    exact (h.safe_append hall).2

/-- The states of some runs are those of their inputs. -/
theorem executeParts (h : Guarded operations ofInputs Fits Safe overflow)
    (parts : List (MergeRun α)) :
    Outcome ((parts.map inputs).map fun part => operations.state (ofInputs part))
      (∀ part ∈ parts.map inputs, Fits part) (Safe (inputsOfParts parts)) overflow
      (MergeRun.executeParts operations parts) := by
  cases parts with
  | nil => exact ⟨rfl, by simp⟩
  | cons part parts =>
    rw [MergeRun.executeParts, inputsOfParts, map_cons]
    refine (execute h part).bind (fun hall => (h.safe_append hall).1) fun hpart => ?_
    refine (executeParts h parts).bind (fun hall => (h.safe_append hall).2) fun hparts => ?_
    exact ⟨rfl, forall_mem_cons.mpr ⟨hpart, hparts⟩⟩

end

end Guarded

/-- The operations keep the value of the inputs, and fail with `overflow` once they do not fit. -/
abbrev Checked (operations : Operations α σ τ ε) (ofInputs : List α → σ) (Fits : List α → Prop)
    (overflow : ε) : Prop :=
  Guarded operations ofInputs Fits Fits overflow

namespace Checked

variable {operations : Operations α σ τ ε} {ofInputs : List α → σ} {Fits : List α → Prop}
  [DecidablePred Fits] {overflow : ε}

/-- A run gives the value of its inputs, and fails if they do not fit. -/
theorem execute_eq (h : Checked operations ofInputs Fits overflow) (run : MergeRun α) :
    run.execute operations =
      if Fits run.inputs then .ok (ofInputs run.inputs) else .error overflow :=
  outcome_iff.mp (h.execute run)

/-- Merging parts that do not change the value changes nothing. -/
theorem execute_mergeBatch_of_eq (h : Checked operations ofInputs Fits overflow)
    {run : MergeRun α} {parts : List (MergeRun α)}
    (hvalue : ofInputs (run.inputs ++ inputsOfParts parts) = ofInputs run.inputs)
    (hfits : Fits (run.inputs ++ inputsOfParts parts) ↔ Fits run.inputs) :
    (run.mergeBatch parts).execute operations = run.execute operations := by
  rw [h.execute_eq, h.execute_eq, inputs, hvalue]
  exact if_congr hfits rfl rfl

end Checked

end MergeRun

end Elucid
