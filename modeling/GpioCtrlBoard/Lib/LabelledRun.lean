import Mathlib

/-! # Runs of a partial step function

A system offers a label or refuses it. A run is the list of labels taken from a
start state; facts about runs are proved by extending the run at its end, where
the labels so far are at hand as a history.
-/

namespace LabelledRun

variable {σ ε : Type*} {step : σ → ε → Option σ}

/-- Take the labels in order; `none` when one of them is refused. -/
def run (step : σ → ε → Option σ) (s : σ) (es : List ε) : Option σ := es.foldlM step s

@[simp] theorem run_nil (s : σ) : run step s [] = some s := rfl

theorem run_cons (s : σ) (e : ε) (es : List ε) :
    run step s (e :: es) = (step s e).bind fun t => run step t es :=
  List.foldlM_cons

theorem run_append (s : σ) (es fs : List ε) :
    run step s (es ++ fs) = (run step s es).bind fun t => run step t fs :=
  List.foldlM_append

theorem run_snoc {s t : σ} {es : List ε} {e : ε} :
    run step s (es ++ [e]) = some t ↔ ∃ u, run step s es = some u ∧ step u e = some t := by
  rw [run_append]
  constructor
  · intro taken
    obtain ⟨u, before, last⟩ := Option.bind_eq_some_iff.mp taken
    rw [run_cons] at last
    obtain ⟨t', here, rest⟩ := Option.bind_eq_some_iff.mp last
    obtain rfl : t' = t := Option.some.inj rest
    exact ⟨u, before, here⟩
  · rintro ⟨u, before, here⟩
    rw [before, Option.bind_some, run_cons, here]
    rfl

/-- What holds at the start and is kept by every step, given the history, holds
    after every run. -/
theorem run_induction {init : σ} {motive : List ε → σ → Prop} (start : motive [] init)
    (kept : ∀ es s e t, run step init es = some s → motive es s → step s e = some t →
      motive (es ++ [e]) t)
    {es : List ε} {s : σ} (reached : run step init es = some s) : motive es s := by
  induction es using List.reverseRecOn generalizing s with
  | nil =>
      obtain rfl : init = s := Option.some.inj reached
      exact start
  | append_singleton es e ih =>
      obtain ⟨u, before, here⟩ := run_snoc.mp reached
      exact kept es u e s before (ih before) here

/-! ## What a run puts out -/

variable {α : Type*}

/-- The outputs of the steps of a run, up to the first label that is refused. -/
def emitted (step : σ → ε → Option σ) (out : σ → ε → σ → List α) : σ → List ε → List α
  | _, [] => []
  | s, e :: es => match step s e with
    | some t => out s e t ++ emitted step out t es
    | none => []

theorem emitted_cons {out : σ → ε → σ → List α} {s t : σ} {e : ε} (taken : step s e = some t)
    (es : List ε) : emitted step out s (e :: es) = out s e t ++ emitted step out t es := by
  rw [emitted, taken]

theorem emitted_append {out : σ → ε → σ → List α} {s t : σ} {es : List ε} (reached : run step s es = some t)
    (fs : List ε) : emitted step out s (es ++ fs) = emitted step out s es ++ emitted step out t fs := by
  induction es generalizing s with
  | nil =>
      obtain rfl : s = t := Option.some.inj reached
      rfl
  | cons e es ih =>
      rw [run_cons] at reached
      obtain ⟨v, first, rest⟩ := Option.bind_eq_some_iff.mp reached
      rw [List.cons_append, emitted_cons first, emitted_cons first, ih rest, List.append_assoc]

theorem emitted_snoc {out : σ → ε → σ → List α} {s t u : σ} {es : List ε} {e : ε}
    (reached : run step s es = some t) (taken : step t e = some u) :
    emitted step out s (es ++ [e]) = emitted step out s es ++ out t e u := by
  rw [emitted_append reached, emitted_cons taken, emitted, List.append_nil]

/-- The states which a run goes through, the first one left out. -/
def states (step : σ → ε → Option σ) : σ → List ε → List σ := emitted step fun _ _ t => [t]

theorem run_cons_some {s v : σ} {e : ε} {es : List ε} :
    run step s (e :: es) = some v ↔ ∃ t, step s e = some t ∧ run step t es = some v := by
  rw [run_cons, Option.bind_eq_some_iff]

/-! ## Conditions on the steps of a run -/

/-- What holds of every step of a run, up to the first label that is refused. -/
def Always (step : σ → ε → Option σ) (holds : σ → ε → Prop) : σ → List ε → Prop
  | _, [] => True
  | s, e :: es => holds s e ∧ ∀ t, step s e = some t → Always step holds t es

/-- What is kept by the steps on which the condition holds. -/
theorem Always.run {holds : σ → ε → Prop} {motive : σ → Prop}
    (kept : ∀ s e t, holds s e → motive s → step s e = some t → motive t) {s t : σ} {es : List ε}
    (always : Always step holds s es) (reached : run step s es = some t) (start : motive s) : motive t := by
  induction es generalizing s with
  | nil =>
      obtain rfl : s = t := Option.some.inj reached
      exact start
  | cons e es ih =>
      obtain ⟨u, taken, rest⟩ := run_cons_some.mp reached
      exact ih (always.2 u taken) rest (kept s e u always.1 start taken)

instance Always.decidable {holds : σ → ε → Prop} [∀ s e, Decidable (holds s e)] :
    (s : σ) → (es : List ε) → Decidable (Always step holds s es)
  | _, [] => .isTrue trivial
  | s, e :: es =>
    match taken : step s e with
    | none => decidable_of_iff (holds s e) (by simp [Always, taken])
    | some t =>
      have : Decidable (Always step holds t es) := Always.decidable t es
      decidable_of_iff (holds s e ∧ Always step holds t es) (by simp [Always, taken])

end LabelledRun
