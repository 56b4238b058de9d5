import Mathlib.Data.List.Basic
import Mathlib.Data.List.Induction

/-! Finite runs of a labelled transition relation. -/
namespace Library

/-- A run and the labels of its steps, in order. -/
inductive Run (step : σ → ℓ → σ → Prop) : σ → List ℓ → σ → Prop where
  | nil : Run step s [] s
  | cons : step s label t → Run step t labels u → Run step s (label :: labels) u

namespace Run
variable {step : σ → ℓ → σ → Prop}

/-- Two runs, one after the other. -/
theorem append (first : Run step s xs t) (second : Run step t ys u) : Run step s (xs ++ ys) u := by
  induction first with
  | nil => exact second
  | cons taken _ ih => exact .cons taken (ih second)

/-- A run can be cut anywhere. -/
theorem split (ran : Run step s (xs ++ ys) u) : ∃ t, Run step s xs t ∧ Run step t ys u := by
  induction xs generalizing s with
  | nil => exact ⟨s, .nil, ran⟩
  | cons label xs ih =>
    cases ran with
    | cons taken rest =>
      obtain ⟨t, first, second⟩ := ih rest
      exact ⟨t, .cons taken first, second⟩

/-- The step taken in the middle of a run, with the runs around it. -/
theorem at_label (ran : Run step s (xs ++ label :: ys) u) :
    ∃ t v, Run step s xs t ∧ step t label v ∧ Run step v ys u := by
  obtain ⟨t, first, rest⟩ := ran.split
  cases rest with
  | cons taken second => exact ⟨t, _, first, taken, second⟩

/-- A run and one more step. -/
theorem snoc (ran : Run step s xs t) (taken : step t label u) : Run step s (xs ++ [label]) u :=
  ran.append (.cons taken .nil)

/-- What every step preserves, a run preserves. -/
theorem invariant {P : σ → Prop} (kept : ∀ s label t, P s → step s label t → P t)
    (ran : Run step s labels t) (holds : P s) : P t := by
  induction ran with
  | nil => exact holds
  | cons taken _ ih => exact ih (kept _ _ _ holds taken)

/-- What a step preserves of the state and the labels so far holds after a run. -/
theorem trace_invariant {P : List ℓ → σ → Prop} (start : P [] s)
    (kept : ∀ labels label t u, Run step s labels t → P labels t → step t label u → P (labels ++ [label]) u)
    (ran : Run step s labels t) : P labels t := by
  induction labels using List.reverseRecOn generalizing t with
  | nil =>
    cases ran
    exact start
  | append_singleton labels label ih =>
    obtain ⟨u, first, last⟩ := ran.split
    cases last with
    | cons taken rest =>
      cases rest
      exact kept labels label u t first (ih first) taken

/-- Every step of the run from `s` to `t` meets a condition on its source and label. -/
def Throughout (step : σ → ℓ → σ → Prop) (good : σ → ℓ → Prop) (s : σ) (labels : List ℓ) (t : σ) : Prop :=
  ∀ xs label ys u v, labels = xs ++ label :: ys → Run step s xs u → step u label v → Run step v ys t →
    good u label

theorem throughout_nil : Run step s [] s ∧ Throughout step good s [] s := by
  refine ⟨.nil, ?_⟩
  intro xs label ys u v same
  simp at same

/-- A run can be checked step by step when a label determines its step. -/
theorem throughout_cons (single : ∀ s label t u, step s label t → step s label u → t = u)
    (taken : step s label u) (here : good s label)
    (later : Run step u labels t ∧ Throughout step good u labels t) :
    Run step s (label :: labels) t ∧ Throughout step good s (label :: labels) t := by
  refine ⟨.cons taken later.1, ?_⟩
  intro xs label' ys v w same reached next last
  cases reached with
  | nil =>
    cases same
    exact here
  | cons taken' rest =>
    rw [List.cons_append, List.cons.injEq] at same
    obtain ⟨rfl, split⟩ := same
    cases single _ _ _ _ taken taken'
    exact later.2 _ label' ys v w split rest next last

theorem Throughout.head (met : Throughout step good s (label :: labels) t) (taken : step s label u)
    (rest : Run step u labels t) : good s label :=
  met [] label labels s u rfl .nil taken rest

theorem Throughout.tail (met : Throughout step good s (label :: labels) t) (taken : step s label u) :
    Throughout step good u labels t := by
  intro xs label' ys v w same reached next last
  exact met (label :: xs) label' ys v w (by rw [same, List.cons_append]) (.cons taken reached) next last

/-- What the steps that meet a condition preserve, a run of such steps preserves. -/
theorem invariant_where {P : σ → Prop} {good : σ → ℓ → Prop}
    (kept : ∀ s label t, P s → good s label → step s label t → P t)
    (ran : Run step s labels t) (met : Throughout step good s labels t) (holds : P s) : P t := by
  induction ran with
  | nil => exact holds
  | cons taken rest ih => exact ih (met.tail taken) (kept _ _ _ holds (met.head taken rest) taken)

end Run

/-- `erase` hides a part of the state that nothing else depends on: a step changes
only what is hidden, or is a step of the rest, and a step of the rest can be taken
whatever is hidden, after steps that change only that. -/
structure Erases (step : σ → ℓ → σ → Prop) (erase : σ → σ) : Prop where
  forward : ∀ s label t, step s label t → erase t = erase s ∨ step (erase s) label (erase t)
  backward : ∀ s label u, step (erase s) label u → ∃ labels t, Run step s (labels ++ [label]) t ∧ erase t = u

namespace Erases
variable {step : σ → ℓ → σ → Prop} {erase : σ → σ}

/-- Erasing a run gives a run of some of its steps. -/
theorem forward_run (erases : Erases step erase) (ran : Run step s labels t) :
    ∃ labels', labels'.Sublist labels ∧ Run step (erase s) labels' (erase t) := by
  induction ran with
  | nil => exact ⟨[], .slnil, .nil⟩
  | cons taken _ ih =>
    obtain ⟨labels', fewer, rest⟩ := ih
    rcases erases.forward _ _ _ taken with same | kept
    · rw [same] at rest
      exact ⟨labels', .cons _ fewer, rest⟩
    · exact ⟨_ :: labels', fewer.cons_cons _, .cons kept rest⟩

/-- A run between erased states comes from a run of more steps. -/
theorem backward_run (erases : Erases step erase) (ran : Run step (erase s) labels u) :
    ∃ labels' t, labels.Sublist labels' ∧ Run step s labels' t ∧ erase t = u := by
  generalize hidden : erase s = start at ran
  induction ran generalizing s with
  | nil => exact ⟨[], s, .slnil, .nil, hidden⟩
  | @cons _ label _ labels _ taken _ ih =>
    subst hidden
    obtain ⟨before, t, first, same⟩ := erases.backward _ _ _ taken
    obtain ⟨after, v, more, rest, reached⟩ := ih same
    refine ⟨before ++ [label] ++ after, v, ?_, first.append rest, reached⟩
    exact ((List.sublist_append_right before [label]).append more)

end Erases
end Library
