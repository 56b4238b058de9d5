import HermesHey.Library.Program

/-! Handles that a program opens and closes. Over a history it is counted which of them are open:
none may be used that is not, and a program that is done has closed what it opened. -/
namespace Library
variable {γ : Type} {ρ : γ → Type} {ε α β η : Type}

/-- What the calls have to do with handles. A call that closes a handle takes it away even when it fails. -/
structure Handles (ρ : γ → Type) (η : Type) where
  /-- What an answered call has opened. -/
  opens : Sigma ρ → Option η
  closes : γ → Option η
  uses : γ → List η

namespace Handles
variable [DecidableEq η] (handles : Handles ρ η)

def after (held : List η) (event : Sigma ρ) : List η :=
  (handles.opens event).toList ++ held.filter fun handle => handles.closes event.1 ≠ some handle

/-- The open handles, the newest first. -/
def held (history : Program.History ρ) : List η := history.foldl handles.after []

@[simp] theorem held_snoc (event : Sigma ρ) (history : Program.History ρ) :
    handles.held (history ++ [event]) = handles.after (handles.held history) event := by
  simp [held]

/-- The system opens new handles only, and the program uses and closes open ones only. -/
def contract : Program.Contract ρ where
  may history request answer := ∀ handle, handles.opens ⟨request, answer⟩ = some handle → handle ∉ handles.held history
  must history request := (∀ handle ∈ handles.uses request, handle ∈ handles.held history) ∧
    ∀ handle, handles.closes request = some handle → handle ∈ handles.held history

/-- Every call is on open handles, and none is left open. -/
structure Balanced (trace : Program.History ρ) : Prop where
  used : ∀ before event after, trace = before ++ event :: after →
    (∀ handle ∈ handles.uses event.1, handle ∈ handles.held before) ∧
      ∀ handle, handles.closes event.1 = some handle → handle ∈ handles.held before
  closed : handles.held trace = []

/-- The program begins with the handles `before` open, and leaves those open that its outcome tells. -/
def Moves (before : List η) (after : Except ε α → List η) (program : Program γ ρ ε α) : Prop :=
  ∀ history, handles.held history = before →
    Program.Meets handles.contract (fun outcome later => handles.held later = after outcome) history program

/-- However it ends, the program leaves the same handles open. -/
abbrev Keeps (kept : List η) (program : Program γ ρ ε α) : Prop := handles.Moves kept (fun _ => kept) program

variable {handles} {before : List η} {after : Except ε β → List η}

theorem moves_pure {value : β} (same : before = after (.ok value)) :
    handles.Moves before after (pure value : Program γ ρ ε β) :=
  fun _ reached => reached.trans same

theorem moves_fail {error : ε} (same : before = after (.error error)) :
    handles.Moves before after (.fail error : Program γ ρ ε β) :=
  fun _ reached => reached.trans same

theorem keeps_lift (outcome : Except ε α) : handles.Keeps before (Program.lift outcome : Program γ ρ ε α) :=
  fun _ reached => Program.meets_lift reached

/-- The handles that code leaves are those that the next code begins with. -/
theorem Moves.bind {middle : Except ε α → List η} {program : Program γ ρ ε α} {rest : α → Program γ ρ ε β}
    (first : handles.Moves before middle program) (later : ∀ value, handles.Moves (middle (.ok value)) after (rest value))
    (failed : ∀ error, middle (.error error) = after (.error error)) : handles.Moves before after (program >>= rest) :=
  fun history same => (first history same).bind (fun value history reached => later value history reached)
    fun error _ reached => reached.trans (failed error)

/-- So they are when the next code looks at how the first one ended. -/
theorem Moves.bind_attempt {ε' : Type} {middle : Except ε α → List η} {program : Program γ ρ ε α}
    {rest : Except ε α → Program γ ρ ε' β} {after : Except ε' β → List η} (first : handles.Moves before middle program)
    (later : ∀ outcome, handles.Moves (middle outcome) after (rest outcome)) :
    handles.Moves before after (program.attempt >>= rest) :=
  fun history same => (first history same).bind_attempt fun outcome history reached => later outcome history reached

/-- Code that keeps the handles, followed by code that keeps them. -/
theorem Keeps.bind {program : Program γ ρ ε α} {rest : α → Program γ ρ ε β} (first : handles.Keeps before program)
    (later : ∀ value, handles.Keeps before (rest value)) : handles.Keeps before (program >>= rest) :=
  Moves.bind first later fun _ => rfl

/-- A call that opens and closes nothing. -/
theorem moves_use {request : γ} {rest : ρ request → Program γ ρ ε β}
    (within : ∀ handle ∈ handles.uses request, handle ∈ before)
    (unopened : ∀ answer, handles.opens ⟨request, answer⟩ = none) (unclosed : handles.closes request = none)
    (later : ∀ answer, handles.Moves before after (rest answer)) :
    handles.Moves before after (Program.ask request >>= rest) := by
  rintro history rfl
  refine Program.meets_ask ⟨within, by simp [unclosed]⟩ fun answer _ => later answer _ ?_
  rw [held_snoc, Handles.after, unopened, unclosed]
  simp

/-- A call that may open a handle. -/
theorem moves_open {request : γ} {rest : ρ request → Program γ ρ ε β}
    (within : ∀ handle ∈ handles.uses request, handle ∈ before)
    (unclosed : handles.closes request = none)
    (refused : ∀ answer, handles.opens ⟨request, answer⟩ = none → handles.Moves before after (rest answer))
    (opened : ∀ answer handle, handles.opens ⟨request, answer⟩ = some handle → handle ∉ before →
      handles.Moves (handle :: before) after (rest answer)) :
    handles.Moves before after (Program.ask request >>= rest) := by
  rintro history rfl
  refine Program.meets_ask ⟨within, by simp [unclosed]⟩ fun answer fresh => ?_
  cases found : handles.opens ⟨request, answer⟩ with
  | none =>
    refine refused answer found _ ?_
    rw [held_snoc, Handles.after, found, unclosed]
    simp
  | some handle =>
    refine opened answer handle found (fresh handle found) _ ?_
    rw [held_snoc, Handles.after, found, unclosed]
    simp

/-- The newest handle is closed. -/
theorem moves_close {request : γ} {rest : ρ request → Program γ ρ ε β} {handle : η} (new : handle ∉ before)
    (within : ∀ other ∈ handles.uses request, other ∈ handle :: before) (unopened : ∀ answer, handles.opens ⟨request, answer⟩ = none)
    (closes : handles.closes request = some handle) (later : ∀ answer, handles.Moves before after (rest answer)) :
    handles.Moves (handle :: before) after (Program.ask request >>= rest) := by
  intro history same
  refine Program.meets_ask ⟨same ▸ within, ?_⟩ fun answer _ => later answer _ ?_
  · intro other found
    rw [same, ← Option.some.inj (closes.symm.trans found)]
    exact List.mem_cons_self
  · rw [held_snoc, same, Handles.after, unopened, closes]
    simp only [Option.toList_none, List.nil_append, ne_eq, Option.some.injEq, List.filter_cons, not_true_eq_false,
      decide_false, Bool.false_eq_true, if_false]
    refine List.filter_eq_self.mpr fun other inside => ?_
    rw [decide_eq_true_eq]
    rintro rfl
    exact new inside

/-- A run to the end of a program that leaves no handle open. -/
theorem Keeps.balanced {program : Program γ ρ ε α} {outcome : Except ε α} {trace : Program.History ρ}
    (keeps : handles.Keeps [] program) (ran : Run Program.Step program trace (Program.lift outcome))
    (allowed : Program.Allowed handles.contract [] trace) : handles.Balanced trace := by
  obtain ⟨ended, calls⟩ := (keeps [] rfl).run ran allowed
  refine ⟨calls, ?_⟩
  cases outcome <;> exact ended

end Handles
end Library
