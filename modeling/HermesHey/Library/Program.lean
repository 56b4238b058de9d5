import HermesHey.Library.Transition
import Mathlib.Data.Sigma.Basic

/-! Programs that call their environment. A program is the tree of its calls,
and a run of it is a list of calls with their answers, which may stop anywhere.
What a program guarantees is stated over that history. -/
namespace Library

/-- `γ` are the calls, and `ρ request` is what `request` may be answered. -/
inductive Program (γ : Type) (ρ : γ → Type) (ε α : Type) where
  | pure (value : α)
  | fail (error : ε)
  | call (request : γ) (next : ρ request → Program γ ρ ε α)

namespace Program
variable {γ : Type} {ρ : γ → Type} {ε α β σ δ : Type}

/-- The answered calls, oldest first. -/
abbrev History (ρ : γ → Type) := List (Sigma ρ)

def bind : Program γ ρ ε α → (α → Program γ ρ ε β) → Program γ ρ ε β
  | .pure value, rest => rest value
  | .fail error, _ => .fail error
  | .call request next, rest => .call request fun answer => (next answer).bind rest

instance : Monad (Program γ ρ ε) where
  pure := .pure
  bind := bind

/-- One call, and its answer as the value. -/
def ask (request : γ) : Program γ ρ ε (ρ request) := .call request .pure

/-- A computation without calls. -/
def lift : Except ε α → Program γ ρ ε α
  | .ok value => .pure value
  | .error error => .fail error

/-- Another error in the place of the program's own. -/
def mapFail {ε' : Type} (change : ε → ε') : Program γ ρ ε α → Program γ ρ ε' α
  | .pure value => .pure value
  | .fail error => .fail (change error)
  | .call request next => .call request fun answer => (next answer).mapFail change

/-- A program whose failure is a value, and so cannot stop what follows. -/
def attempt {ε' : Type} : Program γ ρ ε α → Program γ ρ ε' (Except ε α)
  | .pure value => .pure (.ok value)
  | .fail error => .pure (.error error)
  | .call request next => .call request fun answer => (next answer).attempt

/-- One call is answered. -/
inductive Step : Program γ ρ ε α → Sigma ρ → Program γ ρ ε α → Prop where
  | answered : Step (.call request next) ⟨request, answer⟩ (next answer)

/-! ## Guarantees -/

/-- What the environment may answer after a history, and what must hold of the
history before a call. -/
structure Contract (ρ : γ → Type) where
  may : History ρ → ∀ request, ρ request → Prop
  must : History ρ → γ → Prop

/-- After the history, the program keeps the contract, and ends in `post`. -/
def Meets (contract : Contract ρ) (post : Except ε α → History ρ → Prop) :
    History ρ → Program γ ρ ε α → Prop
  | history, .pure value => post (.ok value) history
  | history, .fail error => post (.error error) history
  | history, .call request next => contract.must history request ∧
      ∀ answer, contract.may history request answer → Meets contract post (history ++ [⟨request, answer⟩]) (next answer)

variable {contract : Contract ρ} {post mid : Except ε α → History ρ → Prop}

theorem meets_pure {value : α} (held : post (.ok value) history) :
    Meets contract post history (pure value : Program γ ρ ε α) := held

theorem meets_fail {error : ε} (held : post (.error error) history) :
    Meets contract post history (.fail error : Program γ ρ ε α) := held

theorem meets_lift {outcome : Except ε α} (held : post outcome history) :
    Meets contract post history (lift outcome : Program γ ρ ε α) := by
  cases outcome <;> exact held

/-- The rule of consequence. -/
theorem Meets.mono {program : Program γ ρ ε α} (meets : Meets contract mid history program)
    (weaker : ∀ outcome history, mid outcome history → post outcome history) :
    Meets contract post history program := by
  induction program generalizing history with
  | pure value => exact weaker _ _ meets
  | fail error => exact weaker _ _ meets
  | call request next ih => exact ⟨meets.1, fun answer allowed => ih answer (meets.2 answer allowed)⟩

/-- The rule of composition. -/
theorem Meets.bind {program : Program γ ρ ε α} {rest : α → Program γ ρ ε β}
    {post : Except ε β → History ρ → Prop} (meets : Meets contract mid history program)
    (returns : ∀ value history, mid (.ok value) history → Meets contract post history (rest value))
    (fails : ∀ error history, mid (.error error) history → post (.error error) history) :
    Meets contract post history (program >>= rest) := by
  induction program generalizing history with
  | pure value => exact returns value history meets
  | fail error => exact fails error history meets
  | call request next ih => exact ⟨meets.1, fun answer allowed => ih answer (meets.2 answer allowed)⟩

/-- Changing an error changes only what is said of the error. -/
theorem Meets.mapFail {ε' : Type} {change : ε → ε'} {program : Program γ ρ ε α}
    {post : Except ε' α → History ρ → Prop}
    (meets : Meets contract (fun outcome history => post (outcome.mapError change) history) history program) :
    Meets contract post history (program.mapFail change) := by
  induction program generalizing history with
  | pure value => exact meets
  | fail error => exact meets
  | call request next ih => exact ⟨meets.1, fun answer allowed => ih answer (meets.2 answer allowed)⟩

/-- After an attempt the program goes on, however the attempt ended. -/
theorem Meets.bind_attempt {ε' : Type} {program : Program γ ρ ε α} {rest : Except ε α → Program γ ρ ε' β}
    {post : Except ε' β → History ρ → Prop} (meets : Meets contract mid history program)
    (each : ∀ outcome history, mid outcome history → Meets contract post history (rest outcome)) :
    Meets contract post history (program.attempt >>= rest) := by
  induction program generalizing history with
  | pure value => exact each _ history meets
  | fail error => exact each _ history meets
  | call request next ih => exact ⟨meets.1, fun answer allowed => ih answer (meets.2 answer allowed)⟩

/-- A call, and what follows its answer. -/
theorem meets_ask {request : γ} {rest : ρ request → Program γ ρ ε β} {post : Except ε β → History ρ → Prop}
    (must : contract.must history request)
    (answers : ∀ answer, contract.may history request answer →
      Meets contract post (history ++ [⟨request, answer⟩]) (rest answer)) :
    Meets contract post history (ask request >>= rest) := ⟨must, answers⟩

/-- A loop over a list: what holds after the items done so far. -/
theorem meets_foldlM {body : σ → δ → Program γ ρ ε σ} {post : Except ε σ → History ρ → Prop}
    (inv : List δ → σ → History ρ → Prop) (items : List δ)
    (step : ∀ done item rest state history, items = done ++ item :: rest → inv done state history →
      Meets contract (fun
        | .ok next, history => inv (done ++ [item]) next history
        | .error error, history => post (.error error) history) history (body state item))
    (ends : ∀ state history, inv items state history → post (.ok state) history)
    (start : inv [] state history) : Meets contract post history (items.foldlM body state) := by
  suffices loop : ∀ done rest state history, items = done ++ rest → inv done state history →
      Meets contract post history (rest.foldlM body state) from loop [] items state history rfl start
  intro done rest
  induction rest generalizing done with
  | nil =>
    rintro state history rfl held
    rw [List.append_nil] at *
    exact ends state history held
  | cons item rest ih =>
    intro state history split held
    rw [List.foldlM_cons]
    refine (step done item rest state history split held).bind ?_ fun _ _ failed => failed
    intro next history later
    exact ih (done ++ [item]) next history (by rw [split, List.append_cons]) later

/-- What holds where the program returns a value. -/
def Returns (held : α → History ρ → Prop) : Except ε α → History ρ → Prop
  | .ok value, history => held value history
  | .error _, _ => True

/-- The rule of composition, where only returning counts. -/
theorem Meets.bind_returns {program : Program γ ρ ε α} {rest : α → Program γ ρ ε β}
    {held : α → History ρ → Prop} {later : β → History ρ → Prop}
    (meets : Meets contract (Returns held) history program)
    (returns : ∀ value history, held value history → Meets contract (Returns later) history (rest value)) :
    Meets contract (Returns later) history (program >>= rest) :=
  meets.bind returns fun _ _ _ => trivial

/-- Forgetting what holds after an error. -/
theorem Meets.returns {program : Program γ ρ ε α} {held : α → History ρ → Prop}
    (meets : Meets contract mid history program)
    (each : ∀ value history, mid (.ok value) history → held value history) :
    Meets contract (Returns held) history program := by
  apply meets.mono
  intro outcome history reached
  cases outcome with
  | error error => exact trivial
  | ok value => exact each value history reached

theorem Meets.mapFail_returns {ε' : Type} {program : Program γ ρ ε α} {held : α → History ρ → Prop}
    (meets : Meets contract (Returns held) history program) (change : ε → ε') :
    Meets contract (Returns held) history (program.mapFail change) := by
  apply Meets.mapFail
  apply meets.mono
  intro outcome history reached
  cases outcome <;> exact reached

/-- A loop that holds its invariant as long as its rounds return. -/
theorem meets_foldlM_returns {body : σ → δ → Program γ ρ ε σ} (inv : List δ → σ → History ρ → Prop)
    (items : List δ)
    (step : ∀ done item rest state history, items = done ++ item :: rest → inv done state history →
      Meets contract (Returns (inv (done ++ [item]))) history (body state item))
    (start : inv [] state history) :
    Meets contract (Returns (inv items)) history (items.foldlM body state) := by
  refine meets_foldlM inv items ?_ (fun _ _ held => held) start
  intro done item rest state history split held
  apply (step done item rest state history split held).mono
  intro outcome history reached
  cases outcome <;> exact reached

/-! ## The calls of a program -/

/-- Every call that the program may make is one of `calls`. -/
def Within (calls : γ → Prop) : Program γ ρ ε α → Prop
  | .pure _ | .fail _ => True
  | .call request next => calls request ∧ ∀ answer, Within calls (next answer)

section
variable {calls : γ → Prop}

theorem within_pure (value : α) : Within calls (pure value : Program γ ρ ε α) := trivial

theorem within_fail (error : ε) : Within calls (.fail error : Program γ ρ ε α) := trivial

theorem within_lift (outcome : Except ε α) : Within calls (lift outcome : Program γ ρ ε α) := by
  cases outcome <;> trivial

theorem within_ask {request : γ} (allowed : calls request) :
    Within calls (ask request : Program γ ρ ε (ρ request)) := ⟨allowed, fun _ => trivial⟩

/-- Code within some calls, followed by code within them. -/
theorem Within.bind {program : Program γ ρ ε α} {rest : α → Program γ ρ ε β} (first : Within calls program)
    (later : ∀ value, Within calls (rest value)) : Within calls (program >>= rest) := by
  induction program with
  | pure value => exact later value
  | fail error => exact first
  | call request next ih => exact ⟨first.1, fun answer => ih answer (first.2 answer)⟩

theorem Within.mapFail {ε' : Type} {program : Program γ ρ ε α} (within : Within calls program)
    (change : ε → ε') : Within calls (program.mapFail change) := by
  induction program with
  | pure value => exact within
  | fail error => exact within
  | call request next ih => exact ⟨within.1, fun answer => ih answer (within.2 answer)⟩

theorem Within.attempt {ε' : Type} {program : Program γ ρ ε α} (within : Within calls program) :
    Within calls (program.attempt : Program γ ρ ε' (Except ε α)) := by
  induction program with
  | pure value => exact within
  | fail error => exact within
  | call request next ih => exact ⟨within.1, fun answer => ih answer (within.2 answer)⟩

/-- Code within some calls is within more. -/
theorem Within.mono {wider : γ → Prop} {program : Program γ ρ ε α} (within : Within calls program)
    (weaker : ∀ request, calls request → wider request) : Within wider program := by
  induction program with
  | pure value => exact within
  | fail error => exact within
  | call request next ih => exact ⟨weaker request within.1, fun answer => ih answer (within.2 answer)⟩

/-- A loop is within the calls of its body. -/
theorem within_foldlM {body : σ → δ → Program γ ρ ε σ}
    (each : ∀ state item, Within calls (body state item)) (state : σ) (items : List δ) :
    Within calls (items.foldlM body state) := by
  induction items generalizing state with
  | nil => exact trivial
  | cons item items ih =>
    rw [List.foldlM_cons]
    exact (each state item).bind ih

/-- Such a program meets any contract that asks nothing of these calls, and
extends the history by these calls only. -/
theorem Within.meets {program : Program γ ρ ε α} (within : Within calls program)
    (harmless : ∀ history request, calls request → contract.must history request) :
    Meets contract (fun _ later => ∃ trace, later = history ++ trace ∧ ∀ event ∈ trace, calls event.1)
      history program := by
  induction program generalizing history with
  | pure value => exact ⟨[], by simp⟩
  | fail error => exact ⟨[], by simp⟩
  | call request next ih =>
    refine ⟨harmless history request within.1, fun answer _ => (ih answer (within.2 answer)).mono ?_⟩
    rintro _ _ ⟨trace, rfl, inside⟩
    refine ⟨⟨request, answer⟩ :: trace, List.append_assoc .., ?_⟩
    exact List.forall_mem_cons.mpr ⟨within.1, inside⟩

/-- Whatever contract it meets, it extends the history by these calls only. -/
theorem Meets.within {program : Program γ ρ ε α} (meets : Meets contract post history program)
    (within : Within calls program) :
    Meets contract (fun outcome later => post outcome later ∧
      ∃ trace, later = history ++ trace ∧ ∀ event ∈ trace, calls event.1) history program := by
  induction program generalizing history with
  | pure value => exact ⟨meets, [], by simp⟩
  | fail error => exact ⟨meets, [], by simp⟩
  | call request next ih =>
    refine ⟨meets.1, fun answer allowed => (ih answer (meets.2 answer allowed) (within.2 answer)).mono ?_⟩
    rintro _ _ ⟨reached, trace, rfl, inside⟩
    refine ⟨reached, ⟨request, answer⟩ :: trace, List.append_assoc .., ?_⟩
    exact List.forall_mem_cons.mpr ⟨within.1, inside⟩

end

/-! ## Runs -/

/-- The answers in a trace are all allowed where they are given. -/
def Allowed (contract : Contract ρ) (history trace : History ρ) : Prop :=
  ∀ before event after, trace = before ++ event :: after → contract.may (history ++ before) event.1 event.2

theorem Allowed.head (allowed : Allowed contract history (event :: trace)) :
    contract.may history event.1 event.2 := by
  simpa using allowed [] event trace rfl

theorem Allowed.tail (allowed : Allowed contract history (event :: trace)) :
    Allowed contract (history ++ [event]) trace := by
  intro before other after split
  have held := allowed (event :: before) other after (by rw [split, List.cons_append])
  rwa [List.append_assoc, List.singleton_append]

/-- An allowed history is allowed up to any point, and from there on. -/
theorem Allowed.split (allowed : Allowed contract history (first ++ later)) :
    Allowed contract history first ∧ Allowed contract (history ++ first) later := by
  constructor
  · intro before event after same
    exact allowed before event (after ++ later) (by rw [same, List.append_assoc, List.cons_append])
  · intro before event after same
    rw [List.append_assoc]
    exact allowed (first ++ before) event after (by rw [same, List.append_assoc])

/-- Along every run the calls keep the contract, and the rest of the program still meets it. -/
theorem Meets.run {program rest : Program γ ρ ε α} {trace : History ρ}
    (meets : Meets contract post history program) (ran : Run Step program trace rest)
    (allowed : Allowed contract history trace) :
    Meets contract post (history ++ trace) rest ∧
      ∀ before event after, trace = before ++ event :: after → contract.must (history ++ before) event.1 := by
  induction ran generalizing history with
  | nil => exact ⟨by rwa [List.append_nil], by simp⟩
  | @cons program event next trace rest taken _ ih =>
    cases taken with
    | @answered request next answer =>
      obtain ⟨must, answers⟩ := meets
      obtain ⟨reached, calls⟩ := ih (answers answer allowed.head) allowed.tail
      rw [List.append_assoc, List.singleton_append] at reached
      refine ⟨reached, ?_⟩
      intro before event after split
      cases before with
      | nil =>
        cases split
        rwa [List.append_nil]
      | cons head before =>
        rw [List.cons_append, List.cons.injEq] at split
        obtain ⟨rfl, split⟩ := split
        have held := calls before event after split
        rwa [List.append_assoc, List.singleton_append] at held

/-- What the calls and the end of a program require, holds already. -/
theorem Meets.now {program : Program γ ρ ε α} {held : Prop} (meets : Meets contract post history program)
    (calls : ∀ request, contract.must history request → held) (ends : ∀ outcome, post outcome history → held) : held := by
  cases program with
  | pure value => exact ends _ meets
  | fail error => exact ends _ meets
  | call request next => exact calls request meets.1

/-- Nothing is asked of the environment, and nothing of the program. -/
def Contract.free : Contract ρ := ⟨fun _ _ _ => True, fun _ _ => True⟩

/-- Where the answers are free, whatever is met holds after every run. -/
theorem Meets.ended {program : Program γ ρ ε α} {rest : Program γ ρ ε α} {trace : History ρ}
    (meets : Meets .free post [] program) (ran : Run Step program trace rest) :
    Meets .free post trace rest :=
  (meets.run ran fun _ _ _ _ => trivial).1

/-- The calls of a run are those that its code is within. -/
theorem Within.run {calls : γ → Prop} {program rest : Program γ ρ ε α} {trace : History ρ}
    (within : Within calls program) (ran : Run Step program trace rest) :
    (∀ event ∈ trace, calls event.1) ∧ Within calls rest := by
  induction ran with
  | nil => exact ⟨by simp, within⟩
  | cons taken _ ih =>
    cases taken with
    | answered =>
      obtain ⟨inside, left⟩ := ih (within.2 _)
      exact ⟨List.forall_mem_cons.mpr ⟨within.1, inside⟩, left⟩

theorem Allowed.nil : Allowed contract history [] := by
  intro before event after split
  simp at split

theorem Allowed.cons (first : contract.may history event.1 event.2)
    (rest : Allowed contract (history ++ [event]) trace) :
    Allowed contract history (event :: trace) := by
  intro before other after split
  cases before with
  | nil =>
    cases split
    rwa [List.append_nil]
  | cons head before =>
    obtain ⟨rfl, same⟩ := List.cons.inj split
    have held := rest before other after same
    rwa [List.append_assoc, List.singleton_append] at held

theorem Allowed.snoc (allowed : Allowed contract history trace)
    (last : contract.may (history ++ trace) event.1 event.2) : Allowed contract history (trace ++ [event]) := by
  intro before other after split
  rcases List.eq_nil_or_concat' after with rfl | ⟨front, final, rfl⟩
  · obtain ⟨rfl, same⟩ := List.append_inj' split rfl
    cases same
    exact last
  · rw [← List.cons_append, ← List.append_assoc] at split
    exact allowed before other front (List.append_inj' split rfl).1

/-- In the middle of a run the program is at the call that comes next. -/
theorem calls_at {program rest : Program γ ρ ε α} {before after : History ρ} {event : Sigma ρ}
    (ran : Run Step program (before ++ event :: after) rest) :
    ∃ next, Run Step program before (.call event.1 next) := by
  obtain ⟨_, _, first, taken, _⟩ := ran.at_label
  cases taken
  exact ⟨_, first⟩

/-- A run of two programs in sequence is in the first, or has ended it. -/
theorem run_bind {program : Program γ ρ ε α} {rest : α → Program γ ρ ε β} {trace : History ρ}
    {left : Program γ ρ ε β} (ran : Run Step (program >>= rest) trace left) :
    (∃ inside, Run Step program trace inside ∧ left = inside >>= rest) ∨
      ∃ value before after, trace = before ++ after ∧ Run Step program before (.pure value) ∧
        Run Step (rest value) after left := by
  induction trace generalizing program with
  | nil =>
    cases ran
    exact .inl ⟨program, .nil, rfl⟩
  | cons event trace ih =>
    cases program with
    | pure value => exact .inr ⟨value, [], _, rfl, .nil, ran⟩
    | fail error =>
      cases ran with
      | cons taken _ => cases taken
    | call request next =>
      cases ran with
      | cons taken later =>
        cases taken with
        | @answered _ _ answer =>
          rcases ih later with ⟨inside, first, same⟩ | ⟨value, before, after, rfl, first, second⟩
          · exact .inl ⟨inside, .cons .answered first, same⟩
          · exact .inr ⟨value, _ :: before, after, rfl, .cons .answered first, second⟩

/-- A run of the first program that returns, and a run of the rest. -/
theorem run_bind_of {program : Program γ ρ ε α} {rest : α → Program γ ρ ε β} {before after : History ρ}
    {left : Program γ ρ ε β} (first : Run Step program before (.pure value))
    (second : Run Step (rest value) after left) : Run Step (program >>= rest) (before ++ after) left := by
  generalize ended : (Program.pure value : Program γ ρ ε α) = last at first
  induction first with
  | nil =>
    cases ended
    exact second
  | cons taken _ ih =>
    cases taken with
    | answered => exact .cons .answered (ih ended)

/-- A run of a program is a run of its attempt. -/
theorem run_attempt_of {ε' : Type} {program : Program γ ρ ε α} {outcome : Except ε α} {trace : History ρ}
    (ran : Run Step program trace (lift outcome)) :
    Run Step (program.attempt : Program γ ρ ε' (Except ε α)) trace (.pure outcome) := by
  generalize ended : lift outcome = last at ran
  induction ran with
  | nil =>
    subst ended
    cases outcome <;> exact .nil
  | cons taken _ ih =>
    cases taken with
    | answered => exact .cons .answered (ih ended)

/-! ## One answer for each call -/

/-- The outcome when one function answers every call. -/
def eval (answers : ∀ request, ρ request) : Program γ ρ ε α → Except ε α
  | .pure value => .ok value
  | .fail error => .error error
  | .call request next => (next (answers request)).eval answers

section
variable {answers : ∀ request, ρ request}

@[simp] theorem eval_pure (value : α) : (pure value : Program γ ρ ε α).eval answers = .ok value := rfl

@[simp] theorem eval_fail (error : ε) : (.fail error : Program γ ρ ε α).eval answers = .error error := rfl

@[simp] theorem eval_lift (outcome : Except ε α) : (lift outcome : Program γ ρ ε α).eval answers = outcome := by
  cases outcome <;> rfl

@[simp] theorem eval_ask (request : γ) :
    (ask request : Program γ ρ ε (ρ request)).eval answers = .ok (answers request) := rfl

@[simp] theorem eval_bind (program : Program γ ρ ε α) (rest : α → Program γ ρ ε β) :
    (program >>= rest).eval answers = program.eval answers >>= fun value => (rest value).eval answers := by
  induction program with
  | pure value => rfl
  | fail error => rfl
  | call request next ih => exact ih (answers request)

/-- A call whose answer is known. -/
theorem eval_ask_bind {request : γ} {answer : ρ request} {rest : ρ request → Program γ ρ ε β}
    (answered : answers request = answer) : (ask request >>= rest).eval answers = (rest answer).eval answers := by
  rw [← answered]
  rfl

@[simp] theorem eval_mapFail {ε' : Type} (change : ε → ε') (program : Program γ ρ ε α) :
    (program.mapFail change).eval answers = (program.eval answers).mapError change := by
  induction program with
  | pure value => rfl
  | fail error => rfl
  | call request next ih => exact ih (answers request)

/-- Evaluating a loop is looping over evaluations. -/
theorem eval_foldlM (body : σ → δ → Program γ ρ ε σ) (items : List δ) (state : σ) :
    (items.foldlM body state).eval answers =
      items.foldlM (fun state item => (body state item).eval answers) state := by
  induction items generalizing state with
  | nil => rfl
  | cons item items ih =>
    rw [List.foldlM_cons, List.foldlM_cons, eval_bind]
    congr 1
    funext next
    exact ih next

/-- The history of that run. -/
def calls (answers : ∀ request, ρ request) : Program γ ρ ε α → History ρ
  | .pure _ | .fail _ => []
  | .call request next => ⟨request, answers request⟩ :: (next (answers request)).calls answers

/-- Answering each call by the function is a run. -/
theorem calls_run (answers : ∀ request, ρ request) (program : Program γ ρ ε α) :
    Run Step program (program.calls answers) (lift (program.eval answers)) := by
  induction program with
  | pure value => exact .nil
  | fail error => exact .nil
  | call request next ih => exact .cons .answered (ih (answers request))

/-- The answers in that history are the function's. -/
theorem answer_of_mem_calls {request : γ} {answer : ρ request} {program : Program γ ρ ε α}
    (held : ⟨request, answer⟩ ∈ program.calls answers) :
    answer = answers request := by
  induction program with
  | pure value => cases held
  | fail error => cases held
  | call other next ih =>
    rcases List.mem_cons.mp held with same | later
    · cases same
      rfl
    · exact ih _ later

/-- The calls of two programs in a row; those of the second are made when the first returns. -/
theorem calls_bind (program : Program γ ρ ε α) (rest : α → Program γ ρ ε β) :
    (program >>= rest).calls answers = program.calls answers ++
      match program.eval answers with
      | .ok value => (rest value).calls answers
      | .error _ => [] := by
  induction program with
  | pure value => rfl
  | fail error => rfl
  | call request next ih => exact congrArg (⟨request, answers request⟩ :: ·) (ih (answers request))

/-- The outcome depends on the answers to the program's own calls. -/
theorem Within.eval_congr {calls : γ → Prop} {answers' : ∀ request, ρ request} {program : Program γ ρ ε α}
    (within : Within calls program) (same : ∀ request, calls request → answers request = answers' request) :
    program.eval answers = program.eval answers' := by
  induction program with
  | pure value => rfl
  | fail error => rfl
  | call request next ih =>
    rw [eval, eval, same request within.1]
    exact ih _ (within.2 _)

end

end Program
end Library
