import HermesHey.Library.Text
import Mathlib.Data.List.TakeWhile

/-! The `flag` package, for flags that take a value. Arguments in which every flag is
followed by its value set the flags one after the other, whatever the values are. -/
namespace Library.Flags

/-- Errors of `Parse`. -/
inductive FlagError where
  | badSyntax
  | undefined
  /-- `ErrHelp` -/
  | help
  | needsArgument
  | invalidValue
  deriving DecidableEq, Repr

/-- A flag, and what `Set` does with a value. -/
structure Flag (σ : Type) where
  name : Text
  set : σ → Text → Option σ

/-- What `parseOne` sees in an argument. -/
inductive Argument where
  /-- No flag: the flags have ended before it. -/
  | other
  /-- `--`: the flags end with it. -/
  | terminator
  | bad
  | flag (name : Text) (value : Option Text)
  deriving DecidableEq, Repr

/-- The name, and the value after the first `=` that does not begin the name. -/
def splitValue : Text → Text × Option Text
  | [] => ([], none)
  | first :: rest =>
    match rest.dropWhile (· ≠ ch '=') with
    | [] => (first :: rest, none)
    | _ :: value => (first :: rest.takeWhile (· ≠ ch '='), some value)

/-- `parseOne`, up to the look at the formal flags -/
def readArgument : Text → Argument
  | first :: second :: rest =>
    if first ≠ ch '-' then .other
    else if second = ch '-' ∧ rest = [] then .terminator
    else
      let name := if second = ch '-' then rest else second :: rest
      if name = [] ∨ name.head? = some (ch '-') ∨ name.head? = some (ch '=') then .bad
      else .flag (splitValue name).1 (splitValue name).2
  | _ => .other

variable {σ : Type} {formal : List (Flag σ)}

/-- `FlagSet.Parse`: what the flags set, and the arguments that are left. -/
def parse (formal : List (Flag σ)) (state : σ) : List Text → Except FlagError (σ × List Text)
  | [] => .ok (state, [])
  | argument :: rest =>
    match readArgument argument with
    | .other => .ok (state, argument :: rest)
    | .terminator => .ok (state, rest)
    | .bad => .error .badSyntax
    | .flag name given =>
      match formal.find? (·.name = name) with
      | none => .error (if name = text "help" ∨ name = text "h" then .help else .undefined)
      | some flag =>
        match given, rest with
        | some value, rest =>
          match flag.set state value with
          | none => .error .invalidValue
          | some next => parse formal next rest
        | none, value :: rest =>
          match flag.set state value with
          | none => .error .invalidValue
          | some next => parse formal next rest
        | none, [] => .error .needsArgument

/-! ## Flags that are written out -/

/-- A name that two minus signs turn into a flag. -/
def Named (name : Text) : Prop := name ≠ [] ∧ name.head? ≠ some (ch '-') ∧ ch '=' ∉ name

instance : Decidable (Named name) := inferInstanceAs (Decidable (_ ∧ _))

def spell (name : Text) : Text := ch '-' :: ch '-' :: name

/-- Flags, each followed by its value. -/
def written (settings : List (Flag σ × Text)) : List Text := settings.flatMap fun setting => [spell setting.1.name, setting.2]

private theorem splitValue_plain (absent : ch '=' ∉ name) : splitValue name = (name, none) := by
  cases name with
  | nil => rfl
  | cons first rest =>
    have none : rest.dropWhile (· ≠ ch '=') = [] := by
      rw [List.dropWhile_eq_nil_iff]
      intro point held
      refine decide_eq_true fun same => absent ?_
      rw [← same]
      exact List.mem_cons_of_mem _ held
    rw [splitValue, none]

private theorem readArgument_spell (named : Named name) : readArgument (spell name) = .flag name none := by
  obtain ⟨filled, sign, absent⟩ := named
  have equals : name.head? ≠ some (ch '=') := fun front => absent (List.mem_of_head? front)
  rw [spell, readArgument, if_neg (by simp), if_neg (by simp [filled]), if_pos rfl, if_neg (by simp [filled, sign, equals]),
    splitValue_plain absent]

/-- The formal flags are known by their names. -/
structure Distinct (formal : List (Flag σ)) : Prop where
  names : (formal.map Flag.name).Nodup
  named : ∀ flag ∈ formal, Named flag.name

private theorem find_flag (distinct : (formal.map Flag.name).Nodup) {flag : Flag σ} (listed : flag ∈ formal) :
    formal.find? (·.name = flag.name) = some flag := by
  induction formal with
  | nil => cases listed
  | cons first rest ih =>
    obtain ⟨fresh, others⟩ := List.nodup_cons.mp distinct
    rcases List.mem_cons.mp listed with rfl | later
    · exact List.find?_cons_of_pos (decide_eq_true rfl)
    · have other : first.name ≠ flag.name := fun same => fresh (same ▸ List.mem_map_of_mem later)
      rw [List.find?_cons_of_neg (by simpa using other)]
      exact ih others later

/-- **What is written is set.** No value is taken for a flag; induction on the settings. -/
theorem parse_written (distinct : Distinct formal) (settings : List (Flag σ × Text))
    (listed : ∀ setting ∈ settings, setting.1 ∈ formal) (state : σ) : parse formal state (written settings) =
      match settings.foldlM (fun state setting => setting.1.set state setting.2) state with
      | none => .error .invalidValue
      | some final => .ok (final, []) := by
  induction settings generalizing state with
  | nil => rfl
  | cons setting rest ih =>
    obtain ⟨first, others⟩ := List.forall_mem_cons.mp listed
    have split : written (setting :: rest) = spell setting.1.name :: setting.2 :: written rest := rfl
    rw [split, parse, readArgument_spell (distinct.named _ first)]
    simp only [find_flag distinct.names first, List.foldlM_cons]
    cases setting.1.set state setting.2 with
    | none => rfl
    | some next => exact ih others next

end Library.Flags
