import HermesHey.DurableQueue

/-! `hey_platform/adapter.py`, the parts without a task of their own: the access
policy, the checks of a watch line, and the result of one mutation. -/
namespace HermesHey.Adapter
open Library Library.Json HermesHey.Core

/-- `str.lower()` of the ASCII range. -/
def asciiLower : CodePoint → CodePoint
  | .scalar c => .scalar c.toLower
  | point => point

/-- The Unicode tables of Python's strings. Only the ASCII range is relied on. -/
structure PyText where
  /-- `str.lower` -/
  lower : Text → Text
  /-- The value of a decimal digit, for `\d` and `int`. -/
  digit : CodePoint → Option Nat
  lower_ascii : ∀ t, (∀ point ∈ t, point.code < 128) → lower t = t.map asciiLower
  digit_ascii : ∀ point : CodePoint, point.code < 128 →
    digit point = if point.isDigit then some (point.code - 48) else none

/-- Strings with no case and no digits beyond the ASCII range. -/
def PyText.ascii : PyText where
  lower t := t.map asciiLower
  digit point := if point.isDigit then some (point.code - 48) else none
  lower_ascii _ _ := rfl
  digit_ascii _ _ := rfl

/-- The configuration of one adapter that the event path reads. -/
structure Config where
  accountId : Int
  ownEmail : Text
  allowedSenders : List Text
  allowAllUsers : Bool
  deriving Repr

section
variable (py : PyText)

/-- `_is_dm_allowed` -/
def isDmAllowed (config : Config) (userId : Text) : Bool :=
  let sender := py.lower (strip userId)
  sender ≠ [] && sender ≠ config.ownEmail && (config.allowAllUsers || sender ∈ config.allowedSenders)

/-- `_authorized` -/
def authorized (config : Config) (event : HeyEvent) : Bool :=
  let sender := py.lower event.senderEmail
  if sender = [] ∨ sender = config.ownEmail then false else isDmAllowed py config sender

/-- `str(exc)` -/
def message : PyError → Text
  | .type message | .value message | .runtime message => message
  | _ => []

/-- `except ValueError as exc: raise RuntimeError(str(exc))` -/
def valueAsRuntime : Except PyError α → Except PyError α
  | .error (.value message) => .error (.runtime message)
  | outcome => outcome

/-- The checks of `process_watch_line` before the event reaches the queue. -/
def checkWatchLine (config : Config) (raw : Members) : Except PyError HeyEvent := do
  match ← valueAsRuntime (parseFatalFrame raw) with
  | some fatal => .error (.runtime (text "HEY SDK watch reported a fatal error: " ++ fatal))
  | none =>
    match parseEventFrame raw with
    | .error e =>
      if text "invalid post-ready frame" <:+: message e then .error (.runtime (message e))
      else .error (.runtime "HEY SDK watch returned an invalid event")
    | .ok event =>
      if event.accountId ≠ config.accountId then
        .error (.runtime "HEY SDK watch event account does not match configuration")
      else return event

/-! ## The result of one mutation -/

/-- The two mutations, `client.reply` and `client.comment`. -/
inductive Method where
  | reply
  | comment
  deriving DecidableEq

def Method.name : Method → Text
  | .reply => text "reply"
  | .comment => text "comment"

/-- What calling `client.reply` or `client.comment` ends in. -/
inductive Outcome where
  | returned (value : Value)
  | runtime (message : Text)
  /-- Any other `Exception`. -/
  | failed
  deriving DecidableEq

structure SendResult where
  success : Bool
  error : Text
  retryable : Bool
  deriving DecidableEq

/-- A match of `exit\s+(\d+)` at the front: its digits. -/
def exitDigits (t : Text) : Option (List Nat) :=
  if (text "exit").isPrefixOf t then
    let afterExit := t.drop 4
    let afterSpace := afterExit.dropWhile isWhite
    if afterSpace.length = afterExit.length then none
    else
      match (afterSpace.takeWhile fun point => (py.digit point).isSome).filterMap py.digit with
      | [] => none
      | digits => some digits
  else none

/-- The leftmost match, as `re.search` finds it. -/
def searchExit : Text → Option (List Nat)
  | [] => none
  | point :: rest =>
    match exitDigits py (point :: rest) with
    | some digits => some digits
    | none => searchExit rest

/-- `_retryable` -/
def retryable (error : Text) : Except PyError Bool :=
  match searchExit py (py.lower error) with
  | none => .ok false
  | some digits =>
    if digits.length ≤ digitLimit then .ok (digits.foldl (fun n digit => 10 * n + digit) 0 = 75)
    else .error (.value "Exceeds the limit (4300 digits) for integer string conversion")

/-- The response is exactly `{"ok": True}`. -/
def confirmed : Outcome → Bool
  | .returned (.obj result) =>
    sameKeys (result.map Prod.fst) [text "ok"] && result.lookup (text "ok") == some (.bool true)
  | _ => false

/-- The end of `send`, after the mutation named `name`. -/
def sendResult (name : Text) (outcome : Outcome) : Except PyError SendResult :=
  match outcome with
  | .runtime error => do return { success := false, error, retryable := ← retryable py error }
  | .failed =>
    return { success := false, error := text "HEY " ++ name ++ text " failed", retryable := false }
  | .returned value =>
    if confirmed (.returned value) then return { success := true, error := [], retryable := false }
    else
      return { success := false, error := text "HEY SDK " ++ name ++ text " returned invalid response",
               retryable := false }

end

/-- A send succeeds exactly when the mutation's response was the confirmation. -/
theorem sendResult_success (result : sendResult py name outcome = .ok sent) :
    sent.success = true ↔ confirmed outcome = true := by
  cases outcome with
  | returned value =>
    rw [sendResult] at result
    split at result
    · rename_i held
      cases result
      simp [held]
    · rename_i refused
      cases result
      simp [refused]
  | runtime error =>
    simp only [sendResult, bind_eq_ok, pure_eq_ok] at result
    obtain ⟨_, _, rfl⟩ := result
    simp [confirmed]
  | failed =>
    cases result
    simp [confirmed]

/-- A confirmed outcome is reported as a success, whatever the mutation is called. -/
theorem sendResult_confirmed (held : confirmed outcome = true) (name : Text) :
    ∃ sent, sendResult py name outcome = .ok sent ∧ sent.success = true := by
  cases outcome with
  | returned value =>
    rw [sendResult, if_pos held]
    exact ⟨_, rfl, rfl⟩
  | runtime error => cases held
  | failed => cases held

end HermesHey.Adapter
