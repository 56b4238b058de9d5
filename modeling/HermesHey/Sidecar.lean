import Mathlib.Data.List.AList
import HermesHey.Core
import HermesHey.Library.Program

/-! What the sidecar's modes share: the errors they make and inspect, the SDK
values they read, and the calls they make to the outside. -/
namespace HermesHey.Sidecar
open Library Library.Json

/-! ## Errors -/

/-- The codes of `hey.Error` that are told apart. -/
inductive ErrorCode where
  | network
  | rateLimit
  | other
  deriving DecidableEq

/-- The `*hey.Error` in a chain. -/
structure ApiError where
  code : ErrorCode
  httpStatus : Int

/-- The `net.Error` in a chain. -/
structure NetworkError where
  timeout : Bool
  temporary : Bool

/-- An error made outside the sidecar, as far as `errors.Is` and `errors.As` look into it. -/
structure Foreign where
  message : Text
  canceled : Bool
  deadlineExceeded : Bool
  api : Option ApiError
  network : Option NetworkError

inductive GoError where
  | foreign (error : Foreign)
  /-- `fmt.Errorf` without `%w` -/
  | plain (message : Text)
  /-- `fmt.Errorf("label: %w", inner)` -/
  | wrap (label : Text) (inner : GoError)
  /-- `safeRetryError` -/
  | safeRetry (inner : GoError)

instance : Coe Foreign GoError := ⟨.foreign⟩

namespace GoError

/-- `err.Error()` -/
def message : GoError → Text
  | .foreign error => error.message
  | .plain message => message
  | .wrap label inner => label ++ text ": " ++ inner.message
  | .safeRetry inner => inner.message

/-- `errors.Is(err, context.Canceled)` -/
def isCanceled : GoError → Bool
  | .foreign error => error.canceled
  | .plain _ => false
  | .wrap _ inner | .safeRetry inner => inner.isCanceled

/-- `errors.Is(err, context.DeadlineExceeded)` -/
def isDeadlineExceeded : GoError → Bool
  | .foreign error => error.deadlineExceeded
  | .plain _ => false
  | .wrap _ inner | .safeRetry inner => inner.isDeadlineExceeded

/-- `errors.As(err, &apiError)` -/
def asApi : GoError → Option ApiError
  | .foreign error => error.api
  | .plain _ => none
  | .wrap _ inner | .safeRetry inner => inner.asApi

/-- `errors.As(err, &networkError)` -/
def asNetwork : GoError → Option NetworkError
  | .foreign error => error.network
  | .plain _ => none
  | .wrap _ inner | .safeRetry inner => inner.asNetwork

/-- `isSafeRetry`: the type is the sidecar's own, so no foreign chain holds it. -/
def isSafeRetry : GoError → Bool
  | .foreign _ | .plain _ => false
  | .wrap _ inner => inner.isSafeRetry
  | .safeRetry _ => true

end GoError

/-- `isTransientReadError` -/
def isTransientReadError (err : GoError) : Bool :=
  if err.isDeadlineExceeded then true
  else if err.isCanceled then false
  else match err.asApi with
    | some api =>
      if api.code = .network ∨ api.code = .rateLimit then true
      else api.httpStatus = 408 || api.httpStatus = 425 || api.httpStatus = 429 || 500 ≤ api.httpStatus
    | none => match err.asNetwork with
      | some network => network.timeout || network.temporary
      | none => false

/-- The HTTP statuses that confirm that nothing was created. -/
def rejectionStatuses : List Int := [404, 409, 422, 429]

/-- `isDefinitiveCreateRejection` -/
def isDefinitiveCreateRejection (err : GoError) : Bool :=
  match err.asApi with
  | some api => api.httpStatus ∈ rejectionStatuses
  | none => false

/-! ## The SDK's values -/

/-- `time.Time`: nanoseconds since the zero time, and the offset of its zone. -/
structure Instant where
  nanos : Int
  offset : Int
  deriving DecidableEq

structure Contact where
  id : Int
  name : Text
  emailAddress : Text

structure Entry where
  id : Int
  kind : Text
  createdAt : Instant
  creator : Contact
  summary : Text

structure EntriesPage where
  entries : List Entry
  nextPage : Text

structure Message where
  id : Int
  createdAt : Instant
  creator : Contact
  content : Text

structure Posting where
  id : Int
  accountId : Int
  kind : Text
  name : Text
  appUrl : Text
  visibleEntryCount : Int

structure Box where
  id : Int
  kind : Text
  postingChangesUrl : Text

structure Cursor where
  since : Text
  version : Text
  deriving DecidableEq

structure Changes where
  added : List Posting
  updated : List Posting
  deleted : List Int
  nextCursor : Option Cursor
  fullSyncRequired : Bool

structure Account where
  id : Int
  status : Text
  purpose : Text

structure Identity where
  accounts : List Account

structure MessageDraft where
  directly : List Contact
  copied : List Contact
  blindcopied : List Contact

structure FormResponse where
  statusCode : Int
  location : Text

/-- The record of one message or comment, as the watch emits it. -/
structure Event where
  eventID : Text
  kind : Text
  postingID : Int
  threadID : Int
  entryID : Int
  accountID : Int
  senderID : Int
  senderName : Text
  senderEmail : Text
  subject : Text
  content : Text
  appURL : Text
  createdAt : Text
  boxKind : Text

/-! ## Calls to the outside -/

/-- `map[string]hey.PostingChangesCursor`, keyed by the box id. -/
abbrev Cursors := AList fun _ : Text => Cursor

/-- `cursorState`, as it stands in the file. -/
structure CursorState where
  version : Int
  boxes : Option Cursors

/-- How `saveCursorState` ends: a failure may leave the new file in place. -/
inductive Saved where
  | saved
  | failedBefore (error : GoError)
  | failedAfter (error : GoError)

/-- How a write ends: how much of the record was written, and an error. -/
structure Written where
  count : Nat
  error : Option Foreign

/-- The calls, and one mark: `hydrated` is not in the source and changes nothing.
It notes in the history which event was hydrated from the increment of which box. -/
inductive Call where
  /-- The `content` of the JSON document on the standard input. -/
  | readInput
  | identity
  | forAccount (account : Int)
  | entriesPage (topic : Int) (page : Text)
  | message (id : Int)
  | newReply (entry : Int)
  | defaultSenderID
  | createReply (entry : Int) (content : Text) (sentTo cc bcc : List Text)
  /-- `PostForm` of a comment. -/
  | postForm (thread : Int) (content : Text)
  | listBoxes
  | allChanges (box : Int) (cursor : Cursor)
  | write (record : Text)
  /-- The line that `waitForAck` reads for an event. -/
  | readAck (eventID : Text)
  /-- The file that `loadCursorState` opens and decodes. -/
  | loadCursors
  | saveCursors (boxes : Cursors)
  | hydrated (box : Text) (event : Event)

def Answer : Call → Type
  | .readInput => Option Text
  | .identity => Except Foreign (Option Identity)
  | .forAccount _ => Except Foreign Unit
  | .entriesPage _ _ => Except Foreign (Option EntriesPage)
  | .message _ => Except Foreign (Option Message)
  | .newReply _ => Except Foreign (Option MessageDraft)
  | .defaultSenderID => Except Foreign Int
  | .createReply _ _ _ _ _ => Except Foreign Unit
  | .postForm _ _ => Except Foreign (Option FormResponse)
  | .listBoxes => Except Foreign (Option (List Box))
  | .allChanges _ _ => Except Foreign (Option Changes)
  | .write _ => Written
  | .readAck _ => Except GoError (Option Text)
  | .loadCursors => Except GoError (Option CursorState)
  | .saveCursors _ => Saved
  | .hydrated _ _ => Unit

abbrev History := Program.History Answer

/-- Code of the sidecar. -/
abbrev Go := Program Call Answer GoError

/-- What the sidecar uses of Go's standard library beyond what is written out. -/
structure GoLib where
  /-- `json.Marshal` -/
  marshal : Value → Text
  /-- `strings.ToLower` -/
  toLower : Text → Text
  /-- `strings.EqualFold` -/
  equalFold : Text → Text → Bool
  /-- The path of `url.Parse`, and whether the URL has user information. -/
  parseUrl : Text → Option (Text × Bool)
  /-- `Time.Format` with nanoseconds and zone -/
  formatTime : Instant → Text
  /-- `time.Parse(time.RFC3339Nano, _)` -/
  parseTime : Text → Option Instant
  /-- `hey.PostingChangesCursorFrom`, of the SDK -/
  postingChangesCursorFrom : Text → Option Cursor

/-- `unicode.IsSpace` -/
def isSpace (point : CodePoint) : Bool :=
  let code := point.code
  decide (9 ≤ code ∧ code ≤ 13) || code == 0x20 || code == 0x85 || code == 0xA0 || code == 0x1680 ||
    decide (0x2000 ≤ code ∧ code ≤ 0x200A) || code == 0x2028 || code == 0x2029 || code == 0x202F ||
    code == 0x205F || code == 0x3000

/-- `strings.TrimSpace` -/
def trimSpace (s : Text) : Text := ((s.dropWhile isSpace).reverse.dropWhile isSpace).reverse

/-- `len` of a string: the bytes of its UTF-8 text. -/
def byteLength (s : Text) : Nat :=
  (s.map fun
    | .scalar c => c.utf8Size
    | .surrogate _ => 3).sum

/-- Stops with `fmt.Errorf(message)` unless the check holds. -/
def require (check : Bool) (message : String) : Go Unit :=
  if check then pure () else .fail (.plain (text message))

/-- One call to the outside. -/
def ask (request : Call) : Go (Answer request) := Program.ask request

/-- An error from outside is passed on as it is. -/
def pass : Except Foreign α → Go α
  | .ok value => pure value
  | .error error => .fail error

/-- A check goes on, or fails with its message. -/
theorem meets_require {contract : Program.Contract Answer} {post : Except GoError β → History → Prop}
    {rest : Unit → Go β} (passes : check = true → Program.Meets contract post history (rest ()))
    (fails : post (.error (.plain (text message))) history) :
    Program.Meets contract post history (require check message >>= rest) := by
  cases check with
  | false => exact fails
  | true => exact passes rfl

/-- The outcome of a call of the SDK goes on, or fails with its error. -/
theorem meets_pass {contract : Program.Contract Answer} {post : Except GoError β → History → Prop}
    {outcome : Except Foreign α} {rest : α → Go β}
    (passes : ∀ value, outcome = .ok value → Program.Meets contract post history (rest value))
    (fails : ∀ error : Foreign, post (.error error) history) :
    Program.Meets contract post history (pass outcome >>= rest) := by
  cases outcome with
  | error error => exact fails error
  | ok value => exact passes value rfl

/-- A check makes no call. -/
theorem within_require (check : Bool) (message : String) : Program.Within calls (require check message) := by
  cases check <;> trivial

/-- Nor does the outcome of one. -/
theorem within_pass (outcome : Except Foreign α) : Program.Within calls (pass outcome) := by
  cases outcome <;> trivial

theorem eval_require {answers : ∀ request, Answer request} (check : Bool) (message : String) :
    (require check message).eval answers = if check then .ok () else .error (.plain (text message)) := by
  cases check <;> rfl

def maxNDJSONBytes : Nat := 4 * 2 ^ 20

/-- `writeNDJSON` -/
def writeNDJSON (lib : GoLib) (value : Value) : Go Unit := do
  let data := lib.marshal value
  require (byteLength data ≤ maxNDJSONBytes) "output record too large"
  let written ← ask (.write (data ++ text "\n"))
  match written.error with
  | some error => .fail error
  | none => pure ()

def maxSDKPages : Nat := 100

/-- The loop of `TopicEntries`, with the pages it may still read. -/
def topicPages (topic : Int) : Nat → Text → List Entry → Go (List Entry)
  | 0, _, _ => .fail (.plain (text "topic entries pagination limit exceeded"))
  | left + 1, page, entries => do
    let outcome ← ask (.entriesPage topic page)
    match ← pass outcome with
    | none => .fail (.plain (text "topic entries returned no data"))
    | some result =>
      if result.nextPage = [] then return entries ++ result.entries
      else topicPages topic left result.nextPage (entries ++ result.entries)

/-- `TopicEntries` -/
def topicEntries (topic : Int) : Go (List Entry) := do
  require (0 < topic) "topic ID must be positive"
  topicPages topic maxSDKPages [] []

end HermesHey.Sidecar
