import HermesHey.Adapter
import HermesHey.Sidecar

/-! `sidecar/main.go` and the frames of the watch: how a topic's entries become
events, and how the events, the greeting and the last error are written out. -/
namespace HermesHey.Sidecar
open Library Library.Json

/-! ## Topic addresses -/

/-- A run of decimal digits, and nothing else. -/
def parseDigits (digits : Text) : Option Nat :=
  if digits ≠ [] ∧ digits.all CodePoint.isDigit then some (digitsValue digits) else none

/-- `strconv.ParseInt(s, 10, 64)` -/
def parseInt (s : Text) : Option Int :=
  match s with
  | ch '-' :: digits => do
    let n ← parseDigits digits
    if n ≤ 2 ^ 63 then some (-n) else none
  | ch '+' :: digits => do
    let n ← parseDigits digits
    if n < 2 ^ 63 then some n else none
  | digits => do
    let n ← parseDigits digits
    if n < 2 ^ 63 then some n else none

/-- `strings.Trim(s, "/")` -/
def trimSlashes (s : Text) : Text :=
  ((s.dropWhile (· = ch '/')).reverse.dropWhile (· = ch '/')).reverse

/-- `topicIDFromURL` -/
def topicIDFromURL (lib : GoLib) (value : Text) : Except GoError Int :=
  match lib.parseUrl value with
  | none => .error (.plain (text "invalid topic URL"))
  | some (path, _) =>
    match (trimSlashes path).splitOn (ch '/') with
    | [topics, last] =>
      if topics ≠ text "topics" then .error (.plain (text "invalid topic URL"))
      else match parseInt last with
        | none => .error (.plain (text "invalid topic URL"))
        | some id => if id ≤ 0 then .error (.plain (text "invalid topic URL")) else .ok id
    | _ => .error (.plain (text "invalid topic URL"))

private theorem parseInt_lt (parsed : parseInt s = some n) : n < 2 ^ 63 := by
  unfold parseInt at parsed
  split at parsed
  all_goals
    simp only [Option.bind_eq_bind, Option.bind_eq_some_iff, Option.ite_none_right_eq_some,
      Option.some.injEq] at parsed
    obtain ⟨digits, _, bound, rfl⟩ := parsed
    omega

/-- A topic's id is a positive 64-bit integer. -/
theorem topicIDFromURL_bounds (read : topicIDFromURL lib value = .ok threadID) :
    0 < threadID ∧ threadID < 2 ^ 63 := by
  unfold topicIDFromURL at read
  split at read
  · cases read
  split at read
  · split at read
    · cases read
    split at read
    · cases read
    · rename_i parsed
      split at read
      · cases read
      · rename_i positive
        cases read
        exact ⟨by omega, parseInt_lt parsed⟩
  · cases read

/-! ## Hydration -/

/-- `fmt.Sprintf("thread:%d:entry:%d", threadID, entryID)` -/
def eventIdentity (threadID entryID : Int) : Text :=
  text "thread:" ++ decimalInt threadID ++ text ":entry:" ++ decimalInt entryID

/-- `eventFromMessage` -/
def eventFromMessage (lib : GoLib) (posting : Posting) (threadID entryID : Int) (message : Message)
    (boxKind : Text) : Event where
  eventID := eventIdentity threadID entryID
  kind := text "message"
  postingID := posting.id
  threadID := threadID
  entryID := entryID
  accountID := posting.accountId
  senderID := message.creator.id
  senderName := message.creator.name
  senderEmail := lib.toLower (trimSpace message.creator.emailAddress)
  subject := posting.name
  content := message.content
  appURL := text "https://app.hey.com/topics/" ++ decimalInt threadID
  createdAt := lib.formatTime message.createdAt
  boxKind := boxKind

/-- `eventFromComment` -/
def eventFromComment (lib : GoLib) (posting : Posting) (threadID : Int) (entry : Entry)
    (boxKind : Text) : Event where
  eventID := eventIdentity threadID entry.id
  kind := text "comment"
  postingID := posting.id
  threadID := threadID
  entryID := entry.id
  accountID := posting.accountId
  senderID := entry.creator.id
  senderName := entry.creator.name
  senderEmail := lib.toLower (trimSpace entry.creator.emailAddress)
  subject := posting.name
  content := entry.summary
  appURL := text "https://app.hey.com/topics/" ++ decimalInt threadID
  createdAt := lib.formatTime entry.createdAt
  boxKind := boxKind

/-- `validateCommentEntry` -/
def validateCommentEntry (entry : Entry) : Go Unit :=
  require (¬ (entry.id ≤ 0 ∨ entry.createdAt.nanos = 0 ∨ entry.creator.id ≤ 0 ∨
    trimSpace entry.creator.emailAddress = [] ∨ trimSpace entry.summary = []))
    "comment entry is incomplete"

/-- `validateHydratedMessage`, with the message that is there. -/
def validateHydratedMessage (entryID : Int) (message : Option Message) : Go Message :=
  match message with
  | none => .fail (.plain (text "message returned no data"))
  | some message => do
    require (¬ (entryID ≤ 0 ∨ message.id ≤ 0 ∨ message.id ≠ entryID)) "message ID does not match entry"
    return message

/-- `sdkAdapter.Message` -/
def fetchMessage (id : Int) : Go (Option Message) := do
  require (0 < id) "message ID must be positive"
  let outcome ← ask (.message id)
  pass outcome

/-- `hydrateEntry` -/
def hydrateEntry (lib : GoLib) (posting : Posting) (threadID : Int) (entry : Entry) (boxKind : Text) :
    Go (Event × Instant) :=
  if entry.kind = text "message" then do
    let fetched ← fetchMessage entry.id
    let message ← validateHydratedMessage entry.id fetched
    return (eventFromMessage lib posting threadID entry.id message boxKind, message.createdAt)
  else if entry.kind = text "comment" then do
    validateCommentEntry entry
    return (eventFromComment lib posting threadID entry boxKind, entry.createdAt)
  else .fail (.plain (text "unsupported entry kind"))

/-- The loop of `hydratePostingSince`, newest entry first, up to the first one
that is not after the cursor. -/
def hydrateEntriesSince (lib : GoLib) (posting : Posting) (threadID : Int) (boxKind : Text)
    (since : Instant) : List Entry → List Event → Go (List Event)
  | [], events => return events
  | entry :: rest, events =>
    if entry.kind ≠ text "message" ∧ entry.kind ≠ text "comment" then
      hydrateEntriesSince lib posting threadID boxKind since rest events
    else do
      let (event, createdAt) ← hydrateEntry lib posting threadID entry boxKind
      if createdAt.nanos ≤ since.nanos then return events
      else hydrateEntriesSince lib posting threadID boxKind since rest (events ++ [event])

/-- `hydratePostingSince` -/
def hydratePostingSince (lib : GoLib) (posting : Posting) (boxKind : Text) (since : Instant) :
    Go (List Event) := do
  let threadID ← Program.lift (topicIDFromURL lib posting.appUrl)
  let entries ← topicEntries threadID
  let events ← hydrateEntriesSince lib posting threadID boxKind since entries []
  return events.reverse

/-! ## Frames -/

/-- A field marked `omitempty` that holds an integer. -/
def omitEmpty (key : String) (n : Int) : Members := if n = 0 then [] else [(text key, .int n)]

/-- The JSON object of an `event`. -/
def Event.members (event : Event) : Members :=
  [(text "event_id", .str event.eventID), (text "kind", .str event.kind),
    (text "posting_id", .int event.postingID), (text "thread_id", .int event.threadID),
    (text "entry_id", .int event.entryID)] ++
  omitEmpty "account_id" event.accountID ++ omitEmpty "sender_id" event.senderID ++
  [(text "sender_name", .str event.senderName), (text "sender_email", .str event.senderEmail),
    (text "subject", .str event.subject), (text "content", .str event.content),
    (text "app_url", .str event.appURL), (text "created_at", .str event.createdAt),
    (text "box_kind", .str event.boxKind)]

/-- `watchEnvelope` -/
structure WatchEnvelope where
  type : Text
  protocolVersion : Int
  event : Option Event

/-- The JSON object of a `watchEnvelope`. -/
def WatchEnvelope.members (envelope : WatchEnvelope) : Members :=
  [(text "type", .str envelope.type)] ++ omitEmpty "protocol_version" envelope.protocolVersion ++
    match envelope.event with
    | none => []
    | some event => [(text "event", .obj event.members)]

def protocolVersion : Int := 2

/-- The frame that `initialize` writes. -/
def readyFrame : Members := WatchEnvelope.members ⟨text "ready", protocolVersion, none⟩

/-- The frame that `poll` writes for an event. -/
def eventFrame (event : Event) : Members := WatchEnvelope.members ⟨text "event", 0, some event⟩

/-- `redactError` of an error. -/
def redactError (lib : GoLib) (err : GoError) : Text :=
  let message := lib.toLower err.message
  let mentions (word : String) : Bool := decide (text word <:+: message)
  if mentions "auth" || mentions "credential" || mentions "unauthorized" then text "authentication failed"
  else if mentions "cursor" then text "cursor state error"
  else if mentions "ack" then text "acknowledgement failed"
  else if mentions "identity" || mentions "account" || mentions "email" then
    text "identity verification failed"
  else if mentions "reply" then text "reply operation failed"
  else if mentions "argument" || mentions "required" || mentions "positive" || mentions "base url" then
    text "invalid arguments"
  else text "sidecar operation failed"

/-- The frame that `main` writes when the watch ends in an error. -/
def fatalFrame (lib : GoLib) (err : GoError) : Members :=
  [(text "type", .str (text "fatal")), (text "error", .str (redactError lib err))]

/-! ## A small library, for runs on fixed inputs -/

/-- Four minutes past three on the second of January 2026. -/
def cursorTime : Instant := ⟨63902919840 * 10 ^ 9, 0⟩

/-- A minute later. -/
def entryTime : Instant := ⟨63902919900 * 10 ^ 9, 0⟩

/-- Its functions agree with Go's on ASCII texts without blanks and these two times. -/
def sampleLib : GoLib where
  marshal value := (render value).filter (· ≠ ch ' ')
  toLower t := t.map Adapter.asciiLower
  equalFold s t := s.map Adapter.asciiLower = t.map Adapter.asciiLower
  parseUrl t :=
    if (text "https://app.hey.com").isPrefixOf t then some (t.drop 19, false) else none
  formatTime time := if time = cursorTime then text "2026-01-02T03:04:00Z" else text "2026-01-02T03:05:00Z"
  parseTime t :=
    if t = text "2026-01-02T03:04:00Z" then some cursorTime
    else if t = text "2026-01-02T03:05:00Z" then some entryTime
    else none
  postingChangesCursorFrom _ := some ⟨text "2026-01-02T03:04:00Z", text "1"⟩

/-- A posting of the topic 3. -/
def samplePosting : Posting where
  id := 7
  accountId := 5
  kind := text "topic"
  name := text "Hello"
  appUrl := text "https://app.hey.com/topics/3"
  visibleEntryCount := 1

def sampleCreator : Contact := ⟨9, text "Ada", text "ada@example.com"⟩

/-- A message entry of the topic. -/
def sampleEntry : Entry := ⟨4, text "message", entryTime, sampleCreator, text "Hi"⟩

/-- The message of the entry, by a creator. -/
def sampleMessage (creator : Contact) : Message := ⟨4, entryTime, creator, text "Hi"⟩

end HermesHey.Sidecar
