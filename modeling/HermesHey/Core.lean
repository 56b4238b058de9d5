import HermesHey.Library.JsonRoundTrip
import HermesHey.Library.Outcome

/-! `hey_platform/core.py`: the event record, its exact dictionary form, the
three frames of the watch protocol, and the context identifier of a thread. -/
namespace HermesHey
open Library Library.Json

/-- The exceptions the plugin raises, with their messages. -/
inductive PyError where
  | key
  | type (message : Text)
  | value (message : Text)
  | runtime (message : Text)
  /-- `ValueError(f"Invalid HEY context ID: {value!r}")` -/
  | contextId (value : Text)
  | unicodeEncode
  /-- `OSError`, or a `RuntimeError` about an insecure path, from the file system. -/
  | storage
  deriving DecidableEq, Repr

instance : Coe String Text := ⟨text⟩

namespace Core

/-- `str.strip()`: the white space it removes. -/
def isWhite (point : CodePoint) : Bool :=
  let code := point.code
  decide (9 ≤ code ∧ code ≤ 13) || decide (0x1C ≤ code ∧ code ≤ 0x20) || code == 0x85 ||
    code == 0xA0 || code == 0x1680 || decide (0x2000 ≤ code ∧ code ≤ 0x200A) || code == 0x2028 ||
    code == 0x2029 || code == 0x202F || code == 0x205F || code == 0x3000

def strip (s : Text) : Text := ((s.dropWhile isWhite).reverse.dropWhile isWhite).reverse

/-- `value[key]` -/
def item (value : Members) (key : String) : Except PyError Value :=
  match value.lookup (text key) with
  | some held => .ok held
  | none => .error .key

/-- `_positive_int` -/
def positiveInt (value : Value) (name : String) : Except PyError Int :=
  match value with
  | .int n => if n ≤ 0 then .error (.value s!"HEY {name} must be a positive integer") else .ok n
  | _ => .error (.value s!"HEY {name} must be a positive integer")

/-- `_string` -/
def string (value : Value) (name : String) : Except PyError Text :=
  match value with
  | .str s => .ok s
  | _ => .error (.type s!"HEY {name} must be a string")

/-- The exact fields of an event payload. -/
def eventKeys : List Text :=
  [text "event_id", text "kind", text "posting_id", text "thread_id", text "entry_id",
    text "account_id", text "sender_id", text "sender_name", text "sender_email", text "subject",
    text "content", text "app_url", text "created_at", text "box_kind"]

/-- An integer in a format string, which refuses a numeral over the conversion limit. -/
def formatInt (n : Int) : Except PyError Text :=
  if n.natAbs < 10 ^ digitLimit then .ok (decimalInt n)
  else .error (.value "Exceeds the limit (4300 digits) for integer string conversion")

/-- The immutable identity of an entry in a thread. -/
def identityOf (threadId entryId : Int) : Text :=
  text "thread:" ++ decimalInt threadId ++ text ":entry:" ++ decimalInt entryId

def topicUrl (threadId : Int) : Text := text "https://app.hey.com/topics/" ++ decimalInt threadId

end Core

structure HeyEvent where
  eventId : Text
  kind : Text
  postingId : Int
  threadId : Int
  entryId : Int
  accountId : Int
  senderId : Int
  senderName : Text
  senderEmail : Text
  subject : Text
  content : Text
  appUrl : Text
  createdAt : Text
  boxKind : Text
  deriving DecidableEq, Repr

namespace HeyEvent
open HermesHey.Core

def identity (event : HeyEvent) : Text := event.eventId

def contextId (event : HeyEvent) : Text := text "thread:" ++ decimalInt event.threadId

def toDict (event : HeyEvent) : Members :=
  [(text "event_id", .str event.eventId), (text "kind", .str event.kind),
    (text "posting_id", .int event.postingId), (text "thread_id", .int event.threadId),
    (text "entry_id", .int event.entryId), (text "account_id", .int event.accountId),
    (text "sender_id", .int event.senderId), (text "sender_name", .str event.senderName),
    (text "sender_email", .str event.senderEmail), (text "subject", .str event.subject),
    (text "content", .str event.content), (text "app_url", .str event.appUrl),
    (text "created_at", .str event.createdAt), (text "box_kind", .str event.boxKind)]

def fromDict (value : Members) : Except PyError HeyEvent :=
  if ¬ sameKeys (value.map Prod.fst) eventKeys then
    .error (.value "HEY event payload must contain exact keys")
  else do
    let eventId ← string (← item value "event_id") "event_id"
    let kind ← string (← item value "kind") "kind"
    if kind ≠ text "message" ∧ kind ≠ text "comment" then
      .error (.value "HEY kind must be message or comment")
    else
      let threadId ← positiveInt (← item value "thread_id") "thread_id"
      let entryId ← positiveInt (← item value "entry_id") "entry_id"
      let thread ← formatInt threadId
      let entry ← formatInt entryId
      if eventId ≠ text "thread:" ++ thread ++ text ":entry:" ++ entry then
        .error (.value "HEY event identity does not match thread and entry")
      else
        let appUrl ← string (← item value "app_url") "app_url"
        if appUrl ≠ text "https://app.hey.com/topics/" ++ thread then
          .error (.value "HEY event app_url does not match thread context")
        else
          let postingId ← positiveInt (← item value "posting_id") "posting_id"
          let accountId ← positiveInt (← item value "account_id") "account_id"
          let senderId ← positiveInt (← item value "sender_id") "sender_id"
          let senderName ← string (← item value "sender_name") "sender_name"
          let senderEmail ← string (← item value "sender_email") "sender_email"
          let subject ← string (← item value "subject") "subject"
          let content ← string (← item value "content") "content"
          let createdAt ← string (← item value "created_at") "created_at"
          let boxKind ← string (← item value "box_kind") "box_kind"
          return {
            eventId, kind, postingId, threadId, entryId, accountId, senderId, senderName,
            senderEmail, subject, content, appUrl, createdAt, boxKind }

/-- What `from_dict` checks of the fields it accepts. -/
structure Valid (event : HeyEvent) : Prop where
  kind : event.kind = text "message" ∨ event.kind = text "comment"
  thread : 0 < event.threadId
  entry : 0 < event.entryId
  threadFits : event.threadId.natAbs < 10 ^ digitLimit
  entryFits : event.entryId.natAbs < 10 ^ digitLimit
  identity : event.eventId = identityOf event.threadId event.entryId
  url : event.appUrl = topicUrl event.threadId
  posting : 0 < event.postingId
  account : 0 < event.accountId
  sender : 0 < event.senderId

end HeyEvent

namespace Core

private theorem string_eq_ok : string value name = .ok s ↔ value = .str s := by
  cases value <;> simp [string]

private theorem positiveInt_eq_ok : positiveInt value name = .ok n ↔ value = .int n ∧ 0 < n := by
  cases value with
  | int m =>
    by_cases low : m ≤ 0
    · simp only [positiveInt, low, ↓reduceIte, reduceCtorEq, Value.int.injEq, false_iff, not_and]
      omega
    · simp only [positiveInt, low, ↓reduceIte, Except.ok.injEq, Value.int.injEq]
      constructor
      · rintro rfl
        exact ⟨rfl, by omega⟩
      · exact fun same => same.1
  | _ => simp [positiveInt]

private theorem formatInt_eq_ok :
    formatInt n = .ok s ↔ n.natAbs < 10 ^ digitLimit ∧ decimalInt n = s := by
  rw [formatInt]
  split <;> simp [*]

/-- `value[key]`, where it does not raise. -/
theorem item_eq_ok : item value key = .ok held ↔ value.lookup (text key) = some held := by
  rw [item]
  cases value.lookup (text key) <;> simp

/-- `set(value) == expected` -/
theorem sameKeys_iff {keys expected : List Text} :
    sameKeys keys expected = true ↔ ∀ key, key ∈ keys ↔ key ∈ expected := by
  simp only [sameKeys, Bool.and_eq_true, decide_eq_true_eq, List.subset_def]
  exact ⟨fun both key => ⟨fun held => both.1 held, fun held => both.2 held⟩,
    fun same => ⟨fun held => (same _).mp held, fun held => (same _).mpr held⟩⟩

end Core

namespace HeyEvent
open HermesHey.Core

theorem toDict_keys (event : HeyEvent) : event.toDict.map Prod.fst = eventKeys := rfl

theorem eventKeys_distinct : eventKeys.Nodup := by decide

private theorem string_found {value : Members} {P : Text → Prop} :
    (∃ held, value.lookup key = some held ∧ ∃ s, held = .str s ∧ P s) ↔ ∃ s, value.lookup key = some (.str s) ∧ P s := by
  constructor
  · rintro ⟨_, found, s, rfl, rest⟩
    exact ⟨s, found, rest⟩
  · rintro ⟨s, found, rest⟩
    exact ⟨_, found, s, rfl, rest⟩

private theorem positiveInt_found {value : Members} {P : Int → Prop} :
    (∃ held, value.lookup key = some held ∧ ∃ n, (held = .int n ∧ 0 < n) ∧ P n) ↔
      ∃ n, value.lookup key = some (.int n) ∧ 0 < n ∧ P n := by
  constructor
  · rintro ⟨_, found, n, ⟨rfl, positive⟩, rest⟩
    exact ⟨n, found, positive, rest⟩
  · rintro ⟨n, found, positive, rest⟩
    exact ⟨_, found, n, ⟨rfl, positive⟩, rest⟩

private theorem formatInt_found {n : Int} {P : Text → Prop} :
    (∃ s, (n.natAbs < 10 ^ digitLimit ∧ decimalInt n = s) ∧ P s) ↔ n.natAbs < 10 ^ digitLimit ∧ P (decimalInt n) := by
  constructor
  · rintro ⟨_, ⟨fits, rfl⟩, rest⟩
    exact ⟨fits, rest⟩
  · rintro ⟨fits, rest⟩
    exact ⟨_, ⟨fits, rfl⟩, rest⟩

/-- `from_dict` accepts a dictionary exactly when its keys are the fourteen
fields and every field holds the event's own, checked, value. -/
theorem fromDict_eq_ok : fromDict value = .ok event ↔
    (∀ key, key ∈ value.map Prod.fst ↔ key ∈ eventKeys) ∧
      (∀ member ∈ event.toDict, value.lookup member.1 = some member.2) ∧ event.Valid := by
  simp only [fromDict, ite_error_eq_ok, bind_eq_ok, item_eq_ok, string_eq_ok, positiveInt_eq_ok,
    formatInt_eq_ok, pure_eq_ok, sameKeys_iff, ne_eq, not_and_or, not_not, string_found, positiveInt_found,
    formatInt_found]
  constructor
  · rintro ⟨keys, eventId, foundId, kind, foundKind, kindOk, threadId, foundThread, threadPos, entryId, foundEntry,
      entryPos, threadFits, entryFits, identity, appUrl, foundUrl, url, postingId, foundPosting, postingPos,
      accountId, foundAccount, accountPos, senderId, foundSender, senderPos, senderName, foundName, senderEmail,
      foundEmail, subject, foundSubject, content, foundContent, createdAt, foundCreated, boxKind, foundBox, rfl⟩
    refine ⟨keys, ?_, ?_⟩
    · simp only [toDict, List.forall_mem_cons]
      simp [*]
    · exact ⟨kindOk, threadPos, entryPos, threadFits, entryFits, identity, url, postingPos, accountPos, senderPos⟩
  · rintro ⟨keys, found, valid⟩
    simp only [toDict, List.forall_mem_cons] at found
    obtain ⟨foundId, foundKind, foundPosting, foundThread, foundEntry, foundAccount, foundSender,
      foundName, foundEmail, foundSubject, foundContent, foundUrl, foundCreated, foundBox, _⟩ := found
    exact ⟨keys, _, foundId, _, foundKind, valid.kind, _, foundThread, valid.thread, _, foundEntry, valid.entry,
      valid.threadFits, valid.entryFits, valid.identity, _, foundUrl, valid.url, _, foundPosting, valid.posting,
      _, foundAccount, valid.account, _, foundSender, valid.sender, _, foundName, _, foundEmail, _, foundSubject,
      _, foundContent, _, foundCreated, _, foundBox, rfl⟩

/-- The dictionary of an event has each key once. -/
theorem lookup_toDict {event : HeyEvent} :
    event.toDict.lookup key = some value ↔ (key, value) ∈ event.toDict :=
  lookup_eq_some_iff_mem eventKeys_distinct

/-- Events survive the way into a dictionary and back. -/
theorem fromDict_toDict (valid : event.Valid) : fromDict event.toDict = .ok event := by
  rw [fromDict_eq_ok, toDict_keys]
  exact ⟨fun _ => Iff.rfl, fun member held => lookup_toDict.mpr held, valid⟩

/-- An event's own dictionary reads back as the event, or not at all. -/
theorem eq_of_fromDict_toDict {event parsed : HeyEvent} (ran : fromDict event.toDict = .ok parsed) :
    parsed = event := by
  obtain ⟨_, looked, _⟩ := fromDict_eq_ok.mp ran
  simp only [toDict, List.forall_mem_cons, List.lookup_cons, text_beq, String.reduceBEq,
    beq_self_eq_true] at looked
  cases event
  cases parsed
  simp_all

/-- The identity of a valid event determines its thread and its entry. -/
theorem identity_inj {first second : HeyEvent} (valid : first.Valid) (valid' : second.Valid)
    (same : first.identity = second.identity) :
    first.threadId = second.threadId ∧ first.entryId = second.entryId := by
  obtain ⟨n, thread⟩ := Int.eq_ofNat_of_zero_le (Int.le_of_lt valid.thread)
  obtain ⟨m, thread'⟩ := Int.eq_ofNat_of_zero_le (Int.le_of_lt valid'.thread)
  rw [HeyEvent.identity, HeyEvent.identity, valid.identity, valid'.identity, identityOf, identityOf, thread,
    thread'] at same
  simp only [List.append_assoc, List.append_cancel_left_eq] at same
  have ahead : ∀ rest, NoDigitAhead (text ":entry:" ++ rest) := by
    intro rest point held
    cases held
    decide
  have spanned := congrArg spanDigits same
  simp only [decimalInt, spanDigits_decimal (ahead _), Prod.mk.injEq, List.append_cancel_left_eq] at spanned
  refine ⟨?_, decimalInt_injective spanned.2⟩
  rw [thread, thread', decimal_injective spanned.1]

end HeyEvent

namespace Core
open HeyEvent

/-! ## Frames -/

/-- `parse_ready_frame` -/
def parseReadyFrame (value : Members) (protocolVersion : Int) : Except PyError Unit :=
  if ¬ sameKeys (value.map Prod.fst) [text "type", text "protocol_version"] then
    .error (.value "HEY SDK watch must send an exact ready frame")
  else do
    let kind ← item value "type"
    if kind ≠ .str (text "ready") then .error (.value "HEY SDK watch must start with ready")
    else
      let actual ← item value "protocol_version"
      if actual ≠ .int protocolVersion then .error (.value "HEY SDK watch protocol mismatch")
      else return ()

/-- `parse_fatal_frame`: the sidecar's error text of a fatal frame. -/
def parseFatalFrame (value : Members) : Except PyError (Option Text) :=
  if value.lookup (text "type") ≠ some (.str (text "fatal")) then .ok none
  else if ¬ sameKeys (value.map Prod.fst) [text "type", text "error"] then
    .error (.value "HEY SDK watch sent a malformed fatal frame")
  else do
    match ← item value "error" with
    | .str error =>
      if strip error = [] then .error (.value "HEY SDK watch sent a malformed fatal frame")
      else return some (strip error)
    | _ => .error (.value "HEY SDK watch sent a malformed fatal frame")

/-- `parse_event_frame` -/
def parseEventFrame (value : Members) : Except PyError HeyEvent :=
  if ¬ sameKeys (value.map Prod.fst) [text "type", text "event"] ∨
      value.lookup (text "type") ≠ some (.str (text "event")) then
    .error (.value "HEY SDK watch returned an invalid post-ready frame")
  else do
    match ← item value "event" with
    | .obj payload =>
      let event ← fromDict payload
      if ¬ sameDict event.toDict payload then
        .error (.value "HEY SDK watch event payload did not round-trip exactly")
      else return event
    | _ => .error (.type "HEY SDK watch returned an invalid event payload")

/-- `parse_context_id` -/
def parseContextId (value : Text) : Except PyError Int :=
  if (text "thread:").isPrefixOf value then
    match spanPositive (value.drop 7) with
    | some (digits, []) =>
      if digits.length ≤ digitLimit then .ok (digitsValue digits)
      else .error (.value "Exceeds the limit (4300 digits) for integer string conversion")
    | _ => .error (.contextId value)
  else .error (.contextId value)

/-- An accepted payload always equals the event's own dictionary, so the
round-trip comparison that follows `from_dict` never refuses. -/
theorem sameDict_of_fromDict (parsed : fromDict payload = .ok event) :
    sameDict event.toDict payload = true := by
  obtain ⟨keys, looked, _⟩ := fromDict_eq_ok.mp parsed
  simp only [sameDict, Bool.and_eq_true, sameKeys_iff, toDict_keys, List.all_eq_true, beq_iff_eq]
  exact ⟨fun key => (keys key).symm, looked⟩

/-- An event frame is accepted exactly when it has its two members and the
payload is a valid event's dictionary. -/
theorem parseEventFrame_eq_ok : parseEventFrame value = .ok event ↔
    (∀ key, key ∈ value.map Prod.fst ↔ key ∈ [text "type", text "event"]) ∧
      value.lookup (text "type") = some (.str (text "event")) ∧
      ∃ payload, value.lookup (text "event") = some (.obj payload) ∧ fromDict payload = .ok event := by
  simp only [parseEventFrame, ite_error_eq_ok, not_or, not_not, sameKeys_iff, bind_eq_ok, item_eq_ok,
    and_assoc]
  refine and_congr_right fun _ => and_congr_right fun _ => ?_
  constructor
  · rintro ⟨held, found, read⟩
    cases held with
    | obj payload =>
      simp only [bind_eq_ok, ite_error_eq_ok, pure_eq_ok] at read
      obtain ⟨parsed, ran, _, rfl⟩ := read
      exact ⟨payload, found, ran⟩
    | _ => cases read
  · rintro ⟨payload, found, parsed⟩
    refine ⟨.obj payload, found, ?_⟩
    simp only [bind_eq_ok, ite_error_eq_ok, pure_eq_ok, not_not]
    exact ⟨event, parsed, sameDict_of_fromDict parsed, rfl⟩

/-- A valid event's conversation maps back to its thread. -/
theorem parseContextId_contextId {event : HeyEvent} (valid : event.Valid) :
    parseContextId event.contextId = .ok event.threadId := by
  obtain ⟨n, same⟩ := Int.eq_ofNat_of_zero_le (Int.le_of_lt valid.thread)
  have positive : 0 < n := by
    have thread := valid.thread
    omega
  have fits : (decimal n).length ≤ digitLimit := by
    apply (decimal_length_le digitLimit_pos).mpr
    simpa [same] using valid.threadFits
  have spanned : spanPositive (decimal n) = some (decimal n, []) := by
    simpa using spanPositive_decimal positive noDigitAhead_nil
  have spelled : event.contextId = text "thread:" ++ decimal n := by
    rw [HeyEvent.contextId, same]
    rfl
  have fronted : (text "thread:").isPrefixOf (text "thread:" ++ decimal n) = true := by simp
  have dropped : (text "thread:" ++ decimal n).drop 7 = decimal n := by
    have width : (text "thread:").length = 7 := by decide
    rw [← width, List.drop_left]
  rw [parseContextId, spelled, if_pos fronted, dropped, spanned]
  simp only [fits, ↓reduceIte, digitsValue_decimal]
  rw [same]

/-- A small message, for runs on fixed inputs. -/
def greeting (threadId entryId : Int) : HeyEvent where
  eventId := identityOf threadId entryId
  kind := text "message"
  postingId := 7
  threadId := threadId
  entryId := entryId
  accountId := 5
  senderId := 9
  senderName := text "Ada"
  senderEmail := text "ada@example.com"
  subject := text "Hello"
  content := text "Hi"
  appUrl := topicUrl threadId
  createdAt := text "2024-01-01T00:00:00Z"
  boxKind := text "imbox"

theorem greeting_valid (thread : 0 < t) (entry : 0 < e) (threadSmall : t < 10) (entrySmall : e < 10) :
    (greeting t e).Valid where
  kind := .inl rfl
  thread := thread
  entry := entry
  threadFits := by
    have wide : 10 ^ 1 ≤ 10 ^ digitLimit := Nat.pow_le_pow_right (by decide) digitLimit_pos
    have small : t.natAbs < 10 := by omega
    exact small.trans_le wide
  entryFits := by
    have wide : 10 ^ 1 ≤ 10 ^ digitLimit := Nat.pow_le_pow_right (by decide) digitLimit_pos
    have small : e.natAbs < 10 := by omega
    exact small.trans_le wide
  identity := rfl
  url := rfl
  posting := by simp [greeting]
  account := by simp [greeting]
  sender := by simp [greeting]

end Core
end HermesHey
