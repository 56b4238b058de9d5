import HermesHey.WatchEvent

/-! The frames that the sidecar writes, as the adapter reads them: which are
accepted, and as which event. -/
namespace HermesHey.Sidecar
open Library Library.Json HermesHey.Core

/-- The event with the same fourteen fields on the adapter's side. -/
def Event.toHeyEvent (event : Event) : HeyEvent where
  eventId := event.eventID
  kind := event.kind
  postingId := event.postingID
  threadId := event.threadID
  entryId := event.entryID
  accountId := event.accountID
  senderId := event.senderID
  senderName := event.senderName
  senderEmail := event.senderEmail
  subject := event.subject
  content := event.content
  appUrl := event.appURL
  createdAt := event.createdAt
  boxKind := event.boxKind

/-! ## Event frames -/

private theorem omitEmpty_nonzero (nonzero : n ≠ 0) : omitEmpty key n = [(text key, .int n)] := if_neg nonzero

/-- Without an empty field, the object is the event's dictionary. -/
theorem members_eq_toDict {event : Event} (account : event.accountID ≠ 0) (sender : event.senderID ≠ 0) :
    event.members = event.toHeyEvent.toDict := by
  rw [Event.members, omitEmpty_nonzero account, omitEmpty_nonzero sender]
  rfl

/-- An event frame is read as its payload is. -/
theorem parseEventFrame_eventFrame {event : Event} :
    parseEventFrame (eventFrame event) = .ok parsed ↔ HeyEvent.fromDict event.members = .ok parsed := by
  have keys : ∀ key, key ∈ (eventFrame event).map Prod.fst ↔ key ∈ [text "type", text "event"] := by
    intro key
    rfl
  have type : (eventFrame event).lookup (text "type") = some (.str (text "event")) := by
    simp [eventFrame, WatchEnvelope.members]
  have held : (eventFrame event).lookup (text "event") = some (.obj event.members) := by
    simp only [eventFrame, WatchEnvelope.members, omitEmpty, ↓reduceIte, List.append_nil,
      List.singleton_append, List.lookup_cons, text_beq, beq_self_eq_true]
    rfl
  rw [parseEventFrame_eq_ok]
  constructor
  · rintro ⟨_, _, payload, found, accepted⟩
    rw [held] at found
    cases found
    exact accepted
  · intro accepted
    exact ⟨keys, type, event.members, held, accepted⟩

/-- An event of an account is accepted exactly when it is valid, and then as itself. -/
theorem eventFrame_accepted {event : Event} (account : 0 < event.accountID) :
    parseEventFrame (eventFrame event) = .ok event.toHeyEvent ↔ event.toHeyEvent.Valid := by
  rw [parseEventFrame_eventFrame]
  constructor
  · intro accepted
    exact (HeyEvent.fromDict_eq_ok.mp accepted).2.2
  · intro valid
    have sender := valid.sender
    rw [members_eq_toDict (by omega) (ne_of_gt sender)]
    exact HeyEvent.fromDict_toDict valid

/-! ## Hydrated entries -/

/-- What `hydrateEntry` has checked of the entry it returns an event of. -/
inductive Hydrated (lib : GoLib) (posting : Posting) (threadID : Int) (entry : Entry) (boxKind : Text) :
    Event × Instant → History → Prop where
  | message (kind : entry.kind = text "message") (positive : 0 < entry.id) (same : message.id = entry.id) :
      Hydrated lib posting threadID entry boxKind
        (eventFromMessage lib posting threadID entry.id message boxKind, message.createdAt)
        [⟨.message entry.id, Except.ok (some message)⟩]
  | comment (kind : entry.kind = text "comment") (positive : 0 < entry.id) (creator : 0 < entry.creator.id) :
      Hydrated lib posting threadID entry boxKind
        (eventFromComment lib posting threadID entry boxKind, entry.createdAt) []

private theorem fetchMessage_meets (entryID : Int) :
    Program.Meets .free (Program.Returns fun fetched history =>
      history = [⟨.message entryID, Except.ok fetched⟩]) [] (fetchMessage entryID) := by
  apply meets_require
  · intro _
    apply Program.meets_ask trivial
    intro outcome _
    cases outcome with
    | error error => exact trivial
    | ok fetched => exact rfl
  · exact trivial

private theorem validateHydratedMessage_meets (entryID : Int) (fetched : Option Message) (history : History) :
    Program.Meets .free (Program.Returns fun message later =>
      later = history ∧ fetched = some message ∧ 0 < entryID ∧ message.id = entryID) history
      (validateHydratedMessage entryID fetched) := by
  cases fetched with
  | none => exact trivial
  | some message =>
    apply meets_require
    · intro checked
      simp only [not_or, not_le, ne_eq, not_not, decide_eq_true_eq] at checked
      exact ⟨rfl, rfl, checked.1, checked.2.2⟩
    · exact trivial

private theorem hydrateEntry_meets :
    Program.Meets .free (Program.Returns (Hydrated lib posting threadID entry boxKind)) []
      (hydrateEntry lib posting threadID entry boxKind) := by
  unfold hydrateEntry
  split
  · rename_i kind
    apply (fetchMessage_meets entry.id).bind_returns
    rintro fetched _ rfl
    apply (validateHydratedMessage_meets entry.id fetched _).bind_returns
    rintro message _ ⟨rfl, rfl, positive, own⟩
    exact .message kind positive own
  split
  · rename_i kind
    apply meets_require
    · intro checked
      simp only [not_or, not_le, decide_eq_true_eq] at checked
      exact .comment kind checked.1 checked.2.2.1
    · exact trivial
  · exact trivial

private theorem hydrateEntry_ended (ran : Run Program.Step (hydrateEntry lib posting threadID entry boxKind) trace (.pure value)) :
    Hydrated lib posting threadID entry boxKind value trace :=
  hydrateEntry_meets.ended ran

private theorem int64_fits {n : Int} (positive : 0 < n) (small : n < 2 ^ 63) : n.natAbs < 10 ^ digitLimit := by
  have wide : 10 ^ 19 ≤ 10 ^ digitLimit := by
    apply Nat.pow_le_pow_right (by decide)
    unfold digitLimit
    decide
  have below : n.natAbs < 10 ^ 19 := by omega
  exact below.trans_le wide

/-- A hydrated event is valid but for the sender of a message, which `hydrateEntry`
does not check where it checks that of a comment. -/
theorem hydrated_valid (hydrated : Hydrated lib posting threadID entry boxKind (event, createdAt) trace)
    (posted : 0 < posting.id) (account : 0 < posting.accountId)
    (topic : topicIDFromURL lib posting.appUrl = .ok threadID) (fits : entry.id < 2 ^ 63) :
    event.toHeyEvent.Valid ↔
      ∀ message, ⟨.message entry.id, Except.ok (some message)⟩ ∈ trace → 0 < message.creator.id := by
  obtain ⟨threadPositive, threadSmall⟩ := topicIDFromURL_bounds topic
  generalize same : (event, createdAt) = value at hydrated
  cases hydrated with
  | @message message kind positive own =>
    cases same
    constructor
    · rintro valid other asked
      cases List.mem_singleton.mp asked
      exact valid.sender
    · intro sender
      exact {
        kind := .inl rfl
        thread := threadPositive
        entry := positive
        threadFits := int64_fits threadPositive threadSmall
        entryFits := int64_fits positive fits
        identity := rfl
        url := rfl
        posting := posted
        account := account
        sender := sender message (List.mem_singleton_self _) }
  | comment kind positive creator =>
    cases same
    constructor
    · rintro _ other asked
      cases asked
    · intro _
      exact {
        kind := .inr rfl
        thread := threadPositive
        entry := positive
        threadFits := int64_fits threadPositive threadSmall
        entryFits := int64_fits positive fits
        identity := rfl
        url := rfl
        posting := posted
        account := account
        sender := creator }

private theorem hydrated_account (hydrated : Hydrated lib posting threadID entry boxKind value trace) :
    value.1.accountID = posting.accountId := by
  cases hydrated <;> rfl

/-! ## The other frames -/

private theorem readyFrame_accepted : parseReadyFrame readyFrame 2 = .ok () := rfl

/-- The texts that an error is redacted to. -/
def redactedTexts : List String :=
  ["authentication failed", "cursor state error", "acknowledgement failed",
    "identity verification failed", "reply operation failed", "invalid arguments",
    "sidecar operation failed"]

/-- An error leaves the process as one of the fixed texts. -/
theorem redactError_mem (lib : GoLib) (err : GoError) : ∃ s ∈ redactedTexts, redactError lib err = text s := by
  unfold redactError
  simp only
  repeat' split
  all_goals exact ⟨_, by decide, rfl⟩

/-- Every fatal frame is accepted, with the text it carries. -/
theorem fatalFrame_accepted (lib : GoLib) (err : GoError) :
    parseFatalFrame (fatalFrame lib err) = .ok (some (redactError lib err)) := by
  obtain ⟨s, listed, redacted⟩ := redactError_mem lib err
  have each : ∀ s ∈ redactedTexts, parseFatalFrame
      [(text "type", .str (text "fatal")), (text "error", .str (text s))] = .ok (some (text s)) := by
    decide
  rw [fatalFrame, redacted]
  exact each s listed

/-! ## Agreement -/

/-- The adapter accepts every ready and every fatal frame, and the event frame of
a hydrated entry exactly when the entry's message, if it is one, names its creator. -/
theorem frames_agree (posted : 0 < posting.id) (configured : 0 < account) (own : posting.accountId = account)
    (topic : topicIDFromURL lib posting.appUrl = .ok threadID) (fits : entry.id < 2 ^ 63)
    (ran : Run Program.Step (hydrateEntry lib posting threadID entry boxKind) trace (.pure (event, createdAt))) :
    (parseEventFrame (eventFrame event) = .ok event.toHeyEvent ∧ parseReadyFrame readyFrame 2 = .ok () ∧
        ∀ err, parseFatalFrame (fatalFrame lib err) = .ok (some (redactError lib err))) ↔
      ∀ message, ⟨.message entry.id, Except.ok (some message)⟩ ∈ trace → 0 < message.creator.id := by
  have hydrated := hydrateEntry_ended ran
  have account : 0 < posting.accountId := own ▸ configured
  rw [← hydrated_valid hydrated posted account topic fits]
  have owned : 0 < event.accountID := by
    rw [hydrated_account hydrated]
    exact account
  rw [eventFrame_accepted owned]
  constructor
  · intro accepted
    exact accepted.1
  · intro valid
    exact ⟨valid, readyFrame_accepted, fatalFrame_accepted lib⟩

/-- A message whose creator has no id is hydrated, and its frame is refused. -/
theorem senderless_frame_refused :
    0 < samplePosting.id ∧ samplePosting.accountId = 5 ∧
      topicIDFromURL sampleLib samplePosting.appUrl = .ok 3 ∧
      ∃ event, Run Program.Step (hydrateEntry sampleLib samplePosting 3 sampleEntry (text "imbox"))
          [⟨.message 4, Except.ok (some (sampleMessage { sampleCreator with id := 0 }))⟩]
          (.pure (event, entryTime)) ∧
        parseEventFrame (eventFrame event) = .error (.value "HEY event payload must contain exact keys") := by
  refine ⟨by decide, rfl, rfl, ?_⟩
  refine ⟨eventFromMessage sampleLib samplePosting 3 4 (sampleMessage { sampleCreator with id := 0 })
    (text "imbox"), .cons .answered .nil, ?_⟩
  decide +kernel

theorem frames_agree_greeting : 0 < samplePosting.id ∧ ∃ event,
    parseEventFrame (eventFrame event) = .ok event.toHeyEvent ∧ parseReadyFrame readyFrame 2 = .ok () ∧
      ∀ err, parseFatalFrame (fatalFrame sampleLib err) = .ok (some (redactError sampleLib err)) := by
  have topic : topicIDFromURL sampleLib samplePosting.appUrl = .ok 3 := rfl
  have ran : Run Program.Step (hydrateEntry sampleLib samplePosting 3 sampleEntry (text "imbox"))
      [⟨.message 4, Except.ok (some (sampleMessage sampleCreator))⟩]
      (.pure (eventFromMessage sampleLib samplePosting 3 4 (sampleMessage sampleCreator) (text "imbox"),
        entryTime)) :=
    .cons .answered .nil
  refine ⟨by decide, _, (frames_agree (by decide) (by decide) rfl topic (by decide) ran).mpr ?_⟩
  intro message asked
  cases List.mem_singleton.mp asked
  decide

end HermesHey.Sidecar
