import HermesHey.TokenExpiry
import HermesHey.WatchFormat
import HermesHey.WatchOrder
import HermesHey.Wire

/-! The process of the watch, from its first frame to its last. Whatever its calls
are answered, what it writes are frames that the client can decode, and the client
reads them off the pipe. -/
namespace HermesHey.Wire
open Library Library.Json HermesHey.Core
open Sidecar hiding Kept

/-! ## The process -/

/-- The polls of `run`, up to a number of them. -/
def polls (lib : GoLib) (ownEmail : Text) : ℕ → Go Unit
  | 0 => pure ()
  | left + 1 => do
    poll lib ownEmail
    polls lib ownEmail left

/-- `run` with the mode `watch`, once its arguments, its clients and the identity are checked. -/
def runWatch (lib : GoLib) (ownEmail : Text) (checked : Except GoError Unit) (count : ℕ) : Go Unit := do
  Program.lift checked
  initializeWatch lib
  polls lib ownEmail count

/-- `main` with the mode `watch`, up to a number of polls. -/
def watchProcess (lib : GoLib) (ownEmail : Text) (checked : Except GoError Unit) (count : ℕ) : Go Unit := do
  match ← (runWatch lib ownEmail checked count).attempt with
  | .ok () => return ()
  | .error err =>
    if err.isCanceled then return ()
    else do
      -- An error of this write is dropped.
      let _ ← (writeNDJSON lib (.obj (fatalFrame lib err))).attempt
      return ()

/-! ## Decoded answers -/

/-- The texts and numbers of a contact are such as `encoding/json` decodes. -/
structure ContactDecoded (contact : Contact) : Prop where
  id : Credentials.Machine contact.id
  name : Scalars contact.name
  email : Scalars contact.emailAddress

structure EntryDecoded (entry : Entry) : Prop where
  id : Credentials.Machine entry.id
  creator : ContactDecoded entry.creator
  summary : Scalars entry.summary

structure MessageDecoded (message : Message) : Prop where
  creator : ContactDecoded message.creator
  content : Scalars message.content

structure PostingDecoded (posting : Posting) : Prop where
  id : Credentials.Machine posting.id
  account : Credentials.Machine posting.accountId
  name : Scalars posting.name

/-- The SDK answers with decoded values. -/
def Decoded : Sigma Answer → Prop
  | ⟨.entriesPage _ _, answer⟩ => ∀ page, answer = Except.ok (some page) → ∀ entry ∈ page.entries, EntryDecoded entry
  | ⟨.message _, answer⟩ => ∀ message, answer = Except.ok (some message) → MessageDecoded message
  | ⟨.listBoxes, answer⟩ => ∀ boxes, answer = Except.ok (some boxes) → ∀ box ∈ boxes, Scalars box.kind
  | ⟨.allChanges _ _, answer⟩ =>
    ∀ changes, answer = Except.ok (some changes) → ∀ posting ∈ changes.added ++ changes.updated, PostingDecoded posting
  | _ => True

/-- The library's functions keep text text. -/
structure TextLib (lib : GoLib) : Prop where
  marshal : lib.marshal = GoJson.marshal
  lower : ∀ s, Scalars s → Scalars (lib.toLower s)
  time : ∀ time, Scalars (lib.formatTime time)

/-! ## Frames -/

/-- The numbers and texts of an event can be written and read. -/
structure EventDecoded (event : Event) : Prop where
  numbers : ∀ n ∈ [event.postingID, event.threadID, event.entryID, event.accountID, event.senderID], Credentials.Machine n
  texts : ∀ t ∈ [event.eventID, event.kind, event.senderName, event.senderEmail, event.subject, event.content, event.appURL,
    event.createdAt, event.boxKind], Scalars t

/-- The adapter converts every machine integer. -/
theorem machine_fits (machine : Credentials.Machine n) : n.natAbs < 10 ^ digitLimit := by
  have wide : 10 ^ 19 ≤ 10 ^ digitLimit := by
    apply Nat.pow_le_pow_right (by decide)
    unfold digitLimit
    decide
  obtain ⟨low, high⟩ := machine
  have below : n.natAbs < 10 ^ 19 := by omega
  exact below.trans_le wide

/-- An object of distinct keys is kept as it is. -/
theorem kept_object (distinct : (members.map Prod.fst).Nodup)
    (each : ∀ member ∈ members, Json.Kept rejectDuplicateKeys member.2) :
    Json.Kept rejectDuplicateKeys (.obj members) := by
  refine ⟨?_, keptMembers_iff.mpr each⟩
  rw [rejectDuplicateKeys, if_pos distinct]

private theorem forall_omitEmpty {held : Text × Value → Prop} (each : held (text key, .int n)) :
    ∀ member ∈ omitEmpty key n, held member := by
  unfold omitEmpty
  split
  · simp
  · exact List.forall_mem_singleton.mpr each

private theorem event_forall (held : Text × Value → Prop) {event : Event}
    (strings : ∀ key t, t ∈ [event.eventID, event.kind, event.senderName, event.senderEmail, event.subject, event.content, event.appURL,
      event.createdAt, event.boxKind] → held (text key, .str t))
    (numbers : ∀ key n, n ∈ [event.postingID, event.threadID, event.entryID, event.accountID, event.senderID] →
      held (text key, .int n)) : ∀ member ∈ event.members, held member := by
  simp only [Event.members, List.forall_mem_append, List.forall_mem_cons]
  refine ⟨⟨⟨⟨strings _ _ ?_, strings _ _ ?_, numbers _ _ ?_, numbers _ _ ?_, numbers _ _ ?_, by simp⟩,
    forall_omitEmpty (numbers _ _ ?_)⟩, forall_omitEmpty (numbers _ _ ?_)⟩, strings _ _ ?_, strings _ _ ?_, strings _ _ ?_,
    strings _ _ ?_, strings _ _ ?_, strings _ _ ?_, strings _ _ ?_, by simp⟩
  all_goals simp

private theorem event_keys (event : Event) : (event.members.map Prod.fst).Nodup := by
  simp only [Event.members, omitEmpty, List.map_append, List.map_cons, List.map_nil]
  split <;> split <;> simp only [List.map_cons, List.map_nil] <;> decide

private theorem event_kept (decoded : EventDecoded event) : Json.Kept rejectDuplicateKeys (.obj event.members) := by
  refine kept_object (event_keys event) ?_
  refine event_forall (fun member => Json.Kept rejectDuplicateKeys member.2) ?_ ?_
  · exact fun _ _ _ => trivial
  · exact fun _ n held => machine_fits (decoded.numbers n held)

private theorem event_writable (decoded : EventDecoded event) : Writable (.obj event.members) := by
  refine writableMembers_iff.mpr ?_
  refine event_forall (fun member => Scalars member.1 ∧ Writable member.2) ?_ ?_
  · exact fun key t held => ⟨scalars_text key, decoded.texts t held⟩
  · exact fun key _ _ => ⟨scalars_text key, trivial⟩

/-- The frames of a process whose events were decoded. -/
inductive Sent (lib : GoLib) : Members → Prop where
  | ready : Sent lib readyFrame
  | event (decoded : EventDecoded event) : Sent lib (eventFrame event)
  | fatal (err : GoError) : Sent lib (fatalFrame lib err)

private theorem eventFrame_eq (event : Event) :
    eventFrame event = [(text "type", .str (text "event")), (text "event", .obj event.members)] := rfl

private theorem sent_kept (sent : Sent lib members) : Json.Kept rejectDuplicateKeys (.obj members) := by
  cases sent with
  | ready =>
    refine kept_object (by decide) ?_
    have small : (2 : Int).natAbs < 10 ^ digitLimit := machine_fits ⟨by decide, by decide⟩
    simpa [readyFrame, WatchEnvelope.members, omitEmpty, protocolVersion, Json.Kept] using small
  | event decoded =>
    rw [eventFrame_eq]
    refine kept_object ?_ ?_
    · simp only [List.map_cons, List.map_nil]
      decide
    · exact List.forall_mem_cons.mpr ⟨trivial, List.forall_mem_singleton.mpr (event_kept decoded)⟩
  | fatal err =>
    refine kept_object ?_ ?_
    · simp only [fatalFrame, List.map_cons, List.map_nil]
      decide
    · exact List.forall_mem_cons.mpr ⟨trivial, List.forall_mem_singleton.mpr trivial⟩

private theorem sent_writable (sent : Sent lib members) : Writable (.obj members) := by
  refine writableMembers_iff.mpr ?_
  cases sent with
  | ready => simp [readyFrame, WatchEnvelope.members, omitEmpty, protocolVersion, Writable]
  | event decoded =>
    rw [eventFrame_eq]
    refine List.forall_mem_cons.mpr ⟨⟨scalars_text _, scalars_text "event"⟩, ?_⟩
    exact List.forall_mem_singleton.mpr ⟨scalars_text _, event_writable decoded⟩
  | fatal err =>
    obtain ⟨s, _, redacted⟩ := redactError_mem lib err
    rw [fatalFrame, redacted]
    refine List.forall_mem_cons.mpr ⟨⟨scalars_text _, scalars_text "fatal"⟩, ?_⟩
    exact List.forall_mem_singleton.mpr ⟨scalars_text _, scalars_text s⟩

/-- The record is that of a frame of the process. -/
def Framed (lib : GoLib) (record : Text) : Prop :=
  ∃ frame : Frame, Sent lib frame.members ∧ record = frame.document ++ text "\n"

/-- The SDK decodes its answers; the process writes frames. -/
def wire (lib : GoLib) : Program.Contract Answer where
  may _ request answer := Decoded ⟨request, answer⟩
  must _ request := ∀ record, request = .write record → Framed lib record

/-! ## What the process writes -/

private theorem silent_meets {program : Go α} (within : Program.Within (fun request => ¬ isWrite request) program)
    (history : History) : Program.Meets (wire lib) (Program.Returns fun _ _ => True) history program := by
  apply (within.meets ?_).returns
  · exact fun _ _ _ => trivial
  · rintro _ request silent record rfl
    exact absurd trivial silent

private theorem writeNDJSON_meets (texts : TextLib lib) (sent : Sent lib members) (history : History) :
    Program.Meets (wire lib) (fun _ _ => True) history (writeNDJSON lib (.obj members)) := by
  apply meets_require
  · intro fits
    have small : byteLength (GoJson.marshal (.obj members)) ≤ maxNDJSONBytes := by
      rw [← texts.marshal]
      exact of_decide_eq_true fits
    refine Program.meets_ask ?_ ?_
    · rintro record ⟨⟩
      refine ⟨⟨members, sent_kept sent, sent_writable sent, small⟩, sent, ?_⟩
      rw [texts.marshal]
      rfl
    · intro written _
      cases written.error <;> exact trivial
  · exact trivial

section
variable {lib : GoLib} {history : History}

/-- The program returns only what `held` says. -/
private abbrev Gives (lib : GoLib) (held : α → Prop) (program : Go α) : Prop :=
  ∀ history, Program.Meets (wire lib) (Program.Returns fun value _ => held value) history program

private theorem topicPages_gives (topic : Int) (left : Nat) (page : Text) (entries : List Entry)
    (decoded : ∀ entry ∈ entries, EntryDecoded entry) :
    Gives lib (fun found => ∀ entry ∈ found, EntryDecoded entry) (topicPages topic left page entries) := by
  induction left generalizing page entries with
  | zero => exact fun history => trivial
  | succ left ih =>
    intro history
    rw [topicPages]
    apply Program.meets_ask (by rintro _ ⟨⟩)
    intro outcome answered
    apply meets_pass
    · rintro (_ | result) returned
      · exact trivial
      · have more := answered result returned
        have longer : ∀ entry ∈ entries ++ result.entries, EntryDecoded entry :=
          List.forall_mem_append.mpr ⟨decoded, more⟩
        change Program.Meets _ _ _ (if result.nextPage = [] then pure _ else _)
        split
        · exact longer
        · exact ih _ _ longer _
    · exact fun _ => trivial

private theorem topicEntries_gives (topic : Int) :
    Gives lib (fun found => ∀ entry ∈ found, EntryDecoded entry) (topicEntries topic) := by
  intro history
  apply meets_require
  · exact fun _ => topicPages_gives topic maxSDKPages [] [] (by simp) history
  · exact trivial

private theorem scalars_trimSpace (scalars : Scalars s) : Scalars (trimSpace s) := by
  intro point held
  have inside := (List.dropWhile_sublist _).subset (List.mem_reverse.mp held)
  exact scalars point ((List.dropWhile_sublist _).subset (List.mem_reverse.mp inside))

private theorem scalars_identity (threadID entryID : Int) : Scalars (eventIdentity threadID entryID) := by
  simp [eventIdentity]

private theorem message_decoded (texts : TextLib lib) (posted : PostingDecoded posting)
    (thread : Credentials.Machine threadID)
    (entry : Credentials.Machine entryID) (message : MessageDecoded found) (kind : Scalars boxKind) :
    EventDecoded (eventFromMessage lib posting threadID entryID found boxKind) where
  numbers := by
    simp only [eventFromMessage, List.forall_mem_cons]
    exact ⟨posted.id, thread, entry, posted.account, message.creator.id, by simp⟩
  texts := by
    simp only [eventFromMessage, List.forall_mem_cons]
    refine ⟨scalars_identity _ _, scalars_text _, message.creator.name, texts.lower _ (scalars_trimSpace message.creator.email),
      posted.name, message.content, ?_, texts.time _, kind, by simp⟩
    exact scalars_append.mpr ⟨scalars_text _, scalars_decimalInt _⟩

private theorem comment_decoded (texts : TextLib lib) (posted : PostingDecoded posting)
    (thread : Credentials.Machine threadID)
    (entry : EntryDecoded found) (kind : Scalars boxKind) : EventDecoded (eventFromComment lib posting threadID found boxKind) where
  numbers := by
    simp only [eventFromComment, List.forall_mem_cons]
    exact ⟨posted.id, thread, entry.id, posted.account, entry.creator.id, by simp⟩
  texts := by
    simp only [eventFromComment, List.forall_mem_cons]
    refine ⟨scalars_identity _ _, scalars_text _, entry.creator.name, texts.lower _ (scalars_trimSpace entry.creator.email),
      posted.name, entry.summary, ?_, texts.time _, kind, by simp⟩
    exact scalars_append.mpr ⟨scalars_text _, scalars_decimalInt _⟩

private theorem fetchMessage_gives (id : Int) :
    Gives lib (fun found => ∀ message, found = some message → MessageDecoded message) (fetchMessage id) := by
  intro history
  apply meets_require
  · intro _
    apply Program.meets_ask (by rintro _ ⟨⟩)
    intro outcome answered
    cases outcome with
    | error error => exact trivial
    | ok fetched =>
      rintro message rfl
      exact answered message rfl
  · exact trivial

private theorem hydrateEntry_gives (texts : TextLib lib) (posted : PostingDecoded posting)
    (thread : Credentials.Machine threadID)
    (entry : EntryDecoded found) (kind : Scalars boxKind) :
    Gives lib (fun value => EventDecoded value.1) (hydrateEntry lib posting threadID found boxKind) := by
  intro history
  unfold hydrateEntry
  split
  · apply (fetchMessage_gives found.id history).bind_returns
    intro fetched later decoded
    cases fetched with
    | none => exact trivial
    | some message =>
      have checked : Program.Meets (wire lib) (Program.Returns fun value _ => value = message) later
          (validateHydratedMessage found.id (some message)) := meets_require (fun _ => rfl) trivial
      apply checked.bind_returns
      rintro _ _ rfl
      exact message_decoded texts posted thread entry.id (decoded _ rfl) kind
  split
  · apply meets_require
    · exact fun _ => comment_decoded texts posted thread entry kind
    · exact trivial
  · exact trivial

private theorem hydrateEntriesSince_gives (texts : TextLib lib) (posted : PostingDecoded posting)
    (thread : Credentials.Machine threadID) (kind : Scalars boxKind) (since : Instant) (entries : List Entry)
    (decoded : ∀ entry ∈ entries, EntryDecoded entry) (events : List Event) (before : ∀ event ∈ events, EventDecoded event) :
    Gives lib (fun found => ∀ event ∈ found, EventDecoded event)
      (hydrateEntriesSince lib posting threadID boxKind since entries events) := by
  induction entries generalizing events with
  | nil => exact fun history => before
  | cons entry rest ih =>
    obtain ⟨first, others⟩ := List.forall_mem_cons.mp decoded
    intro history
    rw [hydrateEntriesSince]
    split
    · exact ih others events before history
    · apply (hydrateEntry_gives texts posted thread first kind history).bind_returns
      rintro ⟨event, createdAt⟩ later made
      change Program.Meets _ _ _ (if createdAt.nanos ≤ since.nanos then pure events else _)
      split
      · exact before
      · exact ih others _ (List.forall_mem_append.mpr ⟨before, List.forall_mem_singleton.mpr made⟩) later

private theorem hydratePostingSince_gives (texts : TextLib lib) (posted : PostingDecoded posting)
    (kind : Scalars boxKind)
    (since : Instant) :
    Gives lib (fun found => ∀ event ∈ found, EventDecoded event) (hydratePostingSince lib posting boxKind since) := by
  intro history
  unfold hydratePostingSince
  cases topic : topicIDFromURL lib posting.appUrl with
  | error error => exact trivial
  | ok threadID =>
    obtain ⟨positive, small⟩ := topicIDFromURL_bounds topic
    have thread : Credentials.Machine threadID := ⟨by omega, small⟩
    apply (topicEntries_gives threadID history).bind_returns
    intro entries later decoded
    apply (hydrateEntriesSince_gives texts posted thread kind since entries decoded [] (by simp) later).bind_returns
    intro events _ made event held
    exact made event (List.mem_reverse.mp held)

private def ItemsDecoded (items : List PendingEvent) : Prop := ∀ item ∈ items, EventDecoded item.event

private theorem addEvent_gives (ownEmail key : Text) (items : List PendingEvent) (before : ItemsDecoded items)
    (decoded : EventDecoded event) :
    Gives lib ItemsDecoded (addEvent lib ownEmail key items event) := by
  intro history
  apply Program.meets_ask (by rintro _ ⟨⟩)
  intro _ _
  split
  · exact before
  split
  · intro item held
    obtain ⟨old, inside, rfl⟩ := List.mem_map.mp held
    split
    · exact before old inside
    · exact before old inside
  split
  · exact trivial
  · exact List.forall_mem_append.mpr ⟨before, List.forall_mem_singleton.mpr decoded⟩

private theorem addPosting_gives (texts : TextLib lib) (ownEmail : Text) (kind : Scalars increment.boxKind)
    (items : List PendingEvent) (before : ItemsDecoded items) (posted : PostingDecoded posting) :
    Gives lib ItemsDecoded (addPosting lib ownEmail increment items posting) := by
  intro history
  unfold addPosting
  split
  · exact before
  · apply ((hydratePostingSince_gives texts posted kind increment.since history).mapFail_returns _).bind_returns
    intro events later decoded
    apply Program.meets_foldlM_returns (fun _ found _ => ItemsDecoded found) events
    · intro done event rest state before split held
      exact addEvent_gives ownEmail increment.key state held (decoded event (by rw [split]; simp)) before
    · exact before

/-- The postings and the box of an increment were decoded. -/
private structure IncrementDecoded (increment : Increment) : Prop where
  kind : Scalars increment.boxKind
  postings : ∀ posting ∈ increment.postings, PostingDecoded posting

private theorem readIncrement_gives (cursors : Cursors) (box : Box) (kind : Scalars box.kind) :
    Gives lib IncrementDecoded (readIncrement lib cursors box) := by
  intro history
  unfold readIncrement
  split
  · exact trivial
  split
  · exact trivial
  · apply Program.meets_ask (by rintro _ ⟨⟩)
    intro outcome answered
    cases outcome with
    | error error => exact trivial
    | ok found =>
      cases found with
      | none => exact trivial
      | some changes =>
        have posted : ∀ posting ∈ changes.added ++ changes.updated, PostingDecoded posting := answered changes rfl
        refine meets_require ?_ trivial
        intro _
        refine meets_require ?_ trivial
        intro _
        refine meets_require ?_ trivial
        intro _
        refine ⟨kind, fun posting held => posted posting ?_⟩
        exact (List.perm_insertionSort postingBefore _).mem_iff.mp held

private theorem readIncrements_gives (cursors : Cursors) (boxes : List Box)
    (kinds : ∀ box ∈ boxes, Scalars box.kind) :
    Gives lib (fun found => ∀ increment ∈ found, IncrementDecoded increment) (readIncrements lib cursors boxes) := by
  intro history
  apply Program.meets_foldlM_returns (fun _ found _ => ∀ increment ∈ found, IncrementDecoded increment) boxes
  · intro done box rest state before split held
    apply (readIncrement_gives cursors box (kinds box (by rw [split]; simp)) before).bind_returns
    intro increment _ decoded
    exact List.forall_mem_append.mpr ⟨held, List.forall_mem_singleton.mpr decoded⟩
  · simp

private theorem hydrateIncrements_gives (texts : TextLib lib) (ownEmail : Text) (increments : List Increment)
    (decoded : ∀ increment ∈ increments, IncrementDecoded increment) :
    Gives lib ItemsDecoded (hydrateIncrements lib ownEmail increments) := by
  intro history
  have none : ItemsDecoded [] := by simp [ItemsDecoded]
  apply Program.meets_foldlM_returns (fun _ found _ => ItemsDecoded found) increments
  · intro done increment rest state before split held
    have own := decoded increment (by rw [split]; simp)
    apply Program.meets_foldlM_returns (fun _ found _ => ItemsDecoded found) increment.postings
    · intro done posting rest state before split held
      exact addPosting_gives texts ownEmail own.kind state held (own.postings posting (by rw [split]; simp)) before
    · exact held
  · exact none

private theorem listBoxes_gives : Gives lib (fun boxes => ∀ box ∈ boxes, Scalars box.kind) listBoxes := by
  intro history
  apply Program.Meets.mapFail_returns
  apply Program.meets_ask (by rintro _ ⟨⟩)
  intro outcome answered
  cases outcome with
  | error error => exact trivial
  | ok found =>
    cases found with
    | none => exact trivial
    | some boxes => exact answered boxes rfl

private theorem gather_gives (texts : TextLib lib) (ownEmail : Text) :
    Gives lib (fun gathered => ItemsDecoded gathered.pending) (gather lib ownEmail) := by
  intro history
  unfold gather
  apply (silent_meets (loadCursorState_within id) history).bind_returns
  rintro ⟨cursors, found⟩ loaded _
  refine meets_require ?_ trivial
  intro _
  apply (listBoxes_gives loaded).bind_returns
  intro boxes listed kinds
  have sorted : ∀ box ∈ boxes.insertionSort fun a b => a.id ≤ b.id, Scalars box.kind :=
    fun box held => kinds box ((List.perm_insertionSort _ _).mem_iff.mp held)
  apply (readIncrements_gives cursors _ sorted listed).bind_returns
  intro increments reads decoded
  apply (hydrateIncrements_gives texts ownEmail increments decoded reads).bind_returns
  intro items _ made item held
  exact made item ((List.perm_insertionSort emittedBefore _).mem_iff.mp held)

private theorem emit_meets (texts : TextLib lib) {item : PendingEvent} (decoded : EventDecoded item.event)
    (progress : Progress) (history : History) :
    Program.Meets (wire lib) (Program.Returns fun _ _ => True) history (emit lib progress item) := by
  have written : Program.Meets (wire lib) (Program.Returns fun _ _ => True) history
      (writeNDJSON lib (.obj (eventFrame item.event))) :=
    (writeNDJSON_meets texts (.event decoded) history).returns fun _ _ _ => trivial
  apply written.bind_returns
  intro _ later _
  have waiting : Program.Within (fun request => ¬ isWrite request) (waitForAck item.event.eventID) := by
    apply Program.Within.bind (Program.within_ask id)
    intro outcome
    apply (Program.within_lift outcome).bind
    rintro (_ | ack)
    · exact Program.within_fail _
    · exact within_require _ _
  apply (silent_meets waiting later).bind_returns
  intro _ acked _
  apply (silent_meets (saveIf_within _ _ id) acked).bind_returns
  exact fun _ _ _ => trivial

private theorem poll_meets (texts : TextLib lib) (ownEmail : Text) (history : History) :
    Program.Meets (wire lib) (Program.Returns fun _ _ => True) history (poll lib ownEmail) := by
  apply (gather_gives texts ownEmail history).bind_returns
  intro gathered later decoded
  apply (silent_meets (saveIf_within _ _ id) later).bind_returns
  intro _ settled _
  have emitted : Program.Meets (wire lib) (Program.Returns fun _ _ => True) settled
      (gathered.pending.foldlM (emit lib) (settleIdle gathered)) := by
    apply Program.meets_foldlM_returns (fun _ _ _ => True) gathered.pending
    · intro done item rest progress before split _
      exact emit_meets texts (decoded item (by rw [split]; simp)) progress before
    · exact trivial
  apply emitted.bind_returns
  exact fun _ _ _ => trivial

private theorem polls_meets (texts : TextLib lib) (ownEmail : Text) (count : ℕ) (history : History) :
    Program.Meets (wire lib) (Program.Returns fun _ _ => True) history (polls lib ownEmail count) := by
  induction count generalizing history with
  | zero => exact trivial
  | succ count ih =>
    rw [polls]
    apply (poll_meets texts ownEmail history).bind_returns
    exact fun _ later _ => ih later

private theorem initializeWatch_writes (texts : TextLib lib) (history : History) :
    Program.Meets (wire lib) (Program.Returns fun _ _ => True) history (initializeWatch lib) := by
  unfold initializeWatch
  apply (silent_meets (loadCursorState_within id) history).bind_returns
  rintro ⟨cursors, found⟩ loaded _
  apply (listBoxes_gives loaded).bind_returns
  intro boxes listed _
  have boxed : Program.Within (fun request => ¬ isWrite request) (boxes.foldlM (initializeBox lib) (cursors, !found)) := by
    apply Program.within_foldlM
    intro state box
    apply (within_require _ _).bind
    intro _
    split
    · exact Program.within_pure _
    split
    · exact Program.within_fail _
    · split
      · exact Program.within_fail _
      · exact Program.within_pure _
  apply (silent_meets boxed listed).bind_returns
  rintro ⟨cursors, changed⟩ done _
  apply (silent_meets (saveIf_within _ _ id) done).bind_returns
  intro _ saved _
  exact (writeNDJSON_meets texts .ready saved).returns fun _ _ _ => trivial

private theorem watchProcess_meets (texts : TextLib lib) (ownEmail : Text) (checked : Except GoError Unit)
    (count : ℕ) :
    Program.Meets (wire lib) (fun _ _ => True) [] (watchProcess lib ownEmail checked count) := by
  have ran : Program.Meets (wire lib) (fun _ _ => True) [] (runWatch lib ownEmail checked count) := by
    cases checked with
    | error err => exact trivial
    | ok done =>
      have returns : Program.Meets (wire lib) (Program.Returns fun _ _ => True) []
          (runWatch lib ownEmail (.ok ()) count) := by
        apply (initializeWatch_writes texts []).bind_returns
        exact fun _ later _ => polls_meets texts ownEmail count later
      exact returns.mono fun _ _ _ => trivial
  apply ran.bind_attempt
  intro outcome history _
  cases outcome with
  | ok => exact trivial
  | error err =>
    change Program.Meets _ _ _ (if err.isCanceled then pure () else _)
    split
    · exact trivial
    · apply (writeNDJSON_meets texts (.fatal err) history).bind_attempt
      exact fun _ _ _ => trivial

end

/-! ## From the process to the client -/

/-- The standard output is a pipe: what is written without an error is written whole, and after
an error nothing more gets through. -/
def Piped (trace : History) : Prop :=
  ∀ before record written after, trace = before ++ ⟨.write record, written⟩ :: after →
    (written.error = none → record.length ≤ written.count) ∧ (written.error ≠ none → stdout after = [])

private theorem piped_tail (piped : Piped (event :: trace)) : Piped trace := by
  intro before record written after split
  exact piped (event :: before) record written after (by rw [split, List.cons_append])

private theorem stdout_front (piped : Piped trace) : stdout trace <+: (records trace).flatten := by
  induction trace with
  | nil => exact List.prefix_refl _
  | cons event trace ih =>
    have later := ih (piped_tail piped)
    obtain ⟨request, answer⟩ := event
    cases request with
    | write record =>
      obtain ⟨whole, broken⟩ := piped [] record answer trace rfl
      have out : stdout (⟨.write record, answer⟩ :: trace) = record.take answer.count ++ stdout trace := List.flatMap_cons
      have all : records (⟨.write record, answer⟩ :: trace) = record :: records trace := rfl
      rw [out, all, List.flatten_cons]
      by_cases error : answer.error = none
      · rw [List.take_of_length_le (whole error), List.prefix_append_right_inj]
        exact later
      · rw [broken error, List.append_nil]
        exact (List.take_prefix _ _).trans (List.prefix_append _ _)
    | _ => exact later

private theorem framed_records (framed : ∀ record ∈ written, Framed lib record) :
    ∃ frames : List Frame, (∀ frame ∈ frames, Sent lib frame.members) ∧
      written = frames.map fun frame => frame.document ++ text "\n" := by
  induction written with
  | nil => exact ⟨[], by simp, rfl⟩
  | cons record rest ih =>
    obtain ⟨first, others⟩ := List.forall_mem_cons.mp framed
    obtain ⟨frame, sent, rfl⟩ := first
    obtain ⟨frames, each, rfl⟩ := ih others
    exact ⟨frame :: frames, List.forall_mem_cons.mpr ⟨sent, each⟩, rfl⟩

private theorem stream_records (frames : List Frame) :
    Text.utf8 (frames.map fun frame => frame.document ++ text "\n").flatten = stream frames := by
  induction frames with
  | nil => rfl
  | cons frame rest ih =>
    rw [List.map_cons, List.flatten_cons, Text.utf8_append, ih, Text.utf8_append]
    rfl

private theorem utf8_front (front : s <+: t) : Text.utf8 s <+: Text.utf8 t := by
  obtain ⟨rest, rfl⟩ := front
  rw [Text.utf8_append]
  exact List.prefix_append _ _

/-- **What the watch writes, the client reads.** In every run of the process, however often it polls
and however it ends, the records are frames; and wherever the pipe is cut and in whatever pieces the
bytes arrive, the client is given exactly those whose document came through, unchanged and in order. -/
theorem frames_reach_client (texts : TextLib lib)
    (ran : Run Program.Step (watchProcess lib ownEmail checked count) trace rest) (decoded : ∀ call ∈ trace, Decoded call)
    (piped : Piped trace) (codec : Encoding → List UInt8 → Option Text) (calls : ℕ) (r : StreamReader)
    (arrived : r.pending <+: Text.utf8 (stdout trace)) :
    ∃ frames : List Members, (∀ members ∈ frames, Sent lib members) ∧
      records trace = frames.map (fun members => GoJson.marshal (.obj members) ++ text "\n") ∧
      ∃ k ≤ frames.length, yielded (received codec calls r) = frames.take k ∧
        ∀ j ≤ frames.length, j ≤ k ↔
          j ≤ calls ∧ (Text.utf8 ((records trace).take j).flatten).dropLast <+: r.pending := by
  have allowed : Program.Allowed (wire lib) [] trace := by
    rintro before event after rfl
    exact decoded event (by simp)
  have calls_framed := ((watchProcess_meets texts ownEmail checked count).run ran allowed).2
  have framed : ∀ record ∈ records trace, Framed lib record := by
    intro record held
    obtain ⟨⟨request, answer⟩, inside, matched⟩ := List.mem_filterMap.mp held
    obtain ⟨before, after, split⟩ := List.append_of_mem inside
    cases request with
    | write found =>
      cases matched
      exact calls_framed before _ after split _ rfl
    | _ => cases matched
  obtain ⟨frames, sent, written⟩ := framed_records framed
  have cut : r.pending <+: stream frames := by
    rw [← stream_records, ← written]
    exact arrived.trans (utf8_front (stdout_front piped))
  obtain ⟨k, within, yields, reached⟩ := yields_frames codec frames calls r cut
  refine ⟨frames.map Frame.members, ?_, ?_, k, by rwa [List.length_map], ?_, ?_⟩
  · intro members held
    obtain ⟨frame, inside, rfl⟩ := List.mem_map.mp held
    exact sent frame inside
  · rw [written, List.map_map]
    rfl
  · rw [yields, List.map_take]
  · intro j bound
    rw [List.length_map] at bound
    rw [reached j bound, written, ← List.map_take, stream_records]

def sampleTextLib : GoLib := { sampleLib with marshal := GoJson.marshal }

private theorem sampleTextLib_texts : TextLib sampleTextLib where
  marshal := rfl
  lower := by
    intro s scalars point held
    obtain ⟨old, inside, rfl⟩ := List.mem_map.mp held
    obtain ⟨c, rfl⟩ := scalars old inside
    exact ⟨_, rfl⟩
  time := by
    intro time
    unfold sampleTextLib sampleLib
    dsimp only
    split <;> exact scalars_text _

private theorem listedApi_decoded (request : Call) : Decoded ⟨request, listedApi request⟩ := by
  have name : Scalars sampleCreator.name := scalars_text "Ada"
  have email : Scalars sampleCreator.emailAddress := scalars_text "ada@example.com"
  have content : Scalars (text "Hi") := scalars_text "Hi"
  have creator : ContactDecoded sampleCreator := ⟨⟨by decide, by decide⟩, name, email⟩
  cases request with
  | entriesPage topic _ =>
    rintro page ⟨⟩ entry held
    split at held
    · simp only [List.mem_cons, List.not_mem_nil, or_false] at held
      rcases held with rfl | rfl
      · exact ⟨⟨by decide, by decide⟩, creator, content⟩
      · exact ⟨⟨by decide, by decide⟩, creator, content⟩
    · rw [List.mem_singleton] at held
      subst held
      exact ⟨⟨by decide, by decide⟩, creator, content⟩
  | message id =>
    rintro message ⟨⟩
    exact ⟨creator, content⟩
  | listBoxes =>
    rintro boxes ⟨⟩
    simp only [List.forall_mem_cons]
    exact ⟨scalars_text "imbox", scalars_text "feedbox", by simp⟩
  | allChanges box cursor =>
    intro changes answered posting held
    have named : Scalars samplePosting.name := scalars_text "Hello"
    rcases listedApi_keyed answered posting held with rfl | rfl
    · exact ⟨⟨by decide, by decide⟩, ⟨by decide, by decide⟩, named⟩
    · exact ⟨⟨by decide, by decide⟩, ⟨by decide, by decide⟩, named⟩
  | _ => exact trivial

/-- The process greets and polls once. -/
def sampleProcess : Go Unit := watchProcess sampleTextLib (text "me@example.com") (.ok ()) 1

/-- The greeting, two events and a part of the third arrive, in two pieces of which the first ends
inside the first event. -/
def sampleArrival : StreamReader :=
  let written := Text.utf8 (stdout (sampleProcess.calls listedApi))
  ⟨[], [written.take 200, (written.drop 200).take 700]⟩

/-- The client is given what came through whole: the greeting and the two events. -/
theorem frames_reach_client_sample : ∃ frames : List Members, (∀ members ∈ frames, Sent sampleTextLib members) ∧
    records (sampleProcess.calls listedApi) = frames.map (fun members => GoJson.marshal (.obj members) ++ text "\n") ∧
    frames.length = 4 ∧ yielded (received (fun _ _ => none) 5 sampleArrival) = frames.take 3 := by
  have ran := Program.calls_run listedApi sampleProcess
  have decoded : ∀ call ∈ sampleProcess.calls listedApi, Decoded call := by
    rintro ⟨request, answer⟩ held
    rw [Program.answer_of_mem_calls held]
    exact listedApi_decoded request
  have piped : Piped (sampleProcess.calls listedApi) := by
    intro before record written after split
    have held : ⟨.write record, written⟩ ∈ sampleProcess.calls listedApi := by
      rw [split]
      simp
    have answered : written = ⟨record.length, none⟩ := Program.answer_of_mem_calls held
    subst answered
    exact ⟨fun _ => Nat.le_refl _, fun failed => absurd rfl failed⟩
  -- one evaluation of the process for everything that is read off it
  obtain ⟨arrived, count, third, fourth⟩ :
      sampleArrival.pending <+: Text.utf8 (stdout (sampleProcess.calls listedApi)) ∧
        (records (sampleProcess.calls listedApi)).length = 4 ∧
        (Text.utf8 ((records (sampleProcess.calls listedApi)).take 3).flatten).dropLast <+: sampleArrival.pending ∧
        ¬ (Text.utf8 ((records (sampleProcess.calls listedApi)).take 4).flatten).dropLast <+: sampleArrival.pending := by
    decide +kernel
  obtain ⟨frames, sent, written, k, within, yields, reached⟩ :=
    frames_reach_client sampleTextLib_texts ran decoded piped (fun _ _ => none) 5 sampleArrival arrived
  have four : frames.length = 4 := by
    rw [written, List.length_map] at count
    exact count
  have low : 3 ≤ k := (reached 3 (by omega)).mpr ⟨by decide, third⟩
  have high : ¬ 4 ≤ k := fun more => fourth ((reached 4 (by omega)).mp more).2
  have three : k = 3 := by omega
  rw [three] at yields
  exact ⟨frames, sent, written, four, yields⟩

end HermesHey.Wire
