import HermesHey.CursorRuns
import HermesHey.Library.Sorting

/-! `hydratePostingSince` over whole listings. The scan mixes two sources of
time: a message is dated by the message that the API returns for it, a comment
by its own entry. It ends at the first entry that is not after the cursor, and
a message without a time is not. -/
namespace HermesHey.Sidecar
open Library Library.Json

/-! ## The entries and messages of a history -/

def Entry.isMessage (entry : Entry) : Bool := entry.kind = text "message"

def Entry.isComment (entry : Entry) : Bool := entry.kind = text "comment"

/-- The kinds that the scan does not skip. -/
def Entry.supported (entry : Entry) : Bool := entry.isMessage || entry.isComment

/-- The entries of the pages that were read. -/
def listing (history : History) : List Entry := history.flatMap fun
  | ⟨.entriesPage _ _, answer⟩ =>
    match answer with
    | Except.ok (some page) => page.entries
    | _ => []
  | _ => []

/-- The ids that `Message` was called with. -/
def messageIDs (history : History) : List Int := history.filterMap fun
  | ⟨.message id, _⟩ => some id
  | _ => none

/-- The times of the messages that were returned. -/
def messageTimes (history : History) : List Instant := history.filterMap fun
  | ⟨.message _, answer⟩ =>
    match answer with
    | Except.ok (some message) => some message.createdAt
    | _ => none
  | _ => none

@[simp] private theorem listing_append : listing (first ++ later) = listing first ++ listing later := List.flatMap_append

@[simp] theorem messageIDs_append : messageIDs (first ++ later) = messageIDs first ++ messageIDs later :=
  List.filterMap_append

@[simp] private theorem messageTimes_append : messageTimes (first ++ later) = messageTimes first ++ messageTimes later :=
  List.filterMap_append

theorem Entry.supported_iff (entry : Entry) :
    ¬ (entry.kind ≠ text "message" ∧ entry.kind ≠ text "comment") ↔ entry.supported = true := by
  simp only [supported, isMessage, isComment, Bool.or_eq_true, decide_eq_true_eq]
  by_cases message : entry.kind = text "message" <;> simp [message]

theorem comment_not_message {entry : Entry} (comment : entry.kind = text "comment") :
    entry.kind ≠ text "message" := by
  rw [comment]
  decide

/-! ## What a scan finds -/

section
variable (lib : GoLib) (posting : Posting) (threadID : Int) (boxKind : Text)

/-- The calls that hydrate an entry, with its event and its time. -/
inductive Hydrates : History → Entry → Event → Instant → Prop where
  | message (kind : entry.kind = text "message") (same : message.id = entry.id) :
    Hydrates [⟨.message entry.id, Except.ok (some message)⟩] entry
      (eventFromMessage lib posting threadID entry.id message boxKind) message.createdAt
  | comment (kind : entry.kind = text "comment") :
    Hydrates [] entry (eventFromComment lib posting threadID entry boxKind) entry.createdAt

/-- The scan of a listing: its calls, and the events it takes, newest first. -/
inductive Scans (since : Instant) : History → List Entry → List Event → Prop where
  | done : Scans since [] [] []
  | skip (other : entry.supported = false) (later : Scans since trace rest events) :
    Scans since trace (entry :: rest) events
  | stop (hydrates : Hydrates lib posting threadID boxKind trace entry event created)
      (old : created.nanos ≤ since.nanos) : Scans since trace (entry :: rest) []
  | take (hydrates : Hydrates lib posting threadID boxKind first entry event created)
      (new : since.nanos < created.nanos) (later : Scans since trace rest events) :
    Scans since (first ++ trace) (entry :: rest) (event :: events)

end

private theorem topicPages_listed (topic : Int) (left : Nat) (page : Text) (entries : List Entry)
    (history : History) :
    Program.Meets .free (Program.Returns fun found later => ∃ trace, later = history ++ trace ∧
      found = entries ++ listing trace ∧ messageIDs trace = [] ∧ messageTimes trace = [])
      history (topicPages topic left page entries) := by
  induction left generalizing page entries history with
  | zero => exact trivial
  | succ left ih =>
    unfold topicPages
    apply Program.meets_ask trivial
    intro outcome _
    apply meets_pass _ fun _ => trivial
    rintro (_ | result) rfl
    · exact trivial
    simp only
    have read : listing [⟨.entriesPage topic page, Except.ok (some result)⟩] = result.entries :=
      List.append_nil result.entries
    split
    · exact ⟨_, rfl, by rw [read], rfl, rfl⟩
    · apply (ih result.nextPage (entries ++ result.entries) _).returns
      rintro found _ ⟨trace, rfl, rfl, ids, times⟩
      refine ⟨[⟨.entriesPage topic page, Except.ok (some result)⟩] ++ trace, List.append_assoc .., ?_, ids, times⟩
      rw [listing_append, read, List.append_assoc]

/-- `TopicEntries` returns the entries of the pages it read, and reads no message. -/
theorem topicEntries_listed (topic : Int) :
    Program.Meets .free (Program.Returns fun found trace =>
      found = listing trace ∧ messageIDs trace = [] ∧ messageTimes trace = []) [] (topicEntries topic) := by
  apply meets_require _ trivial
  intro _
  apply (topicPages_listed topic maxSDKPages [] [] []).returns
  rintro found _ ⟨trace, rfl, same, ids, times⟩
  exact ⟨same, ids, times⟩

private theorem hydrateEntry_hydrates (lib : GoLib) (posting : Posting) (threadID : Int) (entry : Entry)
    (boxKind : Text) (history : History) :
    Program.Meets .free (Program.Returns fun found later => ∃ trace, later = history ++ trace ∧
      Hydrates lib posting threadID boxKind trace entry found.1 found.2)
      history (hydrateEntry lib posting threadID entry boxKind) := by
  unfold hydrateEntry
  split
  · rename_i kind
    have fetched : Program.Meets .free (Program.Returns fun found later => ∀ message, found = some message →
        later = history ++ [⟨.message entry.id, Except.ok (some message)⟩]) history (fetchMessage entry.id) := by
      apply meets_require _ trivial
      intro _
      apply Program.meets_ask trivial
      rintro (error | found) _
      · exact trivial
      · rintro message rfl
        rfl
    apply fetched.bind_returns
    rintro (_ | message) later reached
    · exact trivial
    · have validated : Program.Meets .free (Program.Returns fun found last => found = message ∧
          message.id = entry.id ∧ last = later) later (validateHydratedMessage entry.id (some message)) := by
        apply meets_require _ trivial
        intro valid
        simp only [decide_eq_true_eq, not_or, not_not] at valid
        exact ⟨rfl, valid.2.2, rfl⟩
      apply validated.bind_returns
      rintro _ _ ⟨rfl, same, rfl⟩
      exact ⟨_, reached _ rfl, .message kind same⟩
  split
  · rename_i kind
    apply meets_require _ trivial
    intro _
    exact ⟨[], (List.append_nil history).symm, .comment kind⟩
  · exact trivial

private theorem hydrateEntriesSince_scans (lib : GoLib) (posting : Posting) (threadID : Int) (boxKind : Text)
    (since : Instant) (entries : List Entry) (done : List Event) (history : History) :
    Program.Meets .free (Program.Returns fun events later => ∃ trace taken, later = history ++ trace ∧
      events = done ++ taken ∧ Scans lib posting threadID boxKind since trace entries taken)
      history (hydrateEntriesSince lib posting threadID boxKind since entries done) := by
  induction entries generalizing done history with
  | nil => exact ⟨[], [], by simp, by simp, .done⟩
  | cons entry rest ih =>
    unfold hydrateEntriesSince
    split
    · rename_i other
      apply (ih done history).returns
      rintro events later ⟨trace, taken, grown, same, scans⟩
      refine ⟨trace, taken, grown, same, .skip ?_ scans⟩
      rw [← Bool.not_eq_true, ← Entry.supported_iff]
      exact not_not_intro other
    · apply (hydrateEntry_hydrates lib posting threadID entry boxKind history).bind_returns
      rintro ⟨event, created⟩ _ ⟨first, rfl, hydrates⟩
      simp only
      split
      · rename_i old
        exact ⟨first, [], rfl, (List.append_nil done).symm, .stop hydrates old⟩
      · rename_i new
        apply (ih (done ++ [event]) (history ++ first)).returns
        rintro events _ ⟨trace, taken, rfl, rfl, scans⟩
        refine ⟨first ++ trace, event :: taken, List.append_assoc .., List.append_assoc .., ?_⟩
        exact .take hydrates (Int.lt_of_not_ge new) scans

/-! ## The calls of a scan -/

/-- Only a message entry is looked up, under its own id. -/
theorem Hydrates.calls (hydrates : Hydrates lib posting threadID boxKind trace entry event created) :
    entry.supported = true ∧ listing trace = [] ∧
      (entry.isMessage = true ∧ messageIDs trace = [entry.id] ∧ messageTimes trace = [created] ∨
        entry.isMessage = false ∧ entry.isComment = true ∧ messageIDs trace = [] ∧ messageTimes trace = [] ∧
          created = entry.createdAt) := by
  cases hydrates with
  | message kind _ =>
    have message : entry.isMessage = true := decide_eq_true kind
    exact ⟨Bool.or_eq_true_iff.mpr (.inl message), rfl, .inl ⟨message, rfl, rfl⟩⟩
  | comment kind =>
    have comment : entry.isComment = true := decide_eq_true kind
    have other : entry.isMessage = false := decide_eq_false (comment_not_message kind)
    exact ⟨Bool.or_eq_true_iff.mpr (.inr comment), rfl, .inr ⟨other, comment, rfl, rfl, rfl⟩⟩

/-- A scan reads no listing. -/
theorem Scans.listing (scans : Scans lib posting threadID boxKind since trace entries events) :
    Sidecar.listing trace = [] := by
  induction scans with
  | done => rfl
  | skip _ _ ih => exact ih
  | stop hydrates _ => exact hydrates.calls.2.1
  | take hydrates _ _ ih => rw [listing_append, hydrates.calls.2.1, ih, List.append_nil]

/-- The messages that are looked up are those of the first message entries. -/
theorem Scans.messageIDs (scans : Scans lib posting threadID boxKind since trace entries events) :
    Sidecar.messageIDs trace <+: (entries.filter Entry.isMessage).map Entry.id := by
  induction scans with
  | done => exact List.nil_prefix
  | skip other _ ih =>
    have skipped := (Bool.or_eq_false_iff.mp other).1
    rwa [List.filter_cons_of_neg (by rw [skipped]; exact Bool.false_ne_true)]
  | stop hydrates _ =>
    obtain ⟨_, _, ⟨message, ids, _⟩ | ⟨other, _, ids, _⟩⟩ := hydrates.calls
    · rw [ids, List.filter_cons_of_pos message, List.map_cons]
      exact List.prefix_append [_] _
    · rw [ids]
      exact List.nil_prefix
  | take hydrates _ _ ih =>
    rw [messageIDs_append]
    obtain ⟨_, _, ⟨message, ids, _⟩ | ⟨other, _, ids, _⟩⟩ := hydrates.calls
    · rw [ids, List.filter_cons_of_pos message, List.map_cons]
      exact List.prefix_cons_inj _ |>.mpr ih
    · rwa [ids, List.nil_append, List.filter_cons_of_neg (by rw [other]; exact Bool.false_ne_true)]

/-- A hydration that returns has read a listing and scanned it. -/
theorem hydratePostingSince_scans (ran : Run Program.Step (hydratePostingSince lib posting boxKind since) trace
      (.pure events)) (read : topicIDFromURL lib posting.appUrl = .ok threadID) :
    ∃ pages scan, ∃ taken : List Event, trace = pages ++ scan ∧ messageIDs pages = [] ∧ messageTimes pages = [] ∧
      events = taken.reverse ∧ Scans lib posting threadID boxKind since scan (listing trace) taken := by
  have meets : Program.Meets .free (Program.Returns fun events trace => ∃ pages scan, ∃ taken : List Event,
      trace = pages ++ scan ∧ messageIDs pages = [] ∧ messageTimes pages = [] ∧ events = taken.reverse ∧
        Scans lib posting threadID boxKind since scan (listing trace) taken) []
      (hydratePostingSince lib posting boxKind since) := by
    rw [hydratePostingSince, read]
    apply (topicEntries_listed threadID).bind_returns
    rintro _ pages ⟨rfl, ids, times⟩
    apply (hydrateEntriesSince_scans lib posting threadID boxKind since (listing pages) [] pages).bind_returns
    rintro taken _ ⟨scan, _, rfl, rfl, scans⟩
    refine ⟨pages, scan, taken, rfl, ids, times, rfl, ?_⟩
    rwa [listing_append, scans.listing, List.append_nil]
  exact meets.ended ran

/-! ## Dated listings -/

/-- The entries that the scan does not skip, each with its time: comments by themselves, messages
as they were returned. The genuine times go from the newest to the oldest; the zero time is none. -/
structure Dated (entries : List Entry) (times : List Instant) (dated : List (Entry × Instant)) : Prop where
  listed : dated.map Prod.fst = entries.filter Entry.supported
  comments : ∀ entry created, (entry, created) ∈ dated → entry.kind = text "comment" → created = entry.createdAt
  messages : times <+: (dated.filter (·.1.isMessage)).map Prod.snd
  ordered : dated.Pairwise fun newer older =>
    newer.2.nanos ≠ 0 → older.2.nanos ≠ 0 → older.2.nanos ≤ newer.2.nanos

/-- No entry without a time hides one after the cursor: it does not stand before the cursor in front
of one, nor, as it can where the cursor is before the zero time, after the cursor behind an old one. -/
def Unhidden (since : Instant) (dated : List (Entry × Instant)) : Prop :=
  dated.Pairwise fun front behind => front.2.nanos = 0 ∨ behind.2.nanos = 0 →
    front.2.nanos ≤ since.nanos → behind.2.nanos ≤ since.nanos

/-- The first entry of a dated listing has the time with which it is hydrated. -/
theorem Dated.head (inOrder : Dated (entry :: rest) (messageTimes first ++ times) dated)
    (hydrates : Hydrates lib posting threadID boxKind first entry event created) :
    ∃ later, dated = (entry, created) :: later ∧ Dated rest times later := by
  obtain ⟨listed, comments, messages, ordered⟩ := inOrder
  obtain ⟨supported, _, kinds⟩ := hydrates.calls
  rw [List.filter_cons_of_pos supported] at listed
  obtain ⟨⟨found, time⟩, later, rfl, same, others⟩ := List.map_eq_cons_iff.mp listed
  change found = entry at same
  subst same
  rw [List.pairwise_cons] at ordered
  have dates := fun entry created held => comments entry created (List.mem_cons_of_mem _ held)
  rcases kinds with ⟨message, _, same⟩ | ⟨other, comment, _, same, created⟩
  · simp only [same, List.filter_cons, message, ↓reduceIte, List.map_cons, List.singleton_append,
      List.cons_prefix_cons] at messages
    obtain ⟨rfl, messages⟩ := messages
    exact ⟨later, rfl, others, dates, messages, ordered.2⟩
  · have time := comments found time List.mem_cons_self (of_decide_eq_true comment)
    simp only [same, List.filter_cons, other, Bool.false_eq_true, ↓reduceIte, List.nil_append] at messages
    subst time
    subst created
    exact ⟨later, rfl, others, dates, messages, ordered.2⟩

/-- The event is the entry's own, made from calls of the trace. -/
def Renders (lib : GoLib) (posting : Posting) (threadID : Int) (boxKind : Text) (trace : History)
    (entry : Entry × Instant) (event : Event) : Prop :=
  ∃ calls, (∀ call ∈ calls, call ∈ trace) ∧ Hydrates lib posting threadID boxKind calls entry.1 event entry.2

/-- A scan takes the entries in front of the first one that is not after the cursor. -/
theorem Scans.renders (scans : Scans lib posting threadID boxKind since scan entries events)
    (inOrder : Dated entries (messageTimes scan) dated) (inside : ∀ call ∈ scan, call ∈ trace) :
    List.Forall₂ (Renders lib posting threadID boxKind trace)
      (dated.takeWhile fun entry => since.nanos < entry.2.nanos) events := by
  induction scans generalizing dated with
  | done =>
    cases List.map_eq_nil_iff.mp inOrder.listed
    exact .nil
  | skip other _ ih =>
    apply ih _ inside
    obtain ⟨listed, comments, messages, ordered⟩ := inOrder
    rw [List.filter_cons_of_neg (by rw [other]; exact Bool.false_ne_true)] at listed
    exact ⟨listed, comments, messages, ordered⟩
  | stop hydrates old =>
    rw [← List.append_nil (messageTimes _)] at inOrder
    obtain ⟨later, rfl, _⟩ := inOrder.head hydrates
    rw [List.takeWhile_cons_of_neg (by simpa using old)]
    exact .nil
  | take hydrates new _ ih =>
    rw [messageTimes_append] at inOrder
    obtain ⟨later, rfl, rest⟩ := inOrder.head hydrates
    rw [List.takeWhile_cons_of_pos (by simpa using new)]
    have split := List.forall_mem_append.mp inside
    exact .cons ⟨_, split.1, hydrates⟩ (ih rest split.2)

/-- As the genuine times are in order, the cut at the first old entry keeps every new one unless one is hidden. -/
theorem Dated.unhidden_iff (inOrder : Dated entries times dated) :
    Unhidden since dated ↔ (dated.takeWhile fun entry => since.nanos < entry.2.nanos) =
      dated.filter fun entry => since.nanos < entry.2.nanos := by
  rw [takeWhile_eq_filter_iff]
  simp only [decide_eq_false_iff_not, Int.not_lt]
  constructor
  · intro unhidden
    refine (inOrder.ordered.and unhidden).imp ?_
    rintro front behind ⟨ordered, undated⟩ old
    by_cases timed : front.2.nanos = 0 ∨ behind.2.nanos = 0
    · exact undated timed old
    · rw [not_or] at timed
      exact (ordered timed.1 timed.2).trans old
  · exact fun cut => cut.imp fun kept _ old => kept old

/-! ## One answer for each call -/

/-- The hydration of a posting is the scan of its entries, oldest first. -/
theorem hydratePostingSince_eval (read : topicIDFromURL lib posting.appUrl = .ok threadID)
    (listed : (topicEntries threadID).eval api = .ok entries) :
    (hydratePostingSince lib posting boxKind since).eval api =
      (hydrateEntriesSince lib posting threadID boxKind since entries []).eval api >>= fun events => .ok events.reverse := by
  rw [hydratePostingSince, read]
  refine (Program.eval_bind (topicEntries threadID) _).trans ?_
  rw [listed]
  exact Program.eval_bind _ _

/-- The scan passes over the entries that are neither messages nor comments. -/
theorem hydrateEntriesSince_other (other : entry.supported = false) :
    hydrateEntriesSince lib posting threadID boxKind since (entry :: rest) done =
      hydrateEntriesSince lib posting threadID boxKind since rest done := by
  rw [← Bool.not_eq_true, ← Entry.supported_iff, not_not] at other
  rw [hydrateEntriesSince, if_pos other]

/-- The entries of other kinds are skipped. -/
theorem hydrateEntriesSince_filter (lib : GoLib) (posting : Posting) (threadID : Int) (boxKind : Text)
    (since : Instant) (entries : List Entry) (done : List Event) :
    hydrateEntriesSince lib posting threadID boxKind since (entries.filter Entry.supported) done =
      hydrateEntriesSince lib posting threadID boxKind since entries done := by
  induction entries generalizing done with
  | nil => rfl
  | cons entry rest ih =>
    cases kind : entry.supported with
    | false => rw [List.filter_cons_of_neg (by rw [kind]; exact Bool.false_ne_true), ih, hydrateEntriesSince_other kind]
    | true =>
      rw [List.filter_cons_of_pos kind, hydrateEntriesSince, hydrateEntriesSince]
      simp only [ih]

/-- A supported entry is hydrated; it ends the scan, or its event is taken. -/
theorem hydrateEntriesSince_eval (supported : entry.supported = true) :
    (hydrateEntriesSince lib posting threadID boxKind since (entry :: rest) done).eval api =
      (hydrateEntry lib posting threadID entry boxKind).eval api >>= fun found =>
        if found.2.nanos ≤ since.nanos then .ok done
        else (hydrateEntriesSince lib posting threadID boxKind since rest (done ++ [found.1])).eval api := by
  rw [hydrateEntriesSince, if_neg (entry.supported_iff.mpr supported), Program.eval_bind]
  congr 1
  funext ⟨event, created⟩
  simp only
  split <;> rfl

/-- The scan depends on the hydration of the supported entries only. -/
theorem hydrateEntriesSince_congr (same : ∀ entry ∈ entries, entry.supported = true →
      (hydrateEntry lib posting threadID entry boxKind).eval api =
        (hydrateEntry lib posting threadID entry boxKind).eval api') (done : List Event) :
    (hydrateEntriesSince lib posting threadID boxKind since entries done).eval api =
      (hydrateEntriesSince lib posting threadID boxKind since entries done).eval api' := by
  induction entries generalizing done with
  | nil => rfl
  | cons entry rest ih =>
    obtain ⟨first, others⟩ := List.forall_mem_cons.mp same
    cases kind : entry.supported with
    | false =>
      rw [hydrateEntriesSince_other kind]
      exact ih others done
    | true =>
      rw [hydrateEntriesSince_eval kind, hydrateEntriesSince_eval kind, first kind]
      simp only [ih others]

/-- The only call that hydrates an entry is that for its own message. -/
theorem hydrateEntry_calls (lib : GoLib) (posting : Posting) (threadID : Int) (entry : Entry) (boxKind : Text) :
    Program.Within (fun request => entry.isMessage = true ∧ request = .message entry.id)
      (hydrateEntry lib posting threadID entry boxKind) := by
  unfold hydrateEntry
  split
  · rename_i kind
    have fetched : Program.Within (fun request => entry.isMessage = true ∧ request = .message entry.id)
        (fetchMessage entry.id) := by
      apply (within_require _ _).bind
      intro _
      apply Program.Within.bind (Program.within_ask ⟨decide_eq_true kind, rfl⟩)
      exact fun outcome => within_pass outcome
    apply fetched.bind
    rintro (_ | message)
    · exact Program.within_fail _
    · apply Program.Within.bind
      · exact (within_require _ _).bind fun _ => Program.within_pure _
      · exact fun _ => Program.within_pure _
  split
  · exact (within_require _ _).bind fun _ => Program.within_pure _
  · exact Program.within_fail _

/-- The hydration of an entry reads its own message only. -/
theorem hydrateEntry_congr (same : entry.isMessage = true → api (.message entry.id) = api' (.message entry.id)) :
    (hydrateEntry lib posting threadID entry boxKind).eval api =
      (hydrateEntry lib posting threadID entry boxKind).eval api' := by
  apply (hydrateEntry_calls lib posting threadID entry boxKind).eval_congr
  rintro _ ⟨message, rfl⟩
  exact same message

/-- A listing that `TopicEntries` returns, and what follows from its supported entries and their messages. -/
theorem hydratePostingSince_supported (read : topicIDFromURL lib posting.appUrl = .ok threadID)
    (listed : (topicEntries threadID).eval api = .ok entries)
    (listed' : (topicEntries threadID).eval api' = .ok entries')
    (same : entries.filter Entry.supported = entries'.filter Entry.supported)
    (messages : ∀ id, api (.message id) = api' (.message id)) :
    (hydratePostingSince lib posting boxKind since).eval api =
      (hydratePostingSince lib posting boxKind since).eval api' := by
  rw [hydratePostingSince_eval read listed, hydratePostingSince_eval read listed', ← hydrateEntriesSince_filter, same,
    hydrateEntriesSince_filter, hydrateEntriesSince_congr]
  intro entry _ _
  exact hydrateEntry_congr fun _ => messages entry.id

/-- The visible count of a posting is not read. -/
theorem hydratePostingSince_visible (lib : GoLib) (posting : Posting) (boxKind : Text) (since : Instant)
    (count : Int) :
    hydratePostingSince lib { posting with visibleEntryCount := count } boxKind since =
      hydratePostingSince lib posting boxKind since := by
  have scanned : ∀ threadID entries done,
      hydrateEntriesSince lib { posting with visibleEntryCount := count } threadID boxKind since entries done =
        hydrateEntriesSince lib posting threadID boxKind since entries done := by
    intro threadID entries
    induction entries with
    | nil => exact fun done => rfl
    | cons entry rest ih =>
      intro done
      rw [hydrateEntriesSince, hydrateEntriesSince]
      simp only [ih]
      rfl
  unfold hydratePostingSince
  simp only [scanned]

/-! ## The new entries -/

/-- A message without a time. -/
def undatedMessage : Message := { sampleMessage sampleCreator with createdAt := ⟨0, 0⟩ }

/-- A comment after the cursor, listed behind that message. -/
def skippedComment : Entry := ⟨6, text "comment", entryTime, sampleCreator, text "Please look"⟩

def hidingScan : History :=
  [⟨.entriesPage 3 [], Except.ok (some ⟨[sampleEntry, skippedComment], []⟩)⟩,
    ⟨.message 4, Except.ok (some undatedMessage)⟩]

/-- A message without a time hides the new comment behind it. -/
theorem new_comment_hidden : ¬ ∀ lib posting threadID boxKind since trace events dated,
    Run Program.Step (hydratePostingSince lib posting boxKind since) trace (.pure events) →
      topicIDFromURL lib posting.appUrl = .ok threadID → Dated (listing trace) (messageTimes trace) dated →
        List.Forall₂ (Renders lib posting threadID boxKind trace)
          (dated.filter fun entry => since.nanos < entry.2.nanos).reverse events := by
  intro exact
  have ran : Run Program.Step (hydratePostingSince sampleLib samplePosting (text "imbox") cursorTime) hidingScan
      (.pure []) := .cons .answered (.cons .answered .nil)
  have inOrder : Dated (listing hidingScan) (messageTimes hidingScan)
      [(sampleEntry, ⟨0, 0⟩), (skippedComment, entryTime)] := by
    refine ⟨rfl, ?_, List.prefix_rfl, by decide⟩
    intro entry created held comment
    simp only [List.mem_cons, Prod.mk.injEq, List.not_mem_nil, or_false] at held
    rcases held with ⟨rfl, rfl⟩ | ⟨rfl, rfl⟩
    · exact absurd comment (by decide)
    · rfl
  cases exact _ _ _ _ _ _ _ _ ran rfl inOrder

/-- A hydration that returns yields the entries after the cursor, oldest first, each from its own
entry and message, exactly if no entry without a time hides one of them. Neither other kinds of
entries nor the visible count matter, and messages are looked up for message entries alone. -/
theorem hydrates_exactly_new (ran : Run Program.Step (hydratePostingSince lib posting boxKind since) trace (.pure events))
    (read : topicIDFromURL lib posting.appUrl = .ok threadID)
    (inOrder : Dated (listing trace) (messageTimes trace) dated) :
    (List.Forall₂ (Renders lib posting threadID boxKind trace)
        (dated.filter fun entry => since.nanos < entry.2.nanos).reverse events ↔ Unhidden since dated) ∧
      messageIDs trace <+: ((listing trace).filter Entry.isMessage).map Entry.id ∧
      (∀ count, hydratePostingSince lib { posting with visibleEntryCount := count } boxKind since =
        hydratePostingSince lib posting boxKind since) ∧
      ∀ api api' entries entries', (topicEntries threadID).eval api = .ok entries →
        (topicEntries threadID).eval api' = .ok entries' →
        entries.filter Entry.supported = entries'.filter Entry.supported →
        (∀ id, api (.message id) = api' (.message id)) →
        (hydratePostingSince lib posting boxKind since).eval api =
          (hydratePostingSince lib posting boxKind since).eval api' := by
  obtain ⟨pages, scan, taken, rfl, ids, times, rfl, scans⟩ := hydratePostingSince_scans ran read
  refine ⟨?_, ?_, hydratePostingSince_visible lib posting boxKind since, ?_⟩
  · rw [messageTimes_append, times, List.nil_append] at inOrder
    have within : ∀ call ∈ scan, call ∈ pages ++ scan := fun call held => List.mem_append_right _ held
    have renders := scans.renders inOrder within
    rw [inOrder.unhidden_iff, List.forall₂_reverse_iff]
    constructor
    · intro exact
      have length := renders.length_eq.trans exact.length_eq.symm
      exact (takeWhile_sublist_filter _ dated).eq_of_length length
    · intro cut
      rwa [← cut]
  · rw [messageIDs_append, ids, List.nil_append]
    exact scans.messageIDs
  · intro api api' entries entries' listed listed' same messages
    exact hydratePostingSince_supported read listed listed' same messages

/-- A comment at the cursor time. -/
def sampleComment : Entry := ⟨6, text "comment", cursorTime, sampleCreator, text "Seen"⟩

/-- A message entry between a new message and that comment; its message has no time. -/
def undatedEntry : Entry := ⟨5, text "message", entryTime, sampleCreator, text "Seen"⟩

def sampleScan : History :=
  [⟨.entriesPage 3 [], Except.ok (some ⟨[sampleEntry, undatedEntry, sampleComment], []⟩)⟩,
    ⟨.message 4, Except.ok (some (sampleMessage sampleCreator))⟩,
    ⟨.message 5, Except.ok (some { undatedMessage with id := 5 })⟩]

/-- Nothing is left out behind the message without a time. -/
theorem hydrates_exactly_new_sample :
    List.Forall₂ (Renders sampleLib samplePosting 3 (text "imbox") sampleScan) [(sampleEntry, entryTime)] [sampleEvent] ∧
      messageIDs sampleScan = [4, 5] := by
  have ran : Run Program.Step (hydratePostingSince sampleLib samplePosting (text "imbox") cursorTime) sampleScan
      (.pure [sampleEvent]) := .cons .answered (.cons .answered (.cons .answered .nil))
  have inOrder : Dated (listing sampleScan) (messageTimes sampleScan)
      [(sampleEntry, entryTime), (undatedEntry, ⟨0, 0⟩), (sampleComment, cursorTime)] := by
    refine ⟨rfl, ?_, List.prefix_rfl, by decide⟩
    intro entry created held comment
    simp only [List.mem_cons, Prod.mk.injEq, List.not_mem_nil, or_false] at held
    rcases held with ⟨rfl, rfl⟩ | ⟨rfl, rfl⟩ | ⟨rfl, rfl⟩
    · exact absurd comment (by decide)
    · exact absurd comment (by decide)
    · rfl
  have unhidden : Unhidden cursorTime [(sampleEntry, entryTime), (undatedEntry, ⟨0, 0⟩), (sampleComment, cursorTime)] := by
    unfold Unhidden
    decide
  exact ⟨(hydrates_exactly_new ran rfl inOrder).1.mpr unhidden, rfl⟩

end HermesHey.Sidecar
