import HermesHey.HydrationFailures

/-! Messages that the API returns without a time. The zero time is not after any
cursor, so such a message looks like the end of the new entries. -/
namespace HermesHey.Sidecar
open Library Library.Json

section
variable (lib : GoLib) (api : Api) (posting : Posting) (threadID : Int) (boxKind : Text) (since : Instant)

/-- The entries that the scan hydrates, up to the one that ends it. -/
def examined : List Entry → List Entry
  | [] => []
  | entry :: rest =>
    if entry.supported then
      entry :: match (hydrateEntry lib posting threadID entry boxKind).eval api with
        | .ok (_, createdAt) => if createdAt.nanos ≤ since.nanos then [] else examined rest
        | .error _ => []
    else examined rest

end

/-- The entry hydrates, but its time is absent. -/
def Undated (api : Api) (entry : Entry) : Prop := ∃ created, Dates api entry created ∧ created.nanos = 0

/-- Nothing in the entry ends the scan. -/
def Passes (api : Api) (since : Instant) (entry : Entry) : Prop :=
  entry.supported = true → ∃ created, Dates api entry created ∧ since.nanos < created.nanos

/-- The scan fails at the first of the entries that it does not pass. -/
def Blocked (api : Api) (since : Instant) (entries : List Entry) : Prop :=
  ∃ before entry after, entries = before ++ entry :: after ∧ (∀ other ∈ before, Passes api since other) ∧
    entry.supported = true ∧ ∀ created, ¬ Dates api entry created

/-- Every undated message comes behind an entry that ends the scan, or else the scan passes it, as it
can where the cursor is before the zero time, and fails later. -/
def Detected (api : Api) (since : Instant) (entries : List Entry) : Prop :=
  ∀ before entry after, entries = before ++ entry :: after → Undated api entry →
    (∃ other ∈ before, ¬ Passes api since other) ∨ Passes api since entry ∧ Blocked api since after

/-- Only a message can be undated. -/
theorem Undated.message (undated : Undated api entry) : entry.isMessage = true := by
  obtain ⟨created, dates, zero⟩ := undated
  cases dates with
  | message kind => exact decide_eq_true kind
  | comment _ complete => exact absurd (.inr (.inl zero)) complete

private theorem Dates.passes_iff (dates : Dates api entry created) :
    Passes api since entry ↔ since.nanos < created.nanos := by
  constructor
  · intro passes
    obtain ⟨created', dates', new⟩ := passes dates.supported
    rwa [dates.unique dates']
  · exact fun new _ => ⟨created, dates, new⟩

private theorem passes_other (other : entry.supported = false) : Passes api since entry :=
  fun supported => absurd (other.symm.trans supported) Bool.false_ne_true

private theorem not_passes (supported : entry.supported = true) (undated : ∀ created, ¬ Dates api entry created) :
    ¬ Passes api since entry := by
  intro passes
  obtain ⟨created, dates, _⟩ := passes supported
  exact undated created dates

/-- The examined entries, without the scan. -/
theorem mem_examined : entry ∈ examined lib api posting threadID boxKind since entries ↔
    ∃ before after, entries = before ++ entry :: after ∧ (∀ other ∈ before, Passes api since other) ∧
      entry.supported = true := by
  induction entries with
  | nil => simp [examined]
  | cons first rest ih =>
    have later : (∃ before after, first :: rest = before ++ entry :: after ∧
        (∀ other ∈ before, Passes api since other) ∧ entry.supported = true) ↔
        (first = entry ∧ entry.supported = true) ∨ Passes api since first ∧
          ∃ before after, rest = before ++ entry :: after ∧ (∀ other ∈ before, Passes api since other) ∧
            entry.supported = true := by
      constructor
      · rintro ⟨before, after, split, passes, supported⟩
        cases before with
        | nil =>
          cases split
          exact .inl ⟨rfl, supported⟩
        | cons head before =>
          cases split
          obtain ⟨here, passes⟩ := List.forall_mem_cons.mp passes
          exact .inr ⟨here, before, after, rfl, passes, supported⟩
      · rintro (⟨rfl, supported⟩ | ⟨here, before, after, rfl, passes, supported⟩)
        · exact ⟨[], rest, rfl, by simp, supported⟩
        · exact ⟨first :: before, after, rfl, List.forall_mem_cons.mpr ⟨here, passes⟩, supported⟩
    rw [later, ← ih, examined]
    cases kind : first.supported with
    | false =>
      rw [if_neg Bool.false_ne_true]
      constructor
      · exact fun held => .inr ⟨passes_other kind, held⟩
      · rintro (⟨rfl, supported⟩ | ⟨_, held⟩)
        · exact absurd (kind.symm.trans supported) Bool.false_ne_true
        · exact held
    | true =>
      have here : entry = first ↔ first = entry ∧ entry.supported = true := by
        constructor
        · rintro rfl
          exact ⟨rfl, kind⟩
        · exact fun held => held.1.symm
      rw [if_pos rfl, List.mem_cons, here]
      apply or_congr_right
      cases hydrated : (hydrateEntry lib posting threadID first boxKind).eval api with
      | error error =>
        have undated : ∀ created, ¬ Dates api first created := by
          intro created dates
          obtain ⟨event, other⟩ := dates.hydrated lib posting threadID boxKind
          rw [hydrated] at other
          cases other
        simp [not_passes kind undated]
      | ok found =>
        have dates : Dates api first found.2 := dates_of_hydrated hydrated
        rw [dates.passes_iff]
        by_cases old : found.2.nanos ≤ since.nanos
        · simp [old, Int.not_lt_of_ge old]
        · simp [old, Int.lt_of_not_ge old]

/-- The scan fails where it is blocked. -/
theorem scan_error_iff (lib : GoLib) (posting : Posting) (threadID : Int) (boxKind : Text) (entries : List Entry)
    (done : List Event) :
    (∃ error, (hydrateEntriesSince lib posting threadID boxKind since entries done).eval api = .error error) ↔
      Blocked api since entries := by
  induction entries generalizing done with
  | nil =>
    constructor
    · rintro ⟨_, failed⟩
      cases failed
    · rintro ⟨before, _, _, split, _⟩
      simp at split
  | cons first rest ih =>
    have later : Passes api since first → (Blocked api since (first :: rest) ↔ Blocked api since rest) := by
      intro here
      constructor
      · rintro ⟨before, entry, after, split, passes, supported, undated⟩
        cases before with
        | nil =>
          cases split
          exact absurd here (not_passes supported undated)
        | cons head before =>
          cases split
          exact ⟨before, entry, after, rfl, (List.forall_mem_cons.mp passes).2, supported, undated⟩
      · rintro ⟨before, entry, after, rfl, passes, supported, undated⟩
        exact ⟨first :: before, entry, after, rfl, List.forall_mem_cons.mpr ⟨here, passes⟩, supported, undated⟩
    cases kind : first.supported with
    | false => rw [later (passes_other kind), hydrateEntriesSince_other kind, ih]
    | true =>
      by_cases dated : ∃ created, Dates api first created
      · obtain ⟨created, dates⟩ := dated
        by_cases old : created.nanos ≤ since.nanos
        · rw [scan_stops dates old]
          constructor
          · rintro ⟨_, failed⟩
            cases failed
          · rintro ⟨before, entry, after, split, passes, supported, undated⟩
            cases before with
            | nil =>
              cases split
              exact absurd dates (undated created)
            | cons head before =>
              cases split
              have here := (List.forall_mem_cons.mp passes).1
              rw [dates.passes_iff] at here
              omega
        · have new := Int.lt_of_not_ge old
          obtain ⟨event, takes⟩ := scan_takes dates new lib posting threadID boxKind
          rw [later (dates.passes_iff.mpr new), takes api rest done fun _ => rfl, ih]
      · rw [not_exists] at dated
        constructor
        · exact fun _ => ⟨[], first, rest, rfl, by simp, kind, dated⟩
        · exact fun _ => scan_fails kind dated lib posting threadID boxKind rest done

/-! ## The calls of a scan -/

private theorem calls_require (check : Bool) (message : String) : (require check message).calls api = [] := by
  cases check <;> rfl

private theorem fetchMessage_calls (id : Int) (api : Api) :
    messageIDs ((fetchMessage id).calls api) = if 0 < id then [id] else [] := by
  rw [fetchMessage, Program.calls_bind, calls_require, eval_require, List.nil_append]
  by_cases positive : 0 < id
  · simp only [positive, decide_true, ↓reduceIte]
    change messageIDs (⟨.message id, api (.message id)⟩ :: (pass (api (.message id))).calls api) = [id]
    cases api (.message id) <;> rfl
  · simp only [positive, decide_false, ↓reduceIte]
    rfl

private theorem validateHydratedMessage_calls (id : Int) (found : Option Message) :
    (validateHydratedMessage id found).calls api = [] := by
  cases found with
  | none => rfl
  | some message =>
    rw [validateHydratedMessage, Program.calls_bind, calls_require, List.nil_append]
    split <;> rfl

/-- Only a message is looked up, under its own id, when that is positive. -/
theorem hydrateEntry_lookup (lib : GoLib) (api : Api) (posting : Posting) (threadID : Int) (entry : Entry)
    (boxKind : Text) :
    messageIDs ((hydrateEntry lib posting threadID entry boxKind).calls api) =
      if entry.isMessage ∧ 0 < entry.id then [entry.id] else [] := by
  by_cases message : entry.kind = text "message"
  · have kind : entry.isMessage = true := decide_eq_true message
    have silent : ∀ found, ((validateHydratedMessage entry.id found >>= fun message =>
        pure (eventFromMessage lib posting threadID entry.id message boxKind, message.createdAt) : Go (Event × Instant)).calls
          api) = [] := by
      intro found
      rw [Program.calls_bind, validateHydratedMessage_calls]
      split <;> rfl
    rw [hydrateEntry, if_pos message, Program.calls_bind, messageIDs_append, fetchMessage_calls]
    simp only [kind, true_and, silent]
    cases (fetchMessage entry.id).eval api <;> exact List.append_nil _
  · have kind : entry.isMessage = false := decide_eq_false message
    rw [hydrateEntry, if_neg message]
    simp only [kind, Bool.false_eq_true, false_and, ↓reduceIte]
    split
    · rw [validateCommentEntry, Program.calls_bind, calls_require]
      split <;> rfl
    · rfl

/-- The examined messages are those that are looked up, as far as their ids are positive. -/
theorem examined_calls (lib : GoLib) (posting : Posting) (threadID : Int) (boxKind : Text) (since : Instant)
    (entries : List Entry) (done : List Event) :
    messageIDs ((hydrateEntriesSince lib posting threadID boxKind since entries done).calls api) =
      ((examined lib api posting threadID boxKind since entries).filter fun entry =>
        entry.isMessage ∧ 0 < entry.id).map Entry.id := by
  induction entries generalizing done with
  | nil => rfl
  | cons entry rest ih =>
    cases kind : entry.supported with
    | false =>
      rw [hydrateEntriesSince_other kind, ih, examined, kind]
      rfl
    | true =>
      have looked : ∀ later : List Entry, ((entry :: later).filter fun entry => entry.isMessage ∧ 0 < entry.id).map Entry.id =
          messageIDs ((hydrateEntry lib posting threadID entry boxKind).calls api) ++
            (later.filter fun entry => entry.isMessage ∧ 0 < entry.id).map Entry.id := by
        intro later
        rw [hydrateEntry_lookup, List.filter_cons]
        by_cases found : entry.isMessage ∧ 0 < entry.id <;> simp [found]
      rw [examined, if_pos kind, looked, hydrateEntriesSince, if_neg (entry.supported_iff.mpr kind), Program.calls_bind,
        messageIDs_append]
      congr 1
      cases (hydrateEntry lib posting threadID entry boxKind).eval api with
      | error error => rfl
      | ok found =>
        obtain ⟨event, created⟩ := found
        by_cases old : created.nanos ≤ since.nanos
        · simp only [old, ↓reduceIte]
          rfl
        · simp only [old, ↓reduceIte, ih]

/-! ## No examined entry is undated -/

/-- The entry has a creation time. -/
def HasTime (api : Api) (entry : Entry) : Prop := ∃ created, Dates api entry created ∧ created.nanos ≠ 0

/-- A scan that returns examined entries with a time only, exactly if every undated message is detected. -/
theorem scan_dated_iff (lib : GoLib) (posting : Posting) (threadID : Int) (boxKind : Text) (entries : List Entry)
    (done : List Event) :
    (∀ events, (hydrateEntriesSince lib posting threadID boxKind since entries done).eval api = .ok events →
        ∀ entry ∈ examined lib api posting threadID boxKind since entries, HasTime api entry) ↔
      Detected api since entries := by
  have timeless : ∀ {entry}, Undated api entry → ¬ HasTime api entry := by
    rintro entry ⟨created, dates, zero⟩ ⟨created', dates', nonzero⟩
    rw [dates'.unique dates] at nonzero
    exact nonzero zero
  constructor
  · intro dated before entry after split undated
    by_contra missed
    rw [not_or] at missed
    obtain ⟨reached, blocked⟩ := missed
    have passes : ∀ other ∈ before, Passes api since other := by simpa using reached
    have hydrates : ∃ created, Dates api entry created := undated.imp fun _ held => held.1
    have held : entry ∈ examined lib api posting threadID boxKind since entries :=
      mem_examined.mpr ⟨before, after, split, passes, hydrates.elim fun _ dates => dates.supported⟩
    cases scanned : (hydrateEntriesSince lib posting threadID boxKind since entries done).eval api with
    | ok events => exact timeless undated (dated events scanned entry held)
    | error error =>
      obtain ⟨front, failing, back, other, reaches, kind, fails⟩ :=
        (scan_error_iff lib posting threadID boxKind entries done).mp ⟨error, scanned⟩
      have differs : entry ≠ failing := by
        rintro rfl
        exact hydrates.elim fails
      rw [split] at other
      rcases List.append_eq_append_iff.mp other with ⟨middle, rfl, same⟩ | ⟨middle, rfl, same⟩
      · cases middle with
        | nil => exact differs (List.cons.inj same).1
        | cons head middle =>
          cases same
          obtain ⟨_, reaches⟩ := List.forall_mem_append.mp reaches
          obtain ⟨here, reaches⟩ := List.forall_mem_cons.mp reaches
          exact blocked ⟨here, middle, failing, back, rfl, reaches, kind, fails⟩
      · cases middle with
        | nil => exact differs (List.cons.inj same).1.symm
        | cons head middle =>
          cases same
          exact not_passes kind fails (passes _ (List.mem_append_right _ List.mem_cons_self))
  · intro detected events scanned entry held
    have returned : ¬ Blocked api since entries := by
      intro blocked
      obtain ⟨error, failed⟩ := (scan_error_iff lib posting threadID boxKind entries done).mpr blocked
      rw [failed] at scanned
      cases scanned
    obtain ⟨before, after, rfl, passes, supported⟩ := mem_examined.mp held
    have hydrates : ∃ created, Dates api entry created := by
      by_contra fails
      exact returned ⟨before, entry, after, rfl, passes, supported, not_exists.mp fails⟩
    obtain ⟨created, dates⟩ := hydrates
    refine ⟨created, dates, ?_⟩
    intro zero
    rcases detected before entry after rfl ⟨created, dates, zero⟩ with ⟨other, inside, stops⟩ | ⟨here, blocked⟩
    · exact stops (passes other inside)
    · obtain ⟨middle, failing, back, rfl, reaches, kind, fails⟩ := blocked
      exact returned ⟨before ++ entry :: middle, failing, back, (List.append_assoc before (entry :: middle) _).symm,
        List.forall_mem_append.mpr ⟨passes, List.forall_mem_cons.mpr ⟨here, reaches⟩⟩, kind, fails⟩

/-! ## Postings and polls -/

private theorem topicEntries_lookup (listed : (topicEntries threadID).eval api = .ok entries) :
    messageIDs ((topicEntries threadID).calls api) = [] := by
  have ran := Program.calls_run api (topicEntries threadID)
  rw [listed] at ran
  have found := (topicEntries_listed threadID).ended ran
  exact found.2.1

/-- A hydration returns when its scan does. -/
theorem hydratePostingSince_ok (read : topicIDFromURL lib posting.appUrl = .ok threadID)
    (listed : (topicEntries threadID).eval api = .ok entries) :
    (∃ events, (hydratePostingSince lib posting boxKind since).eval api = .ok events) ↔
      ∃ events, (hydrateEntriesSince lib posting threadID boxKind since entries []).eval api = .ok events := by
  rw [hydratePostingSince_eval read listed]
  cases (hydrateEntriesSince lib posting threadID boxKind since entries []).eval api with
  | error error =>
    constructor <;>
    · rintro ⟨_, failed⟩
      cases failed
  | ok events => exact ⟨fun _ => ⟨events, rfl⟩, fun _ => ⟨events.reverse, rfl⟩⟩

/-- A poll that gets to its first write has hydrated every posting of its increments. -/
theorem gathered_hydrated (gathers : (gather lib ownEmail).eval api = .ok gathered)
    (held : increment ∈ gathered.increments) (listed : posting ∈ increment.postings) (eligible : posting.hydratable) :
    ∃ events, (hydratePostingSince lib posting increment.boxKind increment.since).eval api = .ok events := by
  simp only [gather, Program.eval_bind, bind_eq_ok] at gathers
  obtain ⟨⟨cursors, found⟩, _, _, _, boxes, _, increments, _, items, hydrated, same⟩ := gathers
  cases same
  obtain ⟨old, inside, pending, same⟩ := countPending_origin held
  subst same
  obtain ⟨events, ran⟩ := hydrateIncrements_ok hydrated inside listed eligible
  exact ⟨events, ran⟩

private theorem hydrated_listed (hydrated : (hydratePostingSince lib posting boxKind since).eval api = .ok events) :
    ∃ threadID entries, topicIDFromURL lib posting.appUrl = .ok threadID ∧
      (topicEntries threadID).eval api = .ok entries := by
  simp only [hydratePostingSince, Program.eval_bind, Program.eval_lift, bind_eq_ok] at hydrated
  obtain ⟨threadID, read, entries, listed, _⟩ := hydrated
  exact ⟨threadID, entries, read, listed⟩

/-- A hydration that returns has examined entries with a time only, exactly if every undated message
of the listing is detected; so has a poll in each of its hydrations. The examined messages are those
that are looked up. -/
theorem undated_never_skipped_iff (read : topicIDFromURL lib posting.appUrl = .ok threadID)
    (listed : (topicEntries threadID).eval api = .ok entries) (boxKind : Text) (since : Instant) :
    ((∀ events, (hydratePostingSince lib posting boxKind since).eval api = .ok events →
        ∀ entry ∈ examined lib api posting threadID boxKind since entries, HasTime api entry) ↔
          Detected api since entries) ∧
      messageIDs ((hydratePostingSince lib posting boxKind since).calls api) =
        ((examined lib api posting threadID boxKind since entries).filter fun entry =>
          entry.isMessage ∧ 0 < entry.id).map Entry.id ∧
      ∀ ownEmail gathered, (gather lib ownEmail).eval api = .ok gathered →
        ∀ increment ∈ gathered.increments, ∀ posting ∈ increment.postings, posting.hydratable →
          ∃ threadID entries, topicIDFromURL lib posting.appUrl = .ok threadID ∧
            (topicEntries threadID).eval api = .ok entries ∧
            ((∀ entry ∈ examined lib api posting threadID increment.boxKind increment.since entries, HasTime api entry) ↔
              Detected api increment.since entries) := by
  have scanned : ∀ {posting threadID entries boxKind since}, topicIDFromURL lib posting.appUrl = .ok threadID →
      (topicEntries threadID).eval api = .ok entries →
      ((∀ events, (hydratePostingSince lib posting boxKind since).eval api = .ok events →
        ∀ entry ∈ examined lib api posting threadID boxKind since entries, HasTime api entry) ↔
          Detected api since entries) := by
    intro posting threadID entries boxKind since read listed
    rw [← scan_dated_iff lib posting threadID boxKind entries []]
    constructor
    · intro timed events ran
      obtain ⟨_, hydrated⟩ := (hydratePostingSince_ok read listed).mpr ⟨events, ran⟩
      exact timed _ hydrated
    · intro timed events ran
      obtain ⟨_, scanned⟩ := (hydratePostingSince_ok read listed).mp ⟨events, ran⟩
      exact timed _ scanned
  refine ⟨scanned read listed, ?_, ?_⟩
  · rw [hydratePostingSince, read]
    change messageIDs (((topicEntries threadID) >>= _).calls api) = _
    rw [Program.calls_bind, listed, messageIDs_append, topicEntries_lookup listed, List.nil_append]
    simp only [Program.calls_bind]
    rw [messageIDs_append, examined_calls]
    cases (hydrateEntriesSince lib posting threadID boxKind since entries []).eval api <;> exact List.append_nil _
  · intro ownEmail gathered gathers increment held posting inside eligible
    obtain ⟨events, hydrated⟩ := gathered_hydrated gathers held inside eligible
    obtain ⟨threadID, entries, read, listed⟩ := hydrated_listed hydrated
    refine ⟨threadID, entries, read, listed, ?_⟩
    rw [← scanned read listed]
    constructor
    · exact fun timed _ _ => timed
    · exact fun timed => timed events hydrated

/-- A message without a time, listed behind a comment at the cursor. -/
def detectedApi : Api := listingOnly [sampleEntry, sampleComment, undatedEntry] fun
  | .message 5 => Except.ok (some { undatedMessage with id := 5 })
  | request => sampleApi (sampleMessage sampleCreator) request

/-- The scan ends at the comment, and has examined entries with a time only. -/
theorem undated_never_skipped_iff_sample :
    examined sampleLib detectedApi samplePosting 3 (text "imbox") cursorTime [sampleEntry, sampleComment, undatedEntry] =
        [sampleEntry, sampleComment] ∧
      ∀ entry ∈ examined sampleLib detectedApi samplePosting 3 (text "imbox") cursorTime
        [sampleEntry, sampleComment, undatedEntry], HasTime detectedApi entry := by
  have positive : 0 < sampleEntry.id := by decide
  have answered : detectedApi (.message sampleEntry.id) = Except.ok (some (sampleMessage sampleCreator)) := rfl
  have first : Dates detectedApi sampleEntry entryTime := Dates.message rfl positive answered rfl
  have second : Dates detectedApi sampleComment cursorTime := .comment rfl (by decide)
  have ends : ¬ Passes detectedApi cursorTime sampleComment := by
    rw [second.passes_iff]
    exact Int.lt_irrefl _
  have detected : Detected detectedApi cursorTime [sampleEntry, sampleComment, undatedEntry] := by
    rintro before entry after split ⟨created, dated, zero⟩
    rcases before with _ | ⟨_, _ | ⟨_, before⟩⟩
    · cases split
      rw [dated.unique first] at zero
      exact absurd zero (by decide)
    · cases split
      rw [dated.unique second] at zero
      exact absurd zero (by decide)
    · obtain ⟨rfl, rfl, _⟩ : _ = sampleEntry ∧ _ = sampleComment ∧ _ := by simpa using split.symm
      exact .inl ⟨sampleComment, by simp, ends⟩
  exact ⟨rfl, (undated_never_skipped_iff rfl rfl (text "imbox") cursorTime).1.mpr detected [sampleEvent] rfl⟩

def undatedApi : Api := listingOnly [sampleEntry, skippedComment] (sampleApi undatedMessage)

/-- The poll that reads the undated message: its box moves without an event. -/
def undatedPoll : WatchCall where
  mode := .polling
  trace := sampleReads [samplePosting] ++
    [⟨.entriesPage 3 [], Except.ok (some ⟨[sampleEntry, skippedComment], []⟩)⟩,
      ⟨.message 4, Except.ok (some undatedMessage)⟩,
      ⟨.saveCursors (sampleCursors.insert (text "11") sampleNext), .saved⟩]
  outcome := .ok ()

private theorem undatedPoll_called : Called sampleLib (text "me@example.com") sampleFile undatedPoll movedFile where
  ran := .cons .answered (.cons .answered (.cons .answered (.cons .answered (.cons .answered (.cons .answered .nil)))))
  allowed := by
    apply allowed_of_listed
    intro boxes listed
    simp only [undatedPoll, sampleReads, sampleListing, List.cons_append, List.nil_append, List.mem_cons] at listed
    rcases listed with same | same | same | same | same | same | same
    · cases same
    · cases same
      decide
    all_goals cases same
  reads := by
    apply reads_first
    simp
  writes := rfl

/-- The hydration returns although it examined an undated message, and leaves out the new comment
behind it; the poll moves the cursor of the box. -/
theorem undated_message_skipped :
    (topicEntries 3).eval undatedApi = .ok [sampleEntry, skippedComment] ∧
      (hydratePostingSince sampleLib samplePosting (text "imbox") cursorTime).eval undatedApi = .ok [] ∧
      sampleEntry ∈ examined sampleLib undatedApi samplePosting 3 (text "imbox") cursorTime [sampleEntry, skippedComment] ∧
      ¬ HasTime undatedApi sampleEntry ∧
      (Dates undatedApi skippedComment entryTime ∧ cursorTime.nanos < entryTime.nanos) ∧
      Called sampleLib (text "me@example.com") sampleFile undatedPoll movedFile ∧
      cursorAt sampleFile (text "11") = some sampleCursor ∧ cursorAt movedFile (text "11") = some sampleNext := by
  refine ⟨rfl, rfl, List.mem_cons_self, ?_, ⟨.comment rfl (by decide), by decide⟩, undatedPoll_called, rfl, rfl⟩
  rintro ⟨created, dates, nonzero⟩
  have positive : 0 < sampleEntry.id := by decide
  have answered : undatedApi (.message sampleEntry.id) = Except.ok (some undatedMessage) := rfl
  have zero := Dates.message rfl positive answered rfl
  rw [dates.unique zero] at nonzero
  exact nonzero rfl

end HermesHey.Sidecar
