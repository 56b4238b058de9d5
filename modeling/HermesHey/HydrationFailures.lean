import HermesHey.Hydration

/-! Where a hydration fails and where it ends: the entries behind the cursor and
the messages without a time. The API answers each call by a function of its
arguments. -/
namespace HermesHey.Sidecar
open Library Library.Json

/-- An API whose answers depend on the arguments alone. -/
abbrev Api := ∀ request, Answer request

/-! ## How an entry is dated -/

/-- `validateCommentEntry` accepts the entry. -/
def Entry.complete (entry : Entry) : Prop :=
  ¬ (entry.id ≤ 0 ∨ entry.createdAt.nanos = 0 ∨ entry.creator.id ≤ 0 ∨
    trimSpace entry.creator.emailAddress = [] ∨ trimSpace entry.summary = [])

instance (entry : Entry) : Decidable entry.complete := by
  unfold Entry.complete
  infer_instance

/-- The entry can be hydrated, with this time. -/
inductive Dates (api : Api) (entry : Entry) : Instant → Prop where
  | message (kind : entry.kind = text "message") (positive : 0 < entry.id)
      (answered : api (.message entry.id) = Except.ok (some message)) (same : message.id = entry.id) :
    Dates api entry message.createdAt
  | comment (kind : entry.kind = text "comment") (complete : entry.complete) : Dates api entry entry.createdAt

/-- An entry has one time. -/
theorem Dates.unique (first : Dates api entry created) (second : Dates api entry created') : created = created' := by
  cases first with
  | message kind _ answered _ =>
    cases second with
    | message _ _ answered' _ =>
      rw [answered] at answered'
      cases answered'
      rfl
    | comment kind' _ => exact absurd kind (comment_not_message kind')
  | comment kind _ =>
    cases second with
    | message kind' => exact absurd kind' (comment_not_message kind)
    | comment => rfl

/-- Only messages and comments are dated. -/
theorem Dates.supported (dates : Dates api entry created) : entry.supported = true := by
  cases dates with
  | message kind => exact Bool.or_eq_true_iff.mpr (.inl (decide_eq_true kind))
  | comment kind => exact Bool.or_eq_true_iff.mpr (.inr (decide_eq_true kind))

private theorem fetchMessage_eval {id : Int} (positive : 0 < id) (answered : api (.message id) = Except.ok found) :
    (fetchMessage id).eval api = .ok found := by
  simp only [fetchMessage, Program.eval_bind, eval_require, decide_eq_true positive, ↓reduceIte]
  change (pass (api (.message id))).eval api = _
  rw [answered]
  rfl

private theorem fetchMessage_ok {id : Int} (fetched : (fetchMessage id).eval api = .ok found) :
    0 < id ∧ api (.message id) = Except.ok found := by
  by_cases positive : 0 < id
  · simp only [fetchMessage, Program.eval_bind, eval_require, decide_eq_true positive, ↓reduceIte] at fetched
    change (pass (api (.message id))).eval api = _ at fetched
    refine ⟨positive, ?_⟩
    generalize api (.message id) = answer at fetched
    cases answer with
    | error error => cases fetched
    | ok value =>
      cases fetched
      rfl
  · simp only [fetchMessage, Program.eval_bind, eval_require, decide_eq_false positive] at fetched
    cases fetched

/-- An entry that has a time is hydrated with it. -/
theorem Dates.hydrated (dates : Dates api entry created) (lib : GoLib) (posting : Posting) (threadID : Int)
    (boxKind : Text) :
    ∃ event, (hydrateEntry lib posting threadID entry boxKind).eval api = .ok (event, created) := by
  cases dates with
  | message kind positive answered same =>
    rename_i message
    refine ⟨eventFromMessage lib posting threadID entry.id message boxKind, ?_⟩
    have valid : ¬ (entry.id ≤ 0 ∨ message.id ≤ 0 ∨ message.id ≠ entry.id) := by omega
    rw [hydrateEntry, if_pos kind, Program.eval_bind, fetchMessage_eval positive answered]
    change ((validateHydratedMessage entry.id (some message)) >>= _).eval api = _
    simp only [validateHydratedMessage, Program.eval_bind, eval_require, decide_eq_true valid, ↓reduceIte]
    rfl
  | comment kind complete =>
    refine ⟨eventFromComment lib posting threadID entry boxKind, ?_⟩
    have valid : ¬ (entry.id ≤ 0 ∨ entry.createdAt.nanos = 0 ∨ entry.creator.id ≤ 0 ∨
        trimSpace entry.creator.emailAddress = [] ∨ trimSpace entry.summary = []) := complete
    rw [hydrateEntry, if_neg (comment_not_message kind), if_pos kind, validateCommentEntry, Program.eval_bind, eval_require,
      decide_eq_true valid]
    rfl

/-- A hydrated entry has that time. -/
theorem dates_of_hydrated (hydrated : (hydrateEntry lib posting threadID entry boxKind).eval api = .ok (event, created)) :
    Dates api entry created := by
  unfold hydrateEntry at hydrated
  split at hydrated
  · rename_i kind
    rw [Program.eval_bind, bind_eq_ok] at hydrated
    obtain ⟨found, fetched, hydrated⟩ := hydrated
    obtain ⟨positive, answered⟩ := fetchMessage_ok fetched
    rw [Program.eval_bind, bind_eq_ok] at hydrated
    obtain ⟨message, validated, hydrated⟩ := hydrated
    cases hydrated
    cases found with
    | none => cases validated
    | some found =>
      simp only [validateHydratedMessage, Program.eval_bind, eval_require] at validated
      split at validated
      · rename_i valid
        cases validated
        simp only [decide_eq_true_eq, not_or, not_not] at valid
        exact .message kind positive answered valid.2.2
      · cases validated
  split at hydrated
  · rename_i kind
    rw [validateCommentEntry, Program.eval_bind, eval_require] at hydrated
    split at hydrated
    · rename_i valid
      cases hydrated
      exact .comment kind (of_decide_eq_true valid)
    · cases hydrated
  · cases hydrated

/-- The date of an entry depends on its own message only. -/
theorem Dates.congr (dates : Dates api entry created)
    (same : entry.isMessage = true → api' (.message entry.id) = api (.message entry.id)) : Dates api' entry created := by
  cases dates with
  | message kind positive answered matching =>
    exact .message kind positive ((same (decide_eq_true kind)).trans answered) matching
  | comment kind complete => exact .comment kind complete

/-! ## The scan, entry by entry -/

section
variable {since : Instant}

/-- An entry after the cursor is taken, and the scan goes on. -/
theorem scan_takes (dates : Dates api entry created) (new : since.nanos < created.nanos) (lib : GoLib)
    (posting : Posting) (threadID : Int) (boxKind : Text) :
    ∃ event, ∀ api' rest done,
      (entry.isMessage = true → api' (.message entry.id) = api (.message entry.id)) →
      (hydrateEntriesSince lib posting threadID boxKind since (entry :: rest) done).eval api' =
        (hydrateEntriesSince lib posting threadID boxKind since rest (done ++ [event])).eval api' := by
  obtain ⟨event, hydrated⟩ := dates.hydrated lib posting threadID boxKind
  refine ⟨event, ?_⟩
  intro api' rest done same
  rw [hydrateEntriesSince_eval dates.supported, hydrateEntry_congr same, hydrated]
  exact if_neg (Int.not_le_of_gt new)

/-- An entry at or before the cursor ends the scan. -/
theorem scan_stops (dates : Dates api entry created) (old : created.nanos ≤ since.nanos) (lib : GoLib)
    (posting : Posting) (threadID : Int) (boxKind : Text) (rest : List Entry) (done : List Event) :
    (hydrateEntriesSince lib posting threadID boxKind since (entry :: rest) done).eval api = .ok done := by
  obtain ⟨event, hydrated⟩ := dates.hydrated lib posting threadID boxKind
  rw [hydrateEntriesSince_eval dates.supported, hydrated]
  exact if_pos old

/-- An entry without a time is an error. -/
theorem scan_fails (supported : entry.supported = true) (undated : ∀ created, ¬ Dates api entry created) (lib : GoLib)
    (posting : Posting) (threadID : Int) (boxKind : Text) (rest : List Entry) (done : List Event) :
    ∃ error, (hydrateEntriesSince lib posting threadID boxKind since (entry :: rest) done).eval api = .error error := by
  rw [hydrateEntriesSince_eval supported]
  cases hydrated : (hydrateEntry lib posting threadID entry boxKind).eval api with
  | error error => exact ⟨error, rfl⟩
  | ok found => exact absurd (dates_of_hydrated hydrated) (undated found.2)

end

/-! ## Entries behind the cursor -/

/-- The topic lists the entry after the cursor. -/
def Entry.newer (entry : Entry) (since : Instant) : Prop := since.nanos < entry.createdAt.nanos

instance (entry : Entry) (since : Instant) : Decidable (entry.newer since) := by
  unfold Entry.newer
  infer_instance

def NewestFirst (entries : List Entry) : Prop :=
  entries.Pairwise fun newer older => older.createdAt.nanos ≤ newer.createdAt.nanos

/-- A listing in which every newer entry can be hydrated. -/
structure Hydratable (lib : GoLib) (api : Api) (posting : Posting) (since : Instant) (threadID : Int)
    (entries : List Entry) : Prop where
  read : topicIDFromURL lib posting.appUrl = .ok threadID
  listed : (topicEntries threadID).eval api = .ok entries
  newestFirst : NewestFirst entries
  hydrated : ∀ entry ∈ entries, entry.supported = true → entry.newer since → ∃ created, Dates api entry created

/-- A newer entry stays itself, and another one stays behind the cursor. -/
def Stands (since : Instant) (entry entry' : Entry) : Prop :=
  if entry.newer since then entry' = entry else ¬ entry'.newer since

/-- Another listing, with other entries in the place of those that are not newer. -/
structure Replaces (since : Instant) (threadID : Int) (api : Api) (entries : List Entry) (api' : Api)
    (entries' : List Entry) : Prop where
  listed : (topicEntries threadID).eval api' = .ok entries'
  newestFirst : NewestFirst entries'
  stand : List.Forall₂ (Stands since) entries entries'
  messages : ∀ entry ∈ entries, entry.newer since → api' (.message entry.id) = api (.message entry.id)

/-- The hydration returns, and what it returns does not depend on the entries that are not newer. -/
def Unaffected (lib : GoLib) (api : Api) (posting : Posting) (boxKind : Text) (since : Instant) (threadID : Int)
    (entries : List Entry) : Prop :=
  ∃ events, (hydratePostingSince lib posting boxKind since).eval api = .ok events ∧
    ∀ api' entries', Replaces since threadID api entries api' entries' →
      (hydratePostingSince lib posting boxKind since).eval api' = .ok events

/-- The scan does not get to an entry that is not newer: there is none, or the message of a newer
entry is dated at or before the cursor. -/
def Shielded (api : Api) (since : Instant) (entries : List Entry) : Prop :=
  (∀ entry ∈ entries, entry.newer since) ∨
    ∃ entry ∈ entries, entry.newer since ∧ ∃ created, Dates api entry created ∧ created.nanos ≤ since.nanos

/-- A comment that `validateCommentEntry` refuses for its summary, listed at a time. -/
def emptyComment (time : Instant) : Entry := ⟨6, text "comment", time, sampleCreator, []⟩

private theorem emptyComment_undated : ¬ Dates api (emptyComment time) created := by
  intro dates
  cases dates with
  | message kind => exact absurd kind (by simp only [emptyComment]; decide)
  | comment _ complete => exact complete (.inr (.inr (.inr (.inr rfl))))

/-- Every entry that is not newer is spoiled. -/
def spoiled (since : Instant) (entries : List Entry) : List Entry :=
  entries.map fun entry => if entry.newer since then entry else emptyComment entry.createdAt

/-- The API that lists these entries on one page. -/
def listingOnly (entries : List Entry) (api : Api) : Api
  | .entriesPage _ _ => Except.ok (some ⟨entries, []⟩)
  | request => api request

private theorem topicEntries_eval_one (positive : 0 < threadID) (entries : List Entry) (api : Api) :
    (topicEntries threadID).eval (listingOnly entries api) = .ok entries := by
  rw [topicEntries, Program.eval_bind, eval_require, decide_eq_true positive]
  rfl

private theorem spoiled_replaces (positive : 0 < threadID) (newestFirst : NewestFirst entries) (api : Api) :
    Replaces since threadID api entries (listingOnly (spoiled since entries) api) (spoiled since entries) where
  listed := topicEntries_eval_one positive _ api
  newestFirst := by
    have times : ∀ entry : Entry,
        (if entry.newer since then entry else emptyComment entry.createdAt).createdAt = entry.createdAt := by
      intro entry
      split <;> rfl
    apply List.pairwise_map.mpr
    simp only [times]
    exact newestFirst
  stand := by
    apply List.forall₂_map_right_iff.mpr
    apply List.forall₂_same.mpr
    intro entry _
    by_cases newer : entry.newer since
    · simp only [Stands, newer, ↓reduceIte]
    · simp only [Stands, newer, ↓reduceIte]
      exact newer
  messages _ _ _ := rfl

/-- A scan that gets to a spoiled entry fails. -/
theorem scan_spoiled (lib : GoLib) (posting : Posting) (threadID : Int) (boxKind : Text)
    (reached : ∀ entry ∈ entries, entry.supported = true → entry.newer since →
      ∃ created, Dates api entry created ∧ since.nanos < created.nanos)
    (old : ∃ entry ∈ entries, ¬ entry.newer since) (listed : List Entry) (done : List Event) :
    ∃ error, (hydrateEntriesSince lib posting threadID boxKind since (spoiled since entries) done).eval
      (listingOnly listed api) = .error error := by
  induction entries generalizing done with
  | nil =>
    obtain ⟨_, held, _⟩ := old
    cases held
  | cons entry rest ih =>
    obtain ⟨first, others⟩ := List.forall_mem_cons.mp reached
    rw [spoiled, List.map_cons, ← spoiled]
    by_cases newer : entry.newer since
    · have later : ∃ entry ∈ rest, ¬ entry.newer since := by
        obtain ⟨other, held, behind⟩ := old
        rcases List.mem_cons.mp held with rfl | held
        · exact absurd newer behind
        · exact ⟨other, held, behind⟩
      rw [if_pos newer]
      cases kind : entry.supported with
      | false =>
        rw [hydrateEntriesSince_other kind]
        exact ih others later done
      | true =>
        obtain ⟨created, dates, new⟩ := first kind newer
        obtain ⟨event, takes⟩ := scan_takes dates new lib posting threadID boxKind
        rw [takes (listingOnly listed api) _ done fun _ => rfl]
        exact ih others later _
    · rw [if_neg newer]
      exact scan_fails rfl (fun _ => emptyComment_undated) lib posting threadID boxKind _ done

/-- Before the scan gets to an entry that is not newer, both listings are scanned alike. -/
theorem scan_shielded (lib : GoLib) (posting : Posting) (threadID : Int) (boxKind : Text)
    (newestFirst : NewestFirst entries)
    (hydrated : ∀ entry ∈ entries, entry.supported = true → entry.newer since → ∃ created, Dates api entry created)
    (shielded : Shielded api since entries)
    (related : List.Forall₂ (Stands since) entries entries')
    (messages : ∀ entry ∈ entries, entry.newer since → api' (.message entry.id) = api (.message entry.id))
    (done : List Event) :
    ∃ events, (hydrateEntriesSince lib posting threadID boxKind since entries done).eval api = .ok events ∧
      (hydrateEntriesSince lib posting threadID boxKind since entries' done).eval api' = .ok events := by
  induction related generalizing done with
  | nil => exact ⟨done, rfl, rfl⟩
  | @cons entry entry' rest rest' same _ ih =>
    obtain ⟨older, newestFirst⟩ := List.pairwise_cons.mp newestFirst
    obtain ⟨first, others⟩ := List.forall_mem_cons.mp hydrated
    obtain ⟨message, messages⟩ := List.forall_mem_cons.mp messages
    have newer : entry.newer since := by
      rcases shielded with all | ⟨other, held, newer, _⟩
      · exact all entry List.mem_cons_self
      · rcases List.mem_cons.mp held with rfl | held
        · exact newer
        · exact Int.lt_of_lt_of_le newer (older other held)
    rw [Stands, if_pos newer] at same
    subst entry'
    have later : (∀ created, Dates api entry created → ¬ created.nanos ≤ since.nanos) → Shielded api since rest := by
      intro goes
      rcases shielded with all | ⟨other, held, newer, created, dates, old⟩
      · exact .inl fun entry held => all entry (List.mem_cons_of_mem _ held)
      · rcases List.mem_cons.mp held with rfl | held
        · exact absurd old (goes created dates)
        · exact .inr ⟨other, held, newer, created, dates, old⟩
    cases kind : entry.supported with
    | false =>
      rw [hydrateEntriesSince_other kind, hydrateEntriesSince_other kind]
      apply ih newestFirst others (later _) messages
      intro created dates
      rw [dates.supported] at kind
      cases kind
    | true =>
      obtain ⟨created, dates⟩ := first kind newer
      have dates' : Dates api' entry created := dates.congr fun _ => message newer
      by_cases old : created.nanos ≤ since.nanos
      · exact ⟨done, scan_stops dates old lib posting threadID boxKind _ done,
          scan_stops dates' old lib posting threadID boxKind _ done⟩
      · obtain ⟨event, takes⟩ := scan_takes dates (Int.lt_of_not_ge old) lib posting threadID boxKind
        rw [takes api rest done fun _ => rfl, takes api' rest' done fun _ => message newer]
        apply ih newestFirst others (later _) messages
        intro other dates'
        rwa [dates'.unique dates]

private theorem unaffected_iff (hydratable : Hydratable lib api posting since threadID entries) (boxKind : Text) :
    Unaffected lib api posting boxKind since threadID entries ↔ Shielded api since entries := by
  obtain ⟨read, listed, newestFirst, hydrated⟩ := hydratable
  constructor
  · rintro ⟨events, _, kept⟩
    by_contra exposed
    rw [Shielded, not_or] at exposed
    obtain ⟨old, goes⟩ := exposed
    have reached : ∀ entry ∈ entries, entry.supported = true → entry.newer since →
        ∃ created, Dates api entry created ∧ since.nanos < created.nanos := by
      intro entry held kind newer
      obtain ⟨created, dates⟩ := hydrated entry held kind newer
      refine ⟨created, dates, Int.lt_of_not_ge ?_⟩
      exact fun behind => goes ⟨entry, held, newer, created, dates, behind⟩
    have old : ∃ entry ∈ entries, ¬ entry.newer since := by simpa only [not_forall, exists_prop] using old
    have replaced : Replaces since threadID api entries (listingOnly (spoiled since entries) api) (spoiled since entries) :=
      spoiled_replaces (topicIDFromURL_bounds read).1 newestFirst api
    have same := kept _ _ replaced
    obtain ⟨error, failed⟩ := scan_spoiled lib posting threadID boxKind reached old (spoiled since entries) []
    rw [hydratePostingSince_eval read replaced.listed, failed] at same
    cases same
  · intro shielded
    have alike : List.Forall₂ (Stands since) entries entries := by
      apply List.forall₂_same.mpr
      intro entry _
      by_cases newer : entry.newer since <;> simp [Stands, newer]
    obtain ⟨events, scanned, _⟩ := scan_shielded lib posting threadID boxKind newestFirst hydrated shielded alike
      (fun _ _ _ => rfl) []
    refine ⟨events.reverse, ?_, ?_⟩
    · rw [hydratePostingSince_eval read listed, scanned]
      rfl
    · intro api' entries' replaced
      obtain ⟨events', scanned', other⟩ := scan_shielded lib posting threadID boxKind newestFirst hydrated shielded
        replaced.stand replaced.messages []
      rw [scanned] at scanned'
      cases scanned'
      rw [hydratePostingSince_eval read replaced.listed, other]
      rfl

/-! ## The hydrations of a poll -/

/-- The postings that `poll` hydrates. -/
def Posting.hydratable (posting : Posting) : Prop := ¬ (posting.id ≤ 0 ∨ posting.kind ≠ text "topic")

/-- A posting adds the events of its hydration. -/
theorem addPosting_eval (eligible : posting.hydratable) :
    (addPosting lib ownEmail increment items posting).eval api =
      ((hydratePostingSince lib posting increment.boxKind increment.since).eval api).mapError
        (.wrap (text "hydrate posting")) >>= fun events =>
          (events.foldlM (addEvent lib ownEmail increment.key) items).eval api := by
  rw [addPosting, if_neg eligible, Program.eval_bind, Program.eval_mapFail]

private theorem addEvent_eval_error (failed : (addEvent lib ownEmail key items event).eval api = .error error) :
    error = .plain (text "hydrated event has invalid timestamp") := by
  unfold addEvent at failed
  change (if isOwn lib ownEmail event then _ else _ : Go _).eval api = _ at failed
  split at failed
  · cases failed
  split at failed
  · cases failed
  split at failed
  · cases failed
    rfl
  · cases failed

/-- A poll stops in the hydration of a posting exactly when that hydration fails. -/
theorem hydrateIncrements_error
    (failed : (hydrateIncrements lib ownEmail increments).eval api = .error (.wrap (text "hydrate posting") error)) :
    ∃ increment ∈ increments, ∃ posting ∈ increment.postings, posting.hydratable ∧
      (hydratePostingSince lib posting increment.boxKind increment.since).eval api = .error error := by
  rw [hydrateIncrements, Program.eval_foldlM] at failed
  obtain ⟨increment, held, items, failed⟩ := foldlM_error_at failed
  rw [Program.eval_foldlM] at failed
  obtain ⟨posting, listed, items, failed⟩ := foldlM_error_at failed
  refine ⟨increment, held, posting, listed, ?_⟩
  by_cases eligible : posting.hydratable
  · rw [addPosting_eval eligible] at failed
    refine ⟨eligible, ?_⟩
    cases hydrated : (hydratePostingSince lib posting increment.boxKind increment.since).eval api with
    | error inner =>
      rw [hydrated] at failed
      cases failed
      rfl
    | ok events =>
      rw [hydrated] at failed
      change (events.foldlM (addEvent lib ownEmail increment.key) items).eval api = _ at failed
      rw [Program.eval_foldlM] at failed
      obtain ⟨event, _, _, failed⟩ := foldlM_error_at failed
      cases addEvent_eval_error failed
  · rw [Posting.hydratable, not_not] at eligible
    rw [addPosting, if_pos eligible] at failed
    cases failed

/-- A poll that gets past its hydrations has hydrated every posting. -/
theorem hydrateIncrements_ok (ran : (hydrateIncrements lib ownEmail increments).eval api = .ok items)
    (held : increment ∈ increments) (listed : posting ∈ increment.postings) (eligible : posting.hydratable) :
    ∃ events, (hydratePostingSince lib posting increment.boxKind increment.since).eval api = .ok events := by
  rw [hydrateIncrements, Program.eval_foldlM] at ran
  obtain ⟨_, _, ran⟩ := foldlM_ok_at ran held
  rw [Program.eval_foldlM] at ran
  obtain ⟨_, _, ran⟩ := foldlM_ok_at ran listed
  rw [addPosting_eval eligible, bind_eq_ok] at ran
  obtain ⟨events, hydrated, _⟩ := ran
  refine ⟨events, ?_⟩
  cases outcome : (hydratePostingSince lib posting increment.boxKind increment.since).eval api with
  | error error =>
    rw [outcome] at hydrated
    cases hydrated
  | ok found =>
    rw [outcome] at hydrated
    cases hydrated
    rfl

/-! ## A small API, for runs on fixed inputs -/

/-- The box 11 with the posting of the topic 3, whose entry 4 is a message. -/
def sampleApi (message : Message) : Api
  | .readInput => none
  | .identity => Except.ok none
  | .forAccount _ => Except.ok ()
  | .entriesPage _ _ => Except.ok none
  | .message _ => Except.ok (some message)
  | .newReply _ => Except.ok none
  | .defaultSenderID => Except.ok 5
  | .createReply _ _ _ _ _ => Except.ok ()
  | .postForm _ _ => Except.ok none
  | .listBoxes => Except.ok (some [sampleBox])
  | .allChanges _ _ => Except.ok (some ⟨[samplePosting], [], [], some sampleNext, false⟩)
  | .write record => ⟨record.length, none⟩
  | .readAck eventID => Except.ok (some eventID)
  | .loadCursors => Except.ok sampleFile
  | .saveCursors _ => .saved
  | .hydrated _ _ => ()

/-- The message is new and hydrates; what follows it is the given entry. -/
def sampleThread (older : List Entry) : Api := listingOnly (sampleEntry :: older) (sampleApi (sampleMessage sampleCreator))

private theorem sampleThread_hydratable (older : List Entry) (newestFirst : NewestFirst (sampleEntry :: older))
    (behind : ∀ entry ∈ older, ¬ entry.newer cursorTime) :
    Hydratable sampleLib (sampleThread older) samplePosting cursorTime 3 (sampleEntry :: older) where
  read := rfl
  listed := topicEntries_eval_one (by decide) _ _
  newestFirst := newestFirst
  hydrated := by
    intro entry held _ newer
    rcases List.mem_cons.mp held with rfl | held
    · exact ⟨_, .message rfl (by decide) rfl rfl⟩
    · exact absurd newer (behind entry held)

/-! ## History and hydration -/

/-- When every newer entry can be hydrated, the entries behind the cursor are harmless exactly where
the scan does not get to them; and a poll of such postings does not stop in a hydration. -/
theorem history_harmless_iff (hydratable : Hydratable lib api posting since threadID entries) (boxKind : Text) :
    (Unaffected lib api posting boxKind since threadID entries ↔ Shielded api since entries) ∧
      ∀ ownEmail increments,
        (∀ increment ∈ increments, ∀ posting ∈ increment.postings, posting.hydratable →
          ∃ threadID entries, Hydratable lib api posting increment.since threadID entries ∧
            Shielded api increment.since entries) →
        ∀ error, (hydrateIncrements lib ownEmail increments).eval api ≠ .error (.wrap (text "hydrate posting") error) := by
  refine ⟨unaffected_iff hydratable boxKind, ?_⟩
  intro ownEmail increments each error failed
  obtain ⟨increment, held, posting, listed, eligible, failed⟩ := hydrateIncrements_error failed
  obtain ⟨threadID, entries, hydratable, shielded⟩ := each increment held posting listed eligible
  obtain ⟨events, hydrated, _⟩ := (unaffected_iff hydratable increment.boxKind).mpr shielded
  rw [failed] at hydrated
  cases hydrated

/-- A message entry after the cursor, whose message is dated at the cursor. -/
def shieldEntry : Entry := ⟨5, text "message", entryTime, sampleCreator, text "Hi"⟩

/-- Behind the new message and that one the comment that is refused. -/
def shieldedThread : Api := listingOnly [sampleEntry, shieldEntry, emptyComment cursorTime] fun
  | .message 5 => Except.ok (some { sampleMessage sampleCreator with id := 5, createdAt := cursorTime })
  | request => sampleApi (sampleMessage sampleCreator) request

/-- The scan ends before it gets to the comment, whatever stands in its place. -/
theorem history_harmless_iff_sample :
    Unaffected sampleLib shieldedThread samplePosting (text "imbox") cursorTime 3
      [sampleEntry, shieldEntry, emptyComment cursorTime] := by
  have positive : 0 < sampleEntry.id ∧ 0 < shieldEntry.id := by decide
  have answered : shieldedThread (.message sampleEntry.id) = Except.ok (some (sampleMessage sampleCreator)) := rfl
  have answered' : shieldedThread (.message shieldEntry.id) =
      Except.ok (some { sampleMessage sampleCreator with id := 5, createdAt := cursorTime }) := rfl
  have first := Dates.message rfl positive.1 answered rfl
  have shield := Dates.message rfl positive.2 answered' rfl
  have hydratable : Hydratable sampleLib shieldedThread samplePosting cursorTime 3
      [sampleEntry, shieldEntry, emptyComment cursorTime] := by
    refine ⟨rfl, topicEntries_eval_one (by decide) _ _, by unfold NewestFirst; decide, ?_⟩
    simp only [List.forall_mem_cons]
    exact ⟨fun _ _ => ⟨_, first⟩, fun _ _ => ⟨_, shield⟩, fun _ newer => absurd newer (by decide), by simp⟩
  have shielded : Shielded shieldedThread cursorTime [sampleEntry, shieldEntry, emptyComment cursorTime] :=
    .inr ⟨shieldEntry, by simp, by decide, _, shield, Int.le_refl _⟩
  exact (history_harmless_iff hydratable (text "imbox")).1.mpr shielded

/-- A comment without a summary, as old as the cursor, fails the hydration and the poll. -/
theorem old_comment_breaks_hydration :
    Hydratable sampleLib (sampleThread [emptyComment cursorTime]) samplePosting cursorTime 3
        [sampleEntry, emptyComment cursorTime] ∧
      (hydratePostingSince sampleLib samplePosting (text "imbox") cursorTime).eval
        (sampleThread [emptyComment cursorTime]) = .error (.plain (text "comment entry is incomplete")) ∧
      (hydratePostingSince sampleLib samplePosting (text "imbox") cursorTime).eval
        (sampleThread [sampleComment]) = .ok [sampleEvent] ∧
      (poll sampleLib (text "me@example.com")).eval (sampleThread [emptyComment cursorTime]) =
        .error (.wrap (text "hydrate posting") (.plain (text "comment entry is incomplete"))) := by
  refine ⟨sampleThread_hydratable _ (by unfold NewestFirst; decide) ?_, rfl, rfl, rfl⟩
  rw [List.forall_mem_singleton]
  decide

end HermesHey.Sidecar
