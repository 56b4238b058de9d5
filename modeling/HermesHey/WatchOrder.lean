import HermesHey.CursorRuns
import HermesHey.HydrationFailures
import HermesHey.Library.Sorting

/-! What a poll writes does not depend on the order in which the API lists boxes
and postings, or the map of the pending events is walked. -/
namespace HermesHey.Sidecar
open Library Library.Json

/-! ## The orders -/

private theorem postingBefore_iff :
    postingBefore a b ↔ a.id < b.id ∨ a.id = b.id ∧ Text.le a.appUrl b.appUrl = true := by
  unfold postingBefore
  by_cases same : b.id = a.id
  · simp [same]
  · simp only [ne_eq, same, not_false_eq_true, ↓reduceIte]
    omega

instance : Std.Total postingBefore where
  total a b := by
    rw [postingBefore_iff, postingBefore_iff]
    have urls := Text.le_or_le a.appUrl b.appUrl
    rcases lt_trichotomy a.id b.id with before | same | after
    · exact .inl (.inl before)
    · exact urls.imp (fun le => .inr ⟨same, le⟩) fun le => .inr ⟨same.symm, le⟩
    · exact .inr (.inl after)

instance : IsTrans Posting postingBefore where
  trans a b c first second := by
    rw [postingBefore_iff] at *
    rcases first with before | ⟨same, le⟩
    · left
      rcases second with after | ⟨same, _⟩ <;> omega
    · rcases second with after | ⟨same', le'⟩
      · exact .inl (by omega)
      · exact .inr ⟨same.trans same', Text.le_of_le le le'⟩

/-- Creation time, thread and entry, in this order. -/
def Earlier (a b : PendingEvent) : Prop :=
  a.created.nanos < b.created.nanos ∨ a.created.nanos = b.created.nanos ∧
    (a.event.threadID < b.event.threadID ∨ a.event.threadID = b.event.threadID ∧ a.event.entryID < b.event.entryID)

/-- The two are not told apart by time, thread and entry. -/
def Level (a b : PendingEvent) : Prop :=
  a.created.nanos = b.created.nanos ∧ a.event.threadID = b.event.threadID ∧ a.event.entryID = b.event.entryID

private theorem emittedBefore_iff :
    emittedBefore a b ↔ Earlier a b ∨ Level a b ∧ Text.le a.event.eventID b.event.eventID = true := by
  unfold emittedBefore
  by_cases level : Level a b
  · obtain ⟨time, thread, entry⟩ := level
    simp [Earlier, Level, time, thread, entry]
  · simp only [level, false_and, or_false]
    unfold Earlier
    unfold Level at level
    split
    · omega
    split
    · omega
    split
    · omega
    · omega

private theorem earlier_or (a b : PendingEvent) : Earlier a b ∨ Level a b ∨ Earlier b a := by
  unfold Earlier Level
  omega

theorem Level.symm (level : Level a b) : Level b a := ⟨level.1.symm, level.2.1.symm, level.2.2.symm⟩

instance : Std.Total emittedBefore where
  total a b := by
    rw [emittedBefore_iff, emittedBefore_iff]
    rcases earlier_or a b with before | level | after
    · exact .inl (.inl before)
    · exact (Text.le_or_le a.event.eventID b.event.eventID).imp (fun le => .inr ⟨level, le⟩)
        fun le => .inr ⟨level.symm, le⟩
    · exact .inr (.inl after)

instance : IsTrans PendingEvent emittedBefore where
  trans a b c first second := by
    rw [emittedBefore_iff] at *
    rcases first with before | ⟨level, le⟩
    · left
      rcases second with after | ⟨level, _⟩ <;> simp only [Earlier, Level] at * <;> omega
    · rcases second with after | ⟨level', le'⟩
      · left
        unfold Earlier Level at *
        omega
      · right
        refine ⟨?_, Text.le_of_le le le'⟩
        unfold Level at *
        omega

/-! ## Rearranged answers -/

/-- The same changes, with the postings in another order and divided otherwise. -/
structure SameChanges (a b : Changes) : Prop where
  postings : (a.added ++ a.updated).Perm (b.added ++ b.updated)
  deleted : a.deleted = b.deleted
  nextCursor : a.nextCursor = b.nextCursor
  fullSyncRequired : a.fullSyncRequired = b.fullSyncRequired

/-- Two APIs that answer alike, except for the order of boxes and postings. The boxes have distinct
ids, and postings of one box with one id and address are equal. -/
structure Rearranged (api api' : ∀ request, Answer request) : Prop where
  cursors : api' .loadCursors = api .loadCursors
  reads : ∀ request, isRead request → api' request = api request
  boxes : api' .listBoxes = api .listBoxes ∨ ∃ boxes boxes', api .listBoxes = Except.ok (some boxes) ∧
    api' .listBoxes = Except.ok (some boxes') ∧ boxes.Perm boxes'
  distinct : ∀ boxes, api .listBoxes = Except.ok (some boxes) → (boxes.map Box.id).Nodup
  changes : ∀ box cursor, api' (.allChanges box cursor) = api (.allChanges box cursor) ∨ ∃ changes changes',
    api (.allChanges box cursor) = Except.ok (some changes) ∧
      api' (.allChanges box cursor) = Except.ok (some changes') ∧ SameChanges changes changes'
  keyed : ∀ box cursor changes, api (.allChanges box cursor) = Except.ok (some changes) →
    ∀ a ∈ changes.added ++ changes.updated, ∀ b ∈ changes.added ++ changes.updated,
      a.id = b.id → a.appUrl = b.appUrl → a = b

private theorem loadCursorState_congr (rearranged : Rearranged api api') :
    loadCursorState.eval api' = loadCursorState.eval api := by
  have within : Program.Within (fun request => request = .loadCursors) loadCursorState := loadCursorState_within rfl
  apply within.eval_congr
  rintro _ rfl
  exact rearranged.cursors

private theorem hydrateIncrements_congr (rearranged : Rearranged api api') (lib : GoLib) (ownEmail : Text)
    (increments : List Increment) :
    (hydrateIncrements lib ownEmail increments).eval api' = (hydrateIncrements lib ownEmail increments).eval api := by
  have within : Program.Within (fun request => isRead request ∨ ∃ box event, request = .hydrated box event)
      (hydrateIncrements lib ownEmail increments) :=
    hydrateIncrements_within (fun _ read => .inl read) (fun box event => .inr ⟨box, event, rfl⟩) lib ownEmail increments
  apply within.eval_congr
  rintro request (read | ⟨box, event, rfl⟩)
  · exact rearranged.reads request read
  · change (_ : Unit) = _
    exact Subsingleton.elim _ _

/-- The increment of a box, from its changes. -/
private def incrementOf (box : Box) (since : Instant) (changes : Changes) : Go Increment := do
  require (¬ changes.fullSyncRequired) "posting changes require a full sync"
  let changed := decide (0 < changes.added.length + changes.updated.length + changes.deleted.length)
  require (¬ (changed ∧ changes.nextCursor = none)) "posting changes missing next cursor"
  require (∀ next ∈ changes.nextCursor, next.since ≠ []) "posting changes returned invalid cursor"
  return {
    key := box.key, boxKind := box.kind, since
    postings := (changes.added ++ changes.updated).insertionSort postingBefore
    next := changes.nextCursor, pending := 0 }

private theorem readIncrement_eval (held : cursors.lookup box.key = some cursor)
    (parsed : lib.parseTime cursor.since = some since)
    (answer : api (.allChanges box.id cursor) = Except.ok (some changes)) :
    (readIncrement lib cursors box).eval api = (incrementOf box since changes).eval api := by
  unfold readIncrement
  simp only [held, parsed]
  exact (Program.eval_ask_bind answer).trans rfl

private theorem incrementOf_congr (same : SameChanges changes changes')
    (keyed : ∀ a ∈ changes.added ++ changes.updated, ∀ b ∈ changes.added ++ changes.updated,
      a.id = b.id → a.appUrl = b.appUrl → a = b) (box : Box) (since : Instant) :
    incrementOf box since changes' = incrementOf box since changes := by
  have sorted : (changes'.added ++ changes'.updated).insertionSort postingBefore =
      (changes.added ++ changes.updated).insertionSort postingBefore := by
    apply insertionSort_perm same.postings
    intro a first b second before after
    rw [postingBefore_iff] at before after
    rcases before with before | ⟨id, url⟩
    · omega
    · rcases after with after | ⟨_, url'⟩
      · omega
      · exact keyed a first b second id (Text.eq_of_le url url')
  have count : changes'.added.length + changes'.updated.length = changes.added.length + changes.updated.length := by
    simpa only [List.length_append] using same.postings.length_eq.symm
  simp only [incrementOf, count, sorted, same.deleted, same.nextCursor, same.fullSyncRequired]

private theorem readIncrement_congr (rearranged : Rearranged api api') (lib : GoLib) (cursors : Cursors) (box : Box) :
    (readIncrement lib cursors box).eval api' = (readIncrement lib cursors box).eval api := by
  by_cases alike : ∀ cursor, cursors.lookup box.key = some cursor →
      api' (.allChanges box.id cursor) = api (.allChanges box.id cursor)
  · have within : Program.Within (fun request => api' request = api request) (readIncrement lib cursors box) :=
      readIncrement_within alike lib
    exact within.eval_congr fun _ same => same
  simp only [not_forall] at alike
  obtain ⟨cursor, held, differs⟩ := alike
  obtain ⟨changes, changes', answer, answer', same⟩ := (rearranged.changes box.id cursor).resolve_left differs
  cases parsed : lib.parseTime cursor.since with
  | none =>
    unfold readIncrement
    simp only [held, parsed]
    rfl
  | some since =>
    have quiet : Program.Within (fun _ => False) (incrementOf box since changes) := by
      apply (within_require _ _).bind
      intro _
      apply (within_require _ _).bind
      intro _
      apply (within_require _ _).bind
      exact fun _ => Program.within_pure _
    rw [readIncrement_eval held parsed answer, readIncrement_eval held parsed answer',
      incrementOf_congr same (rearranged.keyed box.id cursor changes answer)]
    exact quiet.eval_congr fun _ never => absurd never id

private theorem readIncrements_congr (rearranged : Rearranged api api') (lib : GoLib) (cursors : Cursors)
    (boxes : List Box) :
    (readIncrements lib cursors boxes).eval api' = (readIncrements lib cursors boxes).eval api := by
  unfold readIncrements
  rw [Program.eval_foldlM, Program.eval_foldlM]
  congr 1
  funext increments box
  rw [Program.eval_bind, Program.eval_bind, readIncrement_congr rearranged]
  rfl

private theorem listBoxes_congr (rearranged : Rearranged api api') :
    (∃ error, listBoxes.eval api = .error error ∧ listBoxes.eval api' = .error error) ∨
      ∃ boxes boxes', listBoxes.eval api = .ok boxes ∧ listBoxes.eval api' = .ok boxes' ∧
        (boxes'.insertionSort fun a b => a.id ≤ b.id) = boxes.insertionSort fun a b => a.id ≤ b.id := by
  rcases rearranged.boxes with same | ⟨boxes, boxes', answer, answer', perm⟩
  · have within : Program.Within (fun request => request = .listBoxes) listBoxes := listBoxes_within rfl
    have alike : listBoxes.eval api' = listBoxes.eval api := by
      apply within.eval_congr
      rintro _ rfl
      exact same
    rw [alike]
    cases listBoxes.eval api with
    | error error => exact .inl ⟨error, rfl, rfl⟩
    | ok boxes => exact .inr ⟨boxes, boxes, rfl, rfl, rfl⟩
  · have listed : ∀ {api : ∀ request, Answer request} {boxes}, api .listBoxes = Except.ok (some boxes) →
        listBoxes.eval api = .ok boxes := by
      intro api boxes answer
      rw [listBoxes, Program.eval_mapFail]
      have read : sdkListBoxes.eval api = .ok boxes := (Program.eval_ask_bind answer).trans rfl
      rw [read]
      rfl
    refine .inr ⟨boxes, boxes', listed answer, listed answer', ?_⟩
    apply insertionSort_perm perm
    intro a first b second before after
    exact List.inj_on_of_nodup_map (rearranged.distinct boxes answer) first second (Int.le_antisymm before after)

/-- A poll gathers the same from rearranged answers. -/
theorem gather_congr (rearranged : Rearranged api api') (lib : GoLib) (ownEmail : Text) :
    (gather lib ownEmail).eval api' = (gather lib ownEmail).eval api := by
  unfold gather
  rw [Program.eval_bind, Program.eval_bind, loadCursorState_congr rearranged]
  congr 1
  funext ⟨cursors, found⟩
  simp only [Program.eval_bind, eval_require]
  congr 1
  funext _
  rcases listBoxes_congr rearranged with ⟨error, failed, failed'⟩ | ⟨boxes, boxes', listed, listed', sorted⟩
  · rw [failed, failed']
    rfl
  · rw [listed, listed']
    change (readIncrements lib cursors (boxes'.insertionSort fun a b => a.id ≤ b.id)).eval api' >>= _ =
      (readIncrements lib cursors (boxes.insertionSort fun a b => a.id ≤ b.id)).eval api >>= _
    rw [sorted, readIncrements_congr rearranged]
    congr 1
    funext increments
    rw [hydrateIncrements_congr rearranged]
    rfl

/-! ## The pending events -/

/-- The identity is made of thread and entry, and the event is dated by its own text. -/
structure Stamped (lib : GoLib) (item : PendingEvent) : Prop where
  named : item.event.eventID = eventIdentity item.event.threadID item.event.entryID
  created : lib.parseTime item.event.createdAt = some item.created

theorem Scans.named (scans : Scans lib posting threadID boxKind since trace entries events) :
    ∀ event ∈ events, event.eventID = eventIdentity event.threadID event.entryID := by
  induction scans with
  | done => simp
  | skip _ _ ih => exact ih
  | stop => simp
  | take hydrates _ _ ih =>
    rw [List.forall_mem_cons]
    refine ⟨?_, ih⟩
    cases hydrates <;> rfl

private theorem hydratePostingSince_named (hydrated : (hydratePostingSince lib posting boxKind since).eval api = .ok events) :
    ∀ event ∈ events, event.eventID = eventIdentity event.threadID event.entryID := by
  have ran := Program.calls_run api (hydratePostingSince lib posting boxKind since)
  rw [hydrated] at ran
  cases read : topicIDFromURL lib posting.appUrl with
  | error error =>
    rw [hydratePostingSince, read] at hydrated
    cases hydrated
  | ok threadID =>
    obtain ⟨_, _, taken, _, _, _, rfl, scans⟩ := hydratePostingSince_scans ran read
    exact fun event held => scans.named event (List.mem_reverse.mp held)

private theorem addEvent_stamped (stamped : ∀ item ∈ items, Stamped lib item)
    (named : event.eventID = eventIdentity event.threadID event.entryID)
    (added : (addEvent lib ownEmail key items event).eval api = .ok items') : ∀ item ∈ items', Stamped lib item := by
  unfold addEvent at added
  change (if isOwn lib ownEmail event then _ else _ : Go _).eval api = _ at added
  split at added
  · cases added
    exact stamped
  split at added
  · cases added
    intro item held
    obtain ⟨old, inside, rfl⟩ := List.mem_map.mp held
    have kept := stamped old inside
    split
    · exact ⟨kept.named, kept.created⟩
    · exact kept
  split at added
  · cases added
  · rename_i created parsed
    cases added
    intro item held
    rcases List.mem_append.mp held with old | new
    · exact stamped item old
    · rw [List.mem_singleton.mp new]
      exact ⟨named, parsed⟩

private theorem hydrateIncrements_stamped (ran : (hydrateIncrements lib ownEmail increments).eval api = .ok items) :
    ∀ item ∈ items, Stamped lib item := by
  rw [hydrateIncrements, Program.eval_foldlM] at ran
  apply foldlM_invariant (fun items => ∀ item ∈ items, Stamped lib item) _ ran (by simp)
  intro increment _ items items' stamped ran
  rw [Program.eval_foldlM] at ran
  apply foldlM_invariant (fun items => ∀ item ∈ items, Stamped lib item) _ ran stamped
  intro posting _ items items' stamped added
  by_cases eligible : posting.hydratable
  · rw [addPosting_eval eligible, bind_eq_ok] at added
    obtain ⟨events, hydrated, added⟩ := added
    have named : ∀ event ∈ events, event.eventID = eventIdentity event.threadID event.entryID := by
      cases outcome : (hydratePostingSince lib posting increment.boxKind increment.since).eval api with
      | error error =>
        rw [outcome] at hydrated
        cases hydrated
      | ok found =>
        rw [outcome] at hydrated
        cases hydrated
        exact hydratePostingSince_named outcome
    rw [Program.eval_foldlM] at added
    apply foldlM_invariant (fun items => ∀ item ∈ items, Stamped lib item) _ added stamped
    intro event held items items' stamped added
    exact addEvent_stamped stamped (named event held) added
  · rw [Posting.hydratable, not_not] at eligible
    rw [addPosting, if_pos eligible] at added
    cases added
    exact stamped

/-- The pending events in order: no two stand level, as their identities differ. -/
theorem sorted_earlier {items : List PendingEvent} (stamped : ∀ item ∈ items, Stamped lib item)
    (distinct : (items.map (·.event.eventID)).Nodup)
    (inOrder : items.Pairwise emittedBefore) : items.Pairwise Earlier := by
  have apart : items.Pairwise fun a b => a.event.eventID ≠ b.event.eventID := List.pairwise_map.mp distinct
  apply (inOrder.and apart).imp_of_mem
  intro a b first second before
  obtain ⟨before, differ⟩ := before
  rcases emittedBefore_iff.mp before with earlier | ⟨⟨_, thread, entry⟩, _⟩
  · exact earlier
  · rw [(stamped a first).named, (stamped b second).named, thread, entry] at differ
    exact absurd rfl differ

/-- Whatever order the pending events come in, and however they are sorted, the result is the same. -/
theorem sorted_unique {items sorted : List PendingEvent} (distinct : (items.map (·.event.eventID)).Nodup)
    (perm : sorted.Perm items) (inOrder : sorted.Pairwise emittedBefore) : sorted = items.insertionSort emittedBefore := by
  apply eq_insertionSort perm inOrder
  intro a first b second before after
  apply List.inj_on_of_nodup_map distinct first second
  rw [emittedBefore_iff] at before after
  rcases before with before | ⟨_, le⟩
  · exfalso
    rcases after with after | ⟨level, _⟩ <;> simp only [Earlier, Level] at * <;> omega
  · rcases after with after | ⟨_, le'⟩
    · exfalso
      simp only [Earlier, Level] at *
      omega
    · exact Text.eq_of_le le le'

/-! ## The written records -/

/-- The records that were written, in their order. -/
def records (history : History) : List Text := history.filterMap fun
  | ⟨.write record, _⟩ => some record
  | _ => none

@[simp] private theorem records_append : records (first ++ later) = records first ++ records later := List.filterMap_append

def isWrite : Call → Prop
  | .write _ => True
  | _ => False

private theorem records_unwritten (unwritten : ∀ event ∈ trace, ¬ isWrite event.1) : records trace = [] := by
  rw [records, List.filterMap_eq_nil_iff]
  rintro ⟨request, answer⟩ held
  cases request with
  | write => exact absurd trivial (unwritten _ held)
  | _ => rfl

/-- The line that carries an event. -/
def eventRecord (lib : GoLib) (event : Event) : Text := lib.marshal (.obj (eventFrame event)) ++ text "\n"

private theorem unwritten_records {program : Go α}
    (within : Program.Within (fun request => ¬ isWrite request) program)
    (history : History) :
    Program.Meets .free (Program.Returns fun _ later => records later = records history) history program := by
  apply (within.meets fun _ _ _ => trivial).returns
  rintro _ _ ⟨trace, rfl, inside⟩
  rw [records_append, records_unwritten inside, List.append_nil]

private theorem writeNDJSON_records (lib : GoLib) (value : Value) (history : History) :
    Program.Meets .free (Program.Returns fun _ later =>
      records later = records history ++ [lib.marshal value ++ text "\n"]) history (writeNDJSON lib value) := by
  apply meets_require _ trivial
  intro _
  apply Program.meets_ask trivial
  rintro ⟨count, _ | error⟩ _
  · exact records_append
  · exact trivial

private theorem emit_records (lib : GoLib) (progress : Progress) (item : PendingEvent) (history : History) :
    Program.Meets .free (Program.Returns fun _ later => records later = records history ++ [eventRecord lib item.event])
      history (emit lib progress item) := by
  apply (writeNDJSON_records lib _ history).bind_returns
  intro _ written same
  have waiting : Program.Within (fun request => ¬ isWrite request) (waitForAck item.event.eventID) := by
    apply Program.Within.bind (Program.within_ask id)
    intro outcome
    apply (Program.within_lift outcome).bind
    rintro (_ | ack)
    · exact Program.within_fail _
    · exact within_require _ _
  apply (unwritten_records waiting written).bind_returns
  intro _ acked kept
  apply (unwritten_records (saveIf_within _ _ id) acked).bind_returns
  intro _ saved unchanged
  exact unchanged.trans (kept.trans same)

private theorem deliver_records (lib : GoLib) (gathered : Gathered) (history : History) :
    Program.Meets .free (Program.Returns fun _ later =>
      records later = records history ++ (gathered.pending.map (·.event)).map (eventRecord lib)) history
      (deliver lib gathered) := by
  apply (unwritten_records (saveIf_within _ _ id) history).bind_returns
  intro _ saved unchanged
  have emitted : Program.Meets .free (Program.Returns fun _ later =>
      records later = records history ++ (gathered.pending.map (·.event)).map (eventRecord lib)) saved
      (gathered.pending.foldlM (emit lib) (settleIdle gathered)) := by
    apply Program.meets_foldlM_returns fun (done : List PendingEvent) _ later =>
      records later = records history ++ (done.map (·.event)).map (eventRecord lib)
    · intro done item _ progress before _ same
      apply (emit_records lib progress item before).returns
      intro _ later written
      rw [written, same, List.map_append, List.map_append, List.append_assoc]
      rfl
    · rw [unchanged]
      exact (List.append_nil _).symm
  apply emitted.bind_returns
  exact fun _ _ same => same

/-- A poll that ends well has written the pending events that it gathered, in their order. -/
theorem poll_records (ran : (poll lib ownEmail).eval api = .ok ()) :
    ∃ gathered, (gather lib ownEmail).eval api = .ok gathered ∧
      records ((poll lib ownEmail).calls api) = (gathered.pending.map (·.event)).map (eventRecord lib) := by
  rw [poll, Program.eval_bind, bind_eq_ok] at ran
  obtain ⟨gathered, gathering, delivering⟩ := ran
  refine ⟨gathered, gathering, ?_⟩
  have quiet : records ((gather lib ownEmail).calls api) = [] := by
    apply records_unwritten
    intro event held write
    have inside := ((gather_gathering lib ownEmail).run (Program.calls_run api _)).1 event held
    obtain ⟨request, answer⟩ := event
    cases request with
    | write => exact inside
    | _ => exact write
  have written := Program.calls_run api (deliver lib gathered)
  rw [delivering] at written
  have same : records ([] ++ (deliver lib gathered).calls api) =
      records [] ++ (gathered.pending.map (·.event)).map (eventRecord lib) :=
    ((deliver_records lib gathered []).run written fun _ _ _ _ => trivial).1
  rw [poll, Program.calls_bind, gathering, records_append, quiet, List.nil_append]
  exact same

/-! ## The output of a poll -/

/-- The events are dated, and the first comes before the second by time, thread and entry. -/
def Precedes (lib : GoLib) (a b : Event) : Prop :=
  ∃ created created', lib.parseTime a.createdAt = some created ∧ lib.parseTime b.createdAt = some created' ∧
    (created.nanos < created'.nanos ∨ created.nanos = created'.nanos ∧
      (a.threadID < b.threadID ∨ a.threadID = b.threadID ∧ a.entryID < b.entryID))

/-- What a poll gathers from boxes with distinct ids. -/
theorem gathered_sorted (distinct : ∀ boxes, api .listBoxes = Except.ok (some boxes) → (boxes.map Box.id).Nodup)
    (gathers : (gather lib ownEmail).eval api = .ok gathered) :
    (gathered.pending.map (·.event)).Pairwise (Precedes lib) ∧ (gathered.pending.map (·.event.eventID)).Nodup ∧
      (∀ key event, (key, event) ∈ hydratedEvents ((gather lib ownEmail).calls api) →
        isOwn lib ownEmail event = false → event.eventID ∈ gathered.pending.map (·.event.eventID)) ∧
      ∀ sorted : List PendingEvent, sorted.Perm gathered.pending → sorted.Pairwise emittedBefore →
        sorted = gathered.pending := by
  have ran := Program.calls_run api (gather lib ownEmail)
  rw [gathers] at ran
  have allowed : Program.Allowed (watchContract lib ownEmail) [] ((gather lib ownEmail).calls api) := by
    apply allowed_of_listed
    intro boxes listed
    exact distinct boxes (Program.answer_of_mem_calls listed).symm
  have gathering : Gathers lib ownEmail gathered ([] ++ (gather lib ownEmail).calls api) :=
    ((gather_meets lib ownEmail).run ran allowed).1
  rw [List.nil_append] at gathering
  have unique := gathering.marked.distinct
  have whole : ∃ increments items, (hydrateIncrements lib ownEmail increments).eval api = .ok items ∧
      gathered.pending = items.insertionSort emittedBefore := by
    simp only [gather, Program.eval_bind, bind_eq_ok] at gathers
    obtain ⟨_, _, _, _, _, _, increments, _, items, hydrated, same⟩ := gathers
    cases same
    exact ⟨increments, items, hydrated, rfl⟩
  obtain ⟨increments, items, hydrated, same⟩ := whole
  have perm : gathered.pending.Perm items := by
    rw [same]
    exact List.perm_insertionSort emittedBefore items
  have stamped : ∀ item ∈ gathered.pending, Stamped lib item :=
    fun item held => hydrateIncrements_stamped hydrated item (perm.mem_iff.mp held)
  have inOrder : gathered.pending.Pairwise emittedBefore := by
    rw [same]
    exact List.pairwise_insertionSort emittedBefore items
  refine ⟨?_, unique, ?_, ?_⟩
  · apply List.pairwise_map.mpr
    apply (sorted_earlier stamped unique inOrder).imp_of_mem
    intro a b first second earlier
    exact ⟨a.created, b.created, (stamped a first).created, (stamped b second).created, earlier⟩
  · intro key event held foreign
    obtain ⟨item, inside, named, _⟩ := (gathering.marked.held key event.eventID).mp ⟨event, held, foreign, rfl⟩
    exact List.mem_map.mpr ⟨item, inside, named⟩
  · intro sorted arranged ordered
    rw [same]
    have unique : (items.map (·.event.eventID)).Nodup := (perm.map _).nodup_iff.mp unique
    exact sorted_unique unique (arranged.trans perm) ordered

/-- A poll that ends well writes its events in strict order, each identity once and none that it
hydrated left out. Neither the order of the boxes, nor the order and division of the postings, nor the
order in which the map of the pending events is walked and sorted, changes what it writes. -/
theorem poll_output_canonical (rearranged : Rearranged api api') (ran : (poll lib ownEmail).eval api = .ok ()) :
    ∃ events : List Event, records ((poll lib ownEmail).calls api) = events.map (eventRecord lib) ∧
      events.Pairwise (Precedes lib) ∧ (events.map Event.eventID).Nodup ∧
      (∀ key event, (key, event) ∈ hydratedEvents ((gather lib ownEmail).calls api) →
        isOwn lib ownEmail event = false → event.eventID ∈ events.map Event.eventID) ∧
      (∀ gathered, (gather lib ownEmail).eval api = .ok gathered → ∀ sorted : List PendingEvent,
        sorted.Perm gathered.pending → sorted.Pairwise emittedBefore → sorted.map (·.event) = events) ∧
      ((poll lib ownEmail).eval api' = .ok () →
        records ((poll lib ownEmail).calls api') = events.map (eventRecord lib)) := by
  obtain ⟨gathered, gathers, written⟩ := poll_records ran
  obtain ⟨inOrder, once, whole, unique⟩ := gathered_sorted rearranged.distinct gathers
  have ids : (gathered.pending.map (·.event)).map Event.eventID = gathered.pending.map (·.event.eventID) :=
    List.map_map
  refine ⟨gathered.pending.map (·.event), written, inOrder, ?_, ?_, ?_, ?_⟩
  · rwa [ids]
  · rwa [ids]
  · intro other gathers' sorted perm ordered
    rw [gathers] at gathers'
    cases gathers'
    rw [unique sorted perm ordered]
  · intro ran'
    obtain ⟨other, gathers', written'⟩ := poll_records ran'
    rw [gather_congr rearranged, gathers] at gathers'
    cases gathers'
    exact written'

def feedBox : Box := ⟨12, text "feedbox", text "https://app.hey.com/boxes/12/postings/changes"⟩

/-- A posting of the topic 8. -/
def otherPosting : Posting := { samplePosting with id := 9, appUrl := text "https://app.hey.com/topics/8" }

/-- Two boxes. Both list the topic 3, with its two messages, and the box 11 the topic 8 as well. -/
def sharedApi (boxes : List Box) (added updated : List Posting) : Api
  | .loadCursors => Except.ok (some ⟨1, some (sampleCursors.insert (text "12") sampleCursor)⟩)
  | .listBoxes => Except.ok (some boxes)
  | .allChanges box _ =>
    Except.ok (some (if box = 11 then ⟨added, updated, [], some sampleNext, false⟩
      else ⟨[samplePosting], [], [], some sampleNext, false⟩))
  | .entriesPage topic _ =>
    Except.ok (some (if topic = 3 then ⟨[{ sampleEntry with id := 6 }, sampleEntry], []⟩
      else ⟨[{ sampleEntry with id := 10 }], []⟩))
  | .message id => Except.ok (some { sampleMessage sampleCreator with id })
  | request => sampleApi (sampleMessage sampleCreator) request

def listedApi : Api := sharedApi [sampleBox, feedBox] [samplePosting] [otherPosting]

/-- The boxes change places, and the postings of one of them are all listed as added. -/
def swappedApi : Api := sharedApi [feedBox, sampleBox] [otherPosting, samplePosting] []

private theorem sharedApi_other (other : box ≠ 11) :
    sharedApi boxes added updated (.allChanges box cursor) =
      Except.ok (some ⟨[samplePosting], [], [], some sampleNext, false⟩) :=
  congrArg (fun changes => Except.ok (some changes)) (if_neg other)

/-- There are no postings but these two. -/
theorem listedApi_keyed (answered : listedApi (.allChanges box cursor) = Except.ok (some changes)) :
    ∀ posting ∈ changes.added ++ changes.updated, posting = samplePosting ∨ posting = otherPosting := by
  rcases eq_or_ne box 11 with rfl | other
  · cases answered
    simp
  · rw [listedApi, sharedApi_other other] at answered
    cases answered
    simp

private theorem swappedApi_rearranged : Rearranged listedApi swappedApi where
  cursors := rfl
  reads := by
    intro request read
    cases request with
    | entriesPage | message => rfl
    | _ => exact absurd read id
  boxes := .inr ⟨_, _, rfl, rfl, .swap _ _ _⟩
  distinct := by
    intro boxes listed
    cases listed
    decide
  changes box _ := by
    rcases eq_or_ne box 11 with rfl | other
    · exact .inr ⟨_, _, rfl, rfl, .swap _ _ _, rfl, rfl, rfl⟩
    · left
      rw [swappedApi, listedApi, sharedApi_other other, sharedApi_other other]
  keyed := by
    intro box cursor changes answered a first b second same _
    rcases listedApi_keyed answered a first with rfl | rfl <;>
      rcases listedApi_keyed answered b second with rfl | rfl
    · rfl
    · exact absurd same (by decide)
    · exact absurd same (by decide)
    · rfl

private theorem isOk_iff {outcome : Except ε Unit} : outcome = .ok () ↔ outcome.isOk := by
  cases outcome with
  | ok => exact ⟨fun _ => rfl, fun _ => rfl⟩
  | error => exact ⟨nofun, nofun⟩

/-- The rearranged boxes lead to the same three events, two of which both boxes have. -/
theorem poll_output_canonical_sample :
    records ((poll sampleLib (text "me@example.com")).calls swappedApi) =
        records ((poll sampleLib (text "me@example.com")).calls listedApi) ∧
      (records ((poll sampleLib (text "me@example.com")).calls listedApi)).length = 3 := by
  have ends : (poll sampleLib (text "me@example.com")).eval listedApi = .ok () := isOk_iff.mpr (by decide +kernel)
  have ends' : (poll sampleLib (text "me@example.com")).eval swappedApi = .ok () := isOk_iff.mpr (by decide +kernel)
  obtain ⟨events, written, _, _, _, _, same⟩ := poll_output_canonical swappedApi_rearranged ends
  exact ⟨(same ends').trans written.symm, by decide +kernel⟩

end HermesHey.Sidecar
