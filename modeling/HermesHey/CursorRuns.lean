import HermesHey.CursorAdvance

/-! Sequences of `initialize` and `poll` on one cursor file, each call run to its
end or to a failure. -/
namespace HermesHey.Sidecar
open Library Library.Json

inductive WatchMode where
  | initializing
  | polling
  deriving DecidableEq

def WatchMode.program (lib : GoLib) (ownEmail : Text) : WatchMode → Go Unit
  | .initializing => initializeWatch lib
  | .polling => poll lib ownEmail

/-- One call: the calls it made in turn, and how it ended. -/
structure WatchCall where
  mode : WatchMode
  trace : History
  outcome : Except GoError Unit

/-- What is loaded is what the file holds. -/
def ReadsFile (file : Option CursorState) (history : History) : Prop :=
  ∀ before found after, history = before ++ ⟨.loadCursors, Except.ok found⟩ :: after → found = persisted file before

/-- A call takes the file from one state to the next. -/
structure Called (lib : GoLib) (ownEmail : Text) (file : Option CursorState) (call : WatchCall)
    (next : Option CursorState) : Prop where
  ran : Run Program.Step (call.mode.program lib ownEmail) call.trace (Program.lift call.outcome)
  allowed : Program.Allowed (watchContract lib ownEmail) [] call.trace
  reads : ReadsFile file call.trace
  writes : next = persisted file call.trace

/-! ## The loaded cursors are the file's -/

/-- Every call of a trace keeps the contract. -/
def Kept (lib : GoLib) (ownEmail : Text) (trace : History) : Prop :=
  ∀ before event after, trace = before ++ event :: after → (watchContract lib ownEmail).must before event.1

private theorem load_of_loads (loaded : cursors ∈ loads history) :
    ∃ before found after, history = before ++ ⟨.loadCursors, Except.ok found⟩ :: after ∧
      loads [⟨.loadCursors, Except.ok found⟩] = [cursors] ∧ ∀ key, cursorAt found key = cursors.lookup key := by
  obtain ⟨⟨request, answer⟩, held, matched⟩ := List.mem_filterMap.mp loaded
  obtain ⟨before, after, rfl⟩ := List.append_of_mem held
  cases request with
  | loadCursors =>
    cases answer with
    | error error => cases matched
    | ok found =>
      refine ⟨before, found, after, rfl, List.filterMap_cons_some matched, ?_⟩
      intro key
      cases found with
      | none =>
        cases matched
        rfl
      | some state =>
        obtain ⟨version, boxes⟩ := state
        cases matched
        rfl
  | _ => cases matched

/-- Nothing is saved before the state is loaded, so what is loaded is the file as it was. -/
theorem loaded_from_file (kept : Kept lib ownEmail trace) (reads : ReadsFile file trace)
    (split : trace = before ++ after) (loaded : loads before = [cursors]) (key : Text) :
    cursorAt file key = cursors.lookup key := by
  have inside : cursors ∈ loads before := by
    rw [loaded]
    exact List.mem_singleton_self _
  obtain ⟨first, found, later, rfl, once, same⟩ := load_of_loads inside
  have answered : found = persisted file first := by
    apply reads first found (later ++ after)
    rw [split, List.append_assoc, List.cons_append]
  have none : loads first = [] := by
    rw [← List.singleton_append, loads_append, loads_append, once] at loaded
    have lengths := congrArg List.length loaded
    simp only [List.length_append, List.length_singleton] at lengths
    exact List.eq_nil_of_length_eq_zero (by omega)
  have unsaved : ∀ event ∈ first, ¬ isSave event.1 := by
    intro event held save
    obtain ⟨front, back, rfl⟩ := List.append_of_mem held
    have must := kept front event (back ++ ⟨.loadCursors, Except.ok found⟩ :: (later ++ after)) (by simp [split])
    obtain ⟨request, answer⟩ := event
    cases request with
    | saveCursors boxes =>
      obtain ⟨earlier, before, _⟩ := must
      rw [loads_append, before] at none
      cases none
    | _ => exact save
  rw [persisted_unsaved unsaved] at answered
  rw [← answered]
  exact same key

/-- The file is untouched, or holds what some save of the trace wrote. -/
theorem persisted_cases (file : Option CursorState) (history : History) :
    persisted file history = file ∨ ∃ before boxes answer after,
      history = before ++ ⟨.saveCursors boxes, answer⟩ :: after ∧
        persisted file history = some ⟨1, some boxes⟩ := by
  induction history using List.reverseRecOn with
  | nil => exact .inl rfl
  | append_singleton history event ih =>
    have carried : persisted file (history ++ [event]) = persisted file history →
        persisted file (history ++ [event]) = file ∨ ∃ before boxes answer after,
          history ++ [event] = before ++ ⟨.saveCursors boxes, answer⟩ :: after ∧
            persisted file (history ++ [event]) = some ⟨1, some boxes⟩ := by
      intro same
      rw [same]
      rcases ih with untouched | ⟨before, boxes, answer, after, rfl, written⟩
      · exact .inl untouched
      · exact .inr ⟨before, boxes, answer, after ++ [event], by simp, written⟩
    obtain ⟨request, answer⟩ := event
    cases request with
    | saveCursors boxes =>
      cases answer with
      | saved => exact .inr ⟨history, boxes, _, [], rfl, persisted_append⟩
      | failedAfter error => exact .inr ⟨history, boxes, _, [], rfl, persisted_append⟩
      | failedBefore error => exact carried persisted_append
    | _ => exact carried persisted_append

/-! ## initialize -/

def notChanges : Call → Prop
  | .allChanges _ _ => False
  | _ => True

/-- A save makes one call at most. -/
theorem saveIf_within {calls : Call → Prop} (changed : Bool) (boxes : Cursors)
    (saving : calls (.saveCursors boxes)) : Program.Within calls (saveIf changed boxes) := by
  cases changed with
  | false => exact Program.within_pure _
  | true =>
    apply Program.Within.bind (Program.within_ask saving)
    rintro (_ | error | error)
    · exact Program.within_pure _
    · exact Program.within_fail _
    · exact Program.within_fail _

private theorem initializeWatch_within (lib : GoLib) : Program.Within notChanges (initializeWatch lib) := by
  apply (loadCursorState_within trivial).bind
  rintro ⟨loaded, found⟩
  apply (listBoxes_within trivial).bind
  intro boxes
  have looped : Program.Within notChanges (boxes.foldlM (initializeBox lib) (loaded, !found)) := by
    apply Program.within_foldlM
    intro state box
    apply (within_require _ _).bind
    intro _
    split
    · exact Program.within_pure _
    split
    · exact Program.within_fail _
    split
    · exact Program.within_fail _
    · exact Program.within_pure _
  apply looped.bind
  rintro ⟨cursors, changed⟩
  apply (saveIf_within changed cursors trivial).bind
  intro _
  apply (writeNDJSON_within lib _).mono
  intro request silent
  cases request with
  | allChanges => exact silent
  | _ => exact trivial

/-! ## A small watch, for runs on fixed inputs -/

/-- The contract asks of the answers only that boxes have distinct ids. -/
theorem allowed_of_listed {trace : History}
    (listed : ∀ boxes, ⟨.listBoxes, Except.ok (some boxes)⟩ ∈ trace → (boxes.map Box.id).Nodup) :
    Program.Allowed (watchContract lib ownEmail) history trace := by
  rintro before ⟨request, answer⟩ after rfl
  cases request with
  | listBoxes =>
    rintro boxes rfl
    exact listed boxes (List.mem_append_right _ List.mem_cons_self)
  | _ => exact trivial

/-- A call whose first step is the only load reads the file it found. -/
theorem reads_first {trace : History} (once : ∀ event ∈ trace, event.1 ≠ .loadCursors) :
    ReadsFile file (⟨.loadCursors, Except.ok file⟩ :: trace) := by
  intro before found after split
  cases before with
  | nil =>
    cases split
    rfl
  | cons event before =>
    rw [List.cons_append, List.cons.injEq] at split
    have held : ⟨.loadCursors, Except.ok found⟩ ∈ trace := by
      rw [split.2]
      exact List.mem_append_right _ List.mem_cons_self
    exact absurd rfl (once _ held)

def sampleBox : Box := ⟨11, text "imbox", text "https://app.hey.com/boxes/11/postings/changes"⟩

def sampleCursor : Cursor := ⟨text "2026-01-02T03:04:00Z", text "1"⟩

def sampleNext : Cursor := ⟨text "2026-01-02T03:08:00Z", text "1"⟩

def sampleCursors : Cursors := AList.insert (text "11") sampleCursor ∅

/-- The file before a poll. -/
def sampleFile : Option CursorState := some ⟨1, some sampleCursors⟩

/-- The file with the box at its successor. -/
def movedFile : Option CursorState := some ⟨1, some (sampleCursors.insert (text "11") sampleNext)⟩

/-- The state and the box are read. -/
def sampleListing : History :=
  [⟨.loadCursors, Except.ok sampleFile⟩, ⟨.listBoxes, Except.ok (some [sampleBox])⟩]

/-- The state, the box and its changes are read. -/
def sampleReads (added : List Posting) : History :=
  sampleListing ++ [⟨.allChanges 11 sampleCursor, Except.ok (some ⟨added, [], [], some sampleNext, false⟩)⟩]

/-- A whole record is written. -/
def sampleWrite (members : Members) : Sigma Answer :=
  let record := sampleLib.marshal (.obj members) ++ text "\n"
  ⟨.write record, ⟨record.length, none⟩⟩

def diskFull : GoError := .plain (text "write cursor state: no space left on device")

/-- A poll of a box without events, whose only save is lost. -/
def idlePoll : WatchCall where
  mode := .polling
  trace := sampleReads [] ++
    [⟨.saveCursors (sampleCursors.insert (text "11") sampleNext), .failedBefore diskFull⟩]
  outcome := .error diskFull

private theorem idlePoll_called : Called sampleLib (text "me@example.com") sampleFile idlePoll sampleFile where
  ran := .cons .answered (.cons .answered (.cons .answered (.cons .answered .nil)))
  allowed := by
    apply allowed_of_listed
    intro boxes listed
    simp only [idlePoll, sampleReads, sampleListing, List.cons_append, List.nil_append, List.mem_cons] at listed
    rcases listed with same | same | same | same | same
    · cases same
    · cases same
      decide
    all_goals cases same
  reads := by
    apply reads_first
    simp
  writes := rfl

/-- The event of the message entry. -/
def sampleEvent : Event := eventFromMessage sampleLib samplePosting 3 4 (sampleMessage sampleCreator) (text "imbox")

/-- The entry is read, and its event is found. -/
def sampleHydration : History :=
  [⟨.entriesPage 3 [], Except.ok (some ⟨[sampleEntry], []⟩)⟩,
    ⟨.message 4, Except.ok (some (sampleMessage sampleCreator))⟩, ⟨.hydrated (text "11") sampleEvent, ()⟩]

def sampleGathered : Gathered where
  cursors := sampleCursors
  increments := [⟨text "11", text "imbox", cursorTime, [samplePosting], some sampleNext, 1⟩]
  pending := [⟨sampleEvent, entryTime, [text "11"]⟩]

/-- The event is written and acknowledged, and the box moves. -/
def sampleDelivery : History :=
  [sampleWrite (eventFrame sampleEvent),
    ⟨.readAck sampleEvent.eventID, Except.ok (some sampleEvent.eventID)⟩,
    ⟨.saveCursors (sampleCursors.insert (text "11") sampleNext), .saved⟩]

/-- An `initialize` that finds the box in the file. -/
def sampleGreeting : History := sampleListing ++ [sampleWrite readyFrame]

theorem sampleGreeting_ran : Run Program.Step (initializeWatch sampleLib) sampleGreeting (.pure ()) :=
  .cons .answered (.cons .answered (.cons .answered .nil))

/-- A poll of a box with one event, which is acknowledged. -/
def busyPoll : WatchCall where
  mode := .polling
  trace := sampleReads [samplePosting] ++ sampleHydration ++ sampleDelivery
  outcome := .ok ()

private theorem sampleGathered_ran : Run Program.Step (gather sampleLib (text "me@example.com"))
    (sampleReads [samplePosting] ++ sampleHydration) (.pure sampleGathered) :=
  .cons .answered (.cons .answered (.cons .answered (.cons .answered (.cons .answered (.cons .answered .nil)))))

set_option maxRecDepth 4000 in
private theorem sampleDelivery_ran : Run Program.Step (deliver sampleLib sampleGathered) sampleDelivery (.pure ()) :=
  .cons .answered (.cons .answered (.cons .answered .nil))

theorem busyPoll_ran : Run Program.Step (poll sampleLib (text "me@example.com")) busyPoll.trace (.pure ()) :=
  Program.run_bind_of sampleGathered_ran sampleDelivery_ran

private theorem busyPoll_called : Called sampleLib (text "me@example.com") sampleFile busyPoll movedFile where
  ran := busyPoll_ran
  allowed := by
    apply allowed_of_listed
    intro boxes listed
    simp only [busyPoll, sampleReads, sampleListing, sampleHydration, sampleDelivery, sampleWrite, List.cons_append, List.nil_append,
      List.mem_cons] at listed
    rcases listed with same | same | same | same | same | same | same | same | same | same
    · cases same
    · cases same
      decide
    all_goals cases same
  reads := by
    apply reads_first
    simp [sampleHydration, sampleDelivery, sampleWrite]
  writes := rfl

/-! ## Whole runs -/

/-- No existing cursor changes, and without a save nothing does. -/
structure Initializes (file : Option CursorState) (call : WatchCall) (next : Option CursorState) : Prop where
  kept : ∀ key cursor, cursorAt file key = some cursor → cursorAt next key = some cursor
  unsaved : (∀ event ∈ call.trace, ¬ isSave event.1) → next = file

/-- The poll failed before its first write and left the file alone, or it hydrated and the cursors
stand where the acknowledged events say. -/
inductive Polls (lib : GoLib) (ownEmail : Text) (file : Option CursorState) (call : WatchCall)
    (next : Option CursorState) : Prop where
  | failed (outcome : call.outcome = .error err)
      (gathering : Run Program.Step (gather lib ownEmail) call.trace (.fail err)) (same : next = file)
  | hydrated (split : call.trace = before ++ after)
      (gathering : Run Program.Step (gather lib ownEmail) before (.pure gathered))
      (delivering : Run Program.Step (deliver lib gathered) after (Program.lift call.outcome))
      (exactly : Delivered lib ownEmail file gathered call.trace) (writes : next = persisted file call.trace)

def CallExact (lib : GoLib) (ownEmail : Text) (file : Option CursorState) (call : WatchCall)
    (next : Option CursorState) : Prop :=
  match call.mode with
  | .initializing => Initializes file call next
  | .polling => Polls lib ownEmail file call next

private theorem initialize_keeps (called : Called lib ownEmail file ⟨.initializing, trace, outcome⟩ next) :
    Initializes file ⟨.initializing, trace, outcome⟩ next := by
  obtain ⟨ran, allowed, reads, rfl⟩ := called
  obtain ⟨_, kept⟩ := (initializeWatch_meets lib ownEmail).run ran allowed
  obtain ⟨reading, _⟩ := (initializeWatch_within lib).run ran
  have kept : Kept lib ownEmail trace := kept
  refine ⟨?_, persisted_unsaved⟩
  intro key cursor held
  rcases persisted_cases file trace with untouched | ⟨before, boxes, answer, after, rfl, written⟩
  · rw [untouched]
    exact held
  · obtain ⟨loaded, loads, keeps⟩ := kept before _ after rfl
    rw [written]
    change boxes.lookup key = some cursor
    rw [loaded_from_file kept reads rfl loads] at held
    rcases keeps key cursor held with same | ⟨next, listed, _⟩
    · exact same
    · obtain ⟨⟨request, answered⟩, inside, matched⟩ := List.mem_filterMap.mp listed
      have read := reading _ (List.mem_append_left _ inside)
      cases request with
      | allChanges => exact absurd read id
      | _ => cases matched

private theorem poll_exact (called : Called lib ownEmail file ⟨.polling, trace, outcome⟩ next) :
    Polls lib ownEmail file ⟨.polling, trace, outcome⟩ next := by
  obtain ⟨ran, allowed, reads, rfl⟩ := called
  have ended : ∀ {α : Type} {inside : Go α} {rest : α → Go Unit}, Program.lift outcome = inside >>= rest →
      (∃ err, inside = .fail err ∧ outcome = .error err) ∨ ∃ value, inside = .pure value := by
    intro α inside rest same
    cases inside with
    | pure value => exact .inr ⟨value, rfl⟩
    | fail error =>
      left
      cases outcome with
      | ok _ => cases same
      | error err =>
        cases same
        exact ⟨error, rfl, rfl⟩
    | call request next =>
      cases outcome <;> cases same
  have unsaved : ∀ {trace rest}, Run Program.Step (gather lib ownEmail) trace rest →
      ∀ event ∈ trace, ¬ isSave event.1 := fun gathering => ((gather_within lib ownEmail).run gathering).1
  have finished : ∀ {gathered before after}, trace = before ++ after →
      Run Program.Step (gather lib ownEmail) before (.pure gathered) →
      Run Program.Step (deliver lib gathered) after (Program.lift outcome) →
      Polls lib ownEmail file ⟨.polling, trace, outcome⟩ (persisted file trace) := by
    rintro gathered before after rfl gathering delivering
    obtain ⟨early, late⟩ := allowed.split
    obtain ⟨gathers, kept⟩ := (gather_meets lib ownEmail).run gathering early
    rw [List.nil_append] at gathers
    have gathers : Gathers lib ownEmail gathered before := gathers
    have kept : Kept lib ownEmail before := kept
    have readsBefore : ReadsFile file before := by
      rintro front found back rfl
      apply reads front found (back ++ after)
      rw [List.append_assoc, List.cons_append]
    have start := loaded_from_file kept readsBefore (List.append_nil before).symm gathers.loads
    obtain ⟨reached, _⟩ := (deliver_meets gathers start (unsaved gathering)).run delivering late
    refine .hydrated rfl gathering delivering ?_ rfl
    cases outcome <;> exact reached
  rcases Program.run_bind ran with ⟨inside, gathering, same⟩ | ⟨gathered, before, after, split, gathering, delivering⟩
  · rcases ended same with ⟨err, rfl, failed⟩ | ⟨gathered, rfl⟩
    · exact .failed failed gathering (persisted_unsaved (unsaved gathering))
    · apply finished (List.append_nil trace).symm gathering
      rw [same]
      exact .nil
  · exact finished split gathering delivering

/-- In every sequence of calls on the cursor file, `initialize` keeps the cursors, and a poll
moves exactly those whose events are all acknowledged. -/
theorem cursors_advance_exactly (ran : Run (Called lib ownEmail) file calls last)
    (split : calls = before ++ call :: after) :
    ∃ now next, Run (Called lib ownEmail) file before now ∧ Called lib ownEmail now call next ∧
      CallExact lib ownEmail now call next ∧ Run (Called lib ownEmail) next after last := by
  rw [split] at ran
  obtain ⟨now, next, first, called, later⟩ := ran.at_label
  refine ⟨now, next, first, called, ?_, later⟩
  obtain ⟨mode, trace, outcome⟩ := call
  cases mode with
  | initializing => exact initialize_keeps called
  | polling => exact poll_exact called

/-- The box of that poll has no events at all, and still does not stand at its successor. -/
theorem idle_box_not_moved : Called sampleLib (text "me@example.com") sampleFile idlePoll sampleFile ∧
    (∃ gathered, Run Program.Step (gather sampleLib (text "me@example.com")) (sampleReads [])
      (.pure gathered) ∧ gathered.pending = []) ∧
    acknowledged idlePoll.trace = [] ∧ (text "11", some sampleNext) ∈ successors idlePoll.trace ∧
    Complete sampleLib (text "me@example.com") idlePoll.trace (acknowledged idlePoll.trace) (text "11") ∧
    cursorAt sampleFile (text "11") ≠ some sampleNext := by
  refine ⟨idlePoll_called, ⟨_, .cons .answered (.cons .answered (.cons .answered .nil)), rfl⟩, rfl,
    List.mem_singleton_self _, ?_, by decide⟩
  intro event hydrated
  cases hydrated

theorem cursors_advance_exactly_sample :
    (∃ now next, Run (Called sampleLib (text "me@example.com")) sampleFile [idlePoll] now ∧
      Called sampleLib (text "me@example.com") now busyPoll next ∧
      CallExact sampleLib (text "me@example.com") now busyPoll next ∧
      Run (Called sampleLib (text "me@example.com")) next [] movedFile) ∧
    cursorAt movedFile (text "11") = some sampleNext :=
  ⟨cursors_advance_exactly (.cons idlePoll_called (.cons busyPoll_called .nil)) rfl, rfl⟩

end HermesHey.Sidecar
