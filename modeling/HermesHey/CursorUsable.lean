import HermesHey.CursorRuns

/-! What the watch writes to the cursor file, and what a later poll requires of
it: `initialize` and `poll` each write cursors that came from the server, and
`poll` parses them. -/
namespace HermesHey.Sidecar
open Library Library.Json

/-- The time of the cursor can be parsed. -/
def Timed (lib : GoLib) (cursor : Cursor) : Prop := (lib.parseTime cursor.since).isSome = true

/-- An entry of the file that the next poll can use. -/
structure UsableCursor (lib : GoLib) (key : Text) (cursor : Cursor) : Prop where
  id : ∃ id : Int, 0 < id ∧ id < 2 ^ 63 ∧ key = decimalInt id
  since : cursor.since ≠ []
  timed : Timed lib cursor

def Usable (lib : GoLib) (boxes : Cursors) : Prop :=
  ∀ key cursor, boxes.lookup key = some cursor → UsableCursor lib key cursor

/-- There is no file yet, or all of its entries are usable. -/
def FileUsable (lib : GoLib) (file : Option CursorState) : Prop :=
  ∀ state, file = some state → state.version = 1 ∧ ∃ boxes, state.boxes = some boxes ∧ Usable lib boxes

private theorem usable_empty : Usable lib ∅ := by
  intro key cursor held
  rw [AList.lookup_empty] at held
  cases held

/-- A usable cursor can be put among usable ones. -/
theorem Usable.insert (usable : Usable lib boxes) (entry : UsableCursor lib key cursor) :
    Usable lib (boxes.insert key cursor) := by
  intro other found held
  by_cases same : other = key
  · subst same
    rw [AList.lookup_insert] at held
    cases held
    exact entry
  · rw [AList.lookup_insert_ne same] at held
    exact usable other found held

/-! ## What the server supplies -/

/-- One call of `initialize` or `poll` on the file, whatever the server answers; ids are 64-bit integers. -/
structure Attempted (lib : GoLib) (ownEmail : Text) (file : Option CursorState) (call : WatchCall)
    (next : Option CursorState) : Prop where
  ran : Run Program.Step (call.mode.program lib ownEmail) call.trace (Program.lift call.outcome)
  reads : ReadsFile file call.trace
  writes : next = persisted file call.trace
  ids : ∀ boxes, ⟨.listBoxes, Except.ok (some boxes)⟩ ∈ call.trace → ∀ box ∈ boxes, box.id < 2 ^ 63

/-- The times that the server names can be parsed: in the changes URL of a box that `initialize` finds
without a cursor, and in every next cursor. -/
structure Supplied (lib : GoLib) (file : Option CursorState) (call : WatchCall) : Prop where
  boxes : call.mode = .initializing → ∀ boxes, ⟨.listBoxes, Except.ok (some boxes)⟩ ∈ call.trace →
    ∀ box ∈ boxes, cursorAt file box.key = none →
      ∀ cursor, lib.postingChangesCursorFrom box.postingChangesUrl = some cursor → Timed lib cursor
  changes : ∀ box cursor changes, ⟨.allChanges box cursor, Except.ok (some changes)⟩ ∈ call.trace →
    ∀ next, changes.nextCursor = some next → Timed lib next

/-- The file is loaded first, and the server's times can be parsed; what is saved is usable. -/
def usableContract (lib : GoLib) (file : Option CursorState) (mode : WatchMode) : Program.Contract Answer where
  may history request answer := match request, answer with
    | .loadCursors, answer => history = [] → ∀ found, answer = Except.ok found → found = file
    | .listBoxes, answer => ∀ boxes, answer = Except.ok (some boxes) → ∀ box ∈ boxes, box.id < 2 ^ 63 ∧
        (mode = .initializing → cursorAt file box.key = none →
          ∀ cursor, lib.postingChangesCursorFrom box.postingChangesUrl = some cursor → Timed lib cursor)
    | .allChanges _ _, answer => ∀ changes, answer = Except.ok (some changes) →
        ∀ next, changes.nextCursor = some next → Timed lib next
    | _, _ => True
  must _ request := match request with
    | .saveCursors boxes => Usable lib boxes
    | _ => True

private theorem supplied_allowed (attempted : Attempted lib ownEmail file call next)
    (supplied : Supplied lib file call) :
    Program.Allowed (usableContract lib file call.mode) [] call.trace := by
  intro before event after split
  have held : event ∈ call.trace := by
    rw [split]
    exact List.mem_append_right _ List.mem_cons_self
  obtain ⟨request, answer⟩ := event
  rw [List.nil_append]
  cases request with
  | loadCursors =>
    rintro rfl found rfl
    exact attempted.reads [] found after split
  | listBoxes =>
    rintro boxes rfl box inside
    exact ⟨attempted.ids boxes held box inside, fun mode => supplied.boxes mode boxes held box inside⟩
  | allChanges box cursor =>
    rintro changes rfl
    exact supplied.changes box cursor changes held
  | _ => exact trivial

section
variable {mode : WatchMode} {file : Option CursorState}

/-- What a silent call leaves to prove. -/
theorem silent_usable (history : History) (request : Call) (silent : isSilent request) :
    (usableContract lib file mode).must history request := by
  cases request with
  | entriesPage | message | listBoxes | write => exact trivial
  | _ => exact absurd silent id

/-- The loaded cursors are the file's. -/
theorem loadCursorState_usable (usable : FileUsable lib file) :
    Program.Meets (usableContract lib file mode) (Program.Returns fun state _ => Usable lib state.1 ∧
      ∀ key, cursorAt file key = state.1.lookup key) [] loadCursorState := by
  apply Program.meets_ask trivial
  rintro (error | found) allowed
  · exact trivial
  have same := allowed rfl found rfl
  subst same
  cases found with
  | none =>
    refine ⟨usable_empty, ?_⟩
    intro key
    simp only [AList.lookup_empty]
    rfl
  | some state =>
    obtain ⟨version, boxes⟩ := state
    obtain ⟨rfl, boxes, rfl, entries⟩ := usable _ rfl
    change Program.Meets _ _ _ (checkState (some ⟨1, some boxes⟩))
    rw [checkState]
    split
    · exact ⟨entries, fun _ => rfl⟩
    · exact trivial

/-- The listed boxes, as far as the contract goes. -/
theorem listBoxes_usable (history : History) :
    Program.Meets (usableContract lib file mode) (Program.Returns fun boxes later => later ≠ [] ∧
      ∀ box ∈ boxes, box.id < 2 ^ 63 ∧ (mode = .initializing → cursorAt file box.key = none →
        ∀ cursor, lib.postingChangesCursorFrom box.postingChangesUrl = some cursor → Timed lib cursor))
      history listBoxes := by
  apply Program.Meets.mapFail_returns
  apply Program.meets_ask trivial
  rintro (error | found) allowed
  · exact trivial
  cases found with
  | none => exact trivial
  | some boxes => exact ⟨by simp, allowed boxes rfl⟩

/-! ## initialize -/

/-- The cursors are usable, and the file's are among them. -/
structure Filling (lib : GoLib) (file : Option CursorState) (cursors : Cursors) : Prop where
  usable : Usable lib cursors
  kept : ∀ key, cursors.lookup key = none → cursorAt file key = none

private theorem initializeBox_usable (filling : Filling lib file state.1) (bound : box.id < 2 ^ 63)
    (timed : cursorAt file box.key = none →
      ∀ cursor, lib.postingChangesCursorFrom box.postingChangesUrl = some cursor → Timed lib cursor) :
    Program.Meets (usableContract lib file mode) (Program.Returns fun next _ => Filling lib file next.1) history
      (initializeBox lib state box) := by
  unfold initializeBox
  apply meets_require _ trivial
  intro valid
  simp only [decide_eq_true_eq, not_or, Int.not_le] at valid
  split
  · exact filling
  rename_i absent
  split
  · exact trivial
  rename_i cursor read
  split
  · exact trivial
  rename_i since
  have absent : state.1.lookup box.key = none := Option.not_isSome_iff_eq_none.mp absent
  refine ⟨filling.usable.insert ⟨⟨box.id, valid.1, bound, rfl⟩, since, ?_⟩, ?_⟩
  · exact timed (filling.kept _ absent) cursor read
  · intro key missing
    have other : key ≠ box.key := by
      rintro rfl
      rw [AList.lookup_insert] at missing
      cases missing
    rw [AList.lookup_insert_ne other] at missing
    exact filling.kept key missing

private theorem saveIf_usable (usable : Usable lib boxes) (changed : Bool) (history : History) :
    Program.Meets (usableContract lib file mode) (Program.Returns fun _ _ => True) history (saveIf changed boxes) :=
  saveIf_meets (fun _ => trivial) (fun _ => usable) (fun _ => trivial) (fun _ _ => trivial) fun _ _ => trivial

private theorem initializeWatch_usable (usable : FileUsable lib file) :
    Program.Meets (usableContract lib file .initializing) (Program.Returns fun _ _ => True) [] (initializeWatch lib) := by
  apply (loadCursorState_usable usable).bind_returns
  rintro ⟨cursors, found⟩ history ⟨entries, same⟩
  apply (listBoxes_usable history).bind_returns
  rintro boxes later ⟨_, listed⟩
  have looped : Program.Meets (usableContract lib file .initializing) (Program.Returns fun next _ =>
      Filling lib file next.1) later (boxes.foldlM (initializeBox lib) (cursors, !found)) := by
    apply Program.meets_foldlM_returns fun _ (next : Cursors × Bool) _ => Filling lib file next.1
    · intro done box rest state later split filling
      have held : box ∈ boxes := by
        rw [split]
        exact List.mem_append_right _ List.mem_cons_self
      exact initializeBox_usable filling (listed box held).1 ((listed box held).2 rfl)
    · exact ⟨entries, fun key missing => (same key).trans missing⟩
  apply looped.bind_returns
  rintro ⟨next, changed⟩ later filling
  apply (saveIf_usable filling.usable changed later).bind_returns
  intro _ last _
  apply ((writeNDJSON_within lib (.obj readyFrame)).meets silent_usable).returns
  exact fun _ _ _ => trivial

/-! ## poll -/

/-- What the increments would write is usable. -/
def Advancing (lib : GoLib) (increments : List Increment) : Prop :=
  ∀ increment ∈ increments, ∀ next, increment.next = some next → UsableCursor lib increment.key next

private theorem Advancing.of_origin (advancing : Advancing lib increments)
    (origin : ∀ increment ∈ increments', ∃ old ∈ increments, ∃ pending, increment = { old with pending := pending }) :
    Advancing lib increments' := by
  intro increment held next named
  obtain ⟨old, inside, pending, rfl⟩ := origin increment held
  exact advancing old inside next named

private theorem readIncrement_usable (usable : Usable lib cursors) (box : Box) (history : History) :
    Program.Meets (usableContract lib file mode) (Program.Returns fun increment _ => Advancing lib [increment]) history
      (readIncrement lib cursors box) := by
  unfold readIncrement
  split
  · exact trivial
  rename_i cursor held
  split
  · exact trivial
  apply Program.meets_ask trivial
  rintro (error | found) allowed
  · exact trivial
  cases found with
  | none => exact trivial
  | some changes =>
    apply meets_require _ trivial
    intro _
    apply meets_require _ trivial
    intro _
    apply meets_require _ trivial
    intro since increment listed next named
    cases List.mem_singleton.mp listed
    have nonempty : next.since ≠ [] := of_decide_eq_true since next named
    exact ⟨(usable _ _ held).id, nonempty, allowed changes rfl next named⟩

private theorem readIncrements_usable (usable : Usable lib cursors) (boxes : List Box) (history : History) :
    Program.Meets (usableContract lib file mode) (Program.Returns fun increments _ => Advancing lib increments) history
      (readIncrements lib cursors boxes) := by
  apply Program.meets_foldlM_returns fun _ increments _ => Advancing lib increments
  · intro _ box _ increments later _ advancing
    apply (readIncrement_usable usable box later).bind_returns
    intro increment last read other held
    rcases List.mem_append.mp held with old | new
    · exact advancing other old
    · exact read other new
  · intro increment held
    cases held

/-- What the watch holds while it emits is usable. -/
structure Emitting (lib : GoLib) (progress : Progress) : Prop where
  increments : Advancing lib progress.increments
  cursors : Usable lib progress.cursors

/-- A box whose successor is usable may move to it. -/
theorem Emitting.settle (emitting : Emitting lib progress) (entry : Advancing lib [increment]) :
    Emitting lib (settle progress increment) := by
  unfold Sidecar.settle
  split
  · exact emitting
  · rename_i next reached
    refine ⟨emitting.increments, emitting.cursors.insert (entry increment (List.mem_singleton_self _) next ?_)⟩
    unfold Increment.reached at reached
    split at reached
    · exact reached
    · cases reached

/-- So may the box of an acknowledged event. -/
theorem Emitting.finishBox (emitting : Emitting lib progress) (key : Text) :
    Emitting lib (finishBox progress key) := by
  have adjusted : Advancing lib (adjust progress.increments key (-1)) :=
    emitting.increments.of_origin fun _ held => adjust_origin held
  have moved : Emitting lib { progress with increments := adjust progress.increments key (-1) } :=
    ⟨adjusted, emitting.cursors⟩
  simp only [Sidecar.finishBox]
  split
  · exact moved
  · rename_i increment found
    apply moved.settle
    intro other held
    cases List.mem_singleton.mp held
    exact adjusted increment (List.mem_reverse.mp (List.mem_of_find?_eq_some found))

private theorem Emitting.finishBoxes (emitting : Emitting lib progress) (boxes : List Text) :
    Emitting lib (boxes.foldl Sidecar.finishBox progress) := by
  induction boxes generalizing progress with
  | nil => exact emitting
  | cons key boxes ih => exact ih (emitting.finishBox key)

private theorem settleIdle_emitting (cursors : Usable lib gathered.cursors)
    (increments : Advancing lib gathered.increments) :
    Emitting lib (settleIdle gathered) := by
  have folded : ∀ (listed : List Increment) progress, Advancing lib listed → Emitting lib progress →
      Emitting lib (listed.foldl settle progress) := by
    intro listed
    induction listed with
    | nil => exact fun _ _ emitting => emitting
    | cons increment rest ih =>
      intro progress advancing emitting
      obtain ⟨first, others⟩ := List.forall_mem_cons.mp advancing
      apply ih _ others
      exact emitting.settle (List.forall_mem_singleton.mpr first)
  exact folded _ _ increments ⟨increments, cursors⟩

private theorem waitForAck_usable (eventID : Text) (history : History) :
    Program.Meets (usableContract lib file mode) (Program.Returns fun _ _ => True) history (waitForAck eventID) := by
  apply Program.meets_ask trivial
  rintro (error | line) _
  · exact trivial
  cases line with
  | none => exact trivial
  | some ack =>
    change Program.Meets _ _ _ (require (decide (ack = eventID)) "invalid ack")
    cases decide (ack = eventID) <;> exact trivial

private theorem emit_usable (emitting : Emitting lib progress) (item : PendingEvent) (history : History) :
    Program.Meets (usableContract lib file mode) (Program.Returns fun next _ => Emitting lib next) history
      (emit lib progress item) := by
  have written : Program.Meets (usableContract lib file mode) (Program.Returns fun _ _ => True) history
      (writeNDJSON lib (.obj (eventFrame item.event))) :=
    ((writeNDJSON_within lib _).meets silent_usable).returns fun _ _ _ => trivial
  apply written.bind_returns
  intro _ later _
  apply (waitForAck_usable item.event.eventID later).bind_returns
  intro _ later _
  have restarted : Emitting lib { progress with stateChanged := false } := ⟨emitting.increments, emitting.cursors⟩
  have finished := restarted.finishBoxes item.boxes
  apply (saveIf_usable finished.cursors _ later).bind_returns
  exact fun _ _ _ => finished

private theorem poll_usable (usable : FileUsable lib file) (ownEmail : Text) :
    Program.Meets (usableContract lib file mode) (Program.Returns fun _ _ => True) [] (poll lib ownEmail) := by
  have gathering : Program.Meets (usableContract lib file mode) (Program.Returns fun gathered _ =>
      Usable lib gathered.cursors ∧ Advancing lib gathered.increments) [] (gather lib ownEmail) := by
    apply (loadCursorState_usable usable).bind_returns
    rintro ⟨cursors, found⟩ history ⟨entries, _⟩
    apply meets_require _ trivial
    rintro rfl
    apply (listBoxes_usable history).bind_returns
    rintro listed later _
    apply (readIncrements_usable entries _ later).bind_returns
    intro increments later advancing
    have hydrating : Program.Meets (usableContract lib file mode) (Program.Returns fun _ _ => True) later
        (hydrateIncrements lib ownEmail increments) := by
      have within := hydrateIncrements_within read_gathering (fun _ _ => trivial) lib ownEmail increments
      apply (within.meets ?_).returns fun _ _ _ => trivial
      intro history request gathering
      cases request with
      | saveCursors => exact absurd gathering id
      | _ => exact trivial
    apply hydrating.bind_returns
    intro items last _
    exact ⟨entries, advancing.of_origin fun _ held => countPending_origin held⟩
  apply gathering.bind_returns
  rintro gathered later ⟨cursors, advancing⟩
  have emitting := settleIdle_emitting cursors advancing
  apply (saveIf_usable emitting.cursors _ later).bind_returns
  intro _ later _
  have emitted : Program.Meets (usableContract lib file mode) (Program.Returns fun next _ => Emitting lib next) later
      (gathered.pending.foldlM (emit lib) (settleIdle gathered)) := by
    apply Program.meets_foldlM_returns fun _ progress _ => Emitting lib progress
    · intro _ item _ progress history _ emitting
      exact emit_usable emitting item history
    · exact emitting
  apply emitted.bind_returns
  exact fun _ _ _ => trivial

end

/-! ## The file between the calls -/

private theorem attempted_usable (attempted : Attempted lib ownEmail file call next)
    (supplied : Supplied lib file call)
    (usable : FileUsable lib file) :
    (∀ boxes answer, ⟨.saveCursors boxes, answer⟩ ∈ call.trace → Usable lib boxes) ∧ FileUsable lib next := by
  have meets : Program.Meets (usableContract lib file call.mode) (Program.Returns fun _ _ => True) []
      (call.mode.program lib ownEmail) := by
    cases mode : call.mode with
    | initializing => exact initializeWatch_usable usable
    | polling => exact poll_usable usable ownEmail
  obtain ⟨_, kept⟩ := meets.run attempted.ran (supplied_allowed attempted supplied)
  have saved : ∀ boxes answer, ⟨.saveCursors boxes, answer⟩ ∈ call.trace → Usable lib boxes := by
    intro boxes answer held
    obtain ⟨before, after, split⟩ := List.append_of_mem held
    exact kept before _ after split
  refine ⟨saved, ?_⟩
  rw [attempted.writes]
  rcases persisted_cases file call.trace with same | ⟨before, boxes, answer, after, split, written⟩
  · rwa [same]
  · rw [written]
    rintro _ ⟨⟩
    refine ⟨rfl, boxes, rfl, saved boxes answer ?_⟩
    rw [split]
    exact List.mem_append_right _ List.mem_cons_self

private theorem parseInt_decimalInt (positive : 0 < n) (bound : n < 2 ^ 63) : parseInt (decimalInt n) = some n := by
  obtain ⟨k, rfl⟩ : ∃ k : Nat, n = k := ⟨n.toNat, by omega⟩
  obtain ⟨digit, rest, front, digits, _⟩ := decimal_head (n := k) (by omega)
  have all : (decimal k).all CodePoint.isDigit = true := List.all_eq_true.mpr fun _ => decimal_isDigit
  have read : parseDigits (decimal k) = some k := by
    rw [parseDigits, if_pos ⟨decimal_ne_nil, all⟩, digitsValue_decimal]
  have unsigned : digit ≠ '-' ∧ digit ≠ '+' := by
    constructor <;>
    · rintro rfl
      exact absurd digits (by decide)
  change parseInt (decimal k) = some (k : Int)
  rw [front] at read ⊢
  unfold parseInt
  split
  · rename_i same
    exact absurd (CodePoint.scalar.inj (List.cons.inj same).1) unsigned.1
  · rename_i same
    exact absurd (CodePoint.scalar.inj (List.cons.inj same).1) unsigned.2
  · simp [read]
    omega

/-- The next poll accepts a usable file, and can parse each of its times. -/
def Accepts (lib : GoLib) (file : Option CursorState) : Prop :=
  ∃ cursors found, checkState file = pure (cursors, found) ∧
    ∀ box, readIncrement lib cursors box ≠ .fail (.plain (text "cursor state has invalid timestamp"))

/-- A file of usable cursors is accepted by the next poll. -/
theorem FileUsable.accepts (usable : FileUsable lib file) : Accepts lib file := by
  have parses : ∀ {cursors}, Usable lib cursors → ∀ box,
      readIncrement lib cursors box ≠ .fail (.plain (text "cursor state has invalid timestamp")) := by
    intro cursors entries box
    unfold readIncrement
    split
    · exact fun same => absurd (GoError.plain.inj (Program.fail.inj same)) (by decide)
    · rename_i cursor held
      obtain ⟨since, parsed⟩ := Option.isSome_iff_exists.mp (entries _ _ held).timed
      rw [parsed]
      exact nofun
  cases file with
  | none => exact ⟨∅, false, rfl, parses usable_empty⟩
  | some state =>
    obtain ⟨version, boxes⟩ := state
    obtain ⟨rfl, boxes, rfl, entries⟩ := usable _ rfl
    have valid : (boxes.entries.all fun entry => validBox entry.1 entry.2) = true := by
      rw [List.all_eq_true]
      rintro ⟨key, cursor⟩ held
      obtain ⟨⟨id, positive, bound, rfl⟩, since, _⟩ := entries key cursor (AList.mem_lookup_iff.mpr held)
      simp [validBox, parseInt_decimalInt positive bound, positive, since]
    refine ⟨boxes, true, ?_, parses entries⟩
    rw [checkState, if_pos ⟨rfl, valid⟩]

/-! ## Small runs -/

/-- The first call: it finds the box and writes its cursor. -/
def firstCall : WatchCall where
  mode := .initializing
  trace := [⟨.loadCursors, Except.ok none⟩, ⟨.listBoxes, Except.ok (some [sampleBox])⟩,
    ⟨.saveCursors sampleCursors, .saved⟩, sampleWrite readyFrame]
  outcome := .ok ()

private theorem firstCall_attempted : Attempted sampleLib (text "me@example.com") none firstCall sampleFile where
  ran := .cons .answered (.cons .answered (.cons .answered (.cons .answered .nil)))
  reads := by
    apply reads_first
    simp [sampleWrite]
  writes := rfl
  ids := by
    intro boxes listed
    simp only [firstCall, sampleWrite, List.mem_cons] at listed
    rcases listed with same | same | same | same | same
    · cases same
    · cases same
      rw [List.forall_mem_singleton]
      decide
    all_goals cases same

private theorem firstCall_supplied : Supplied sampleLib none firstCall where
  boxes := by
    intro _ boxes _ box _ _ cursor read
    cases read
    exact rfl
  changes := by
    intro box cursor changes held
    simp only [firstCall, sampleWrite, List.mem_cons] at held
    rcases held with same | same | same | same | same <;> cases same

/-- In a run of calls from an absent file in which the server's times can be parsed, all that is saved is
usable, and so is the file: the next poll accepts it. -/
theorem cursors_stay_usable (ran : Run (Attempted lib ownEmail) none calls last)
    (met : Run.Throughout (Attempted lib ownEmail) (Supplied lib) none calls last) :
    (∀ call ∈ calls, ∀ boxes answer, ⟨.saveCursors boxes, answer⟩ ∈ call.trace → Usable lib boxes) ∧
      FileUsable lib last ∧ Accepts lib last := by
  have start : FileUsable lib none := fun _ same => nomatch same
  have stays : ∀ {file calls last}, Run (Attempted lib ownEmail) file calls last →
      Run.Throughout (Attempted lib ownEmail) (Supplied lib) file calls last → FileUsable lib file →
      (∀ call ∈ calls, ∀ boxes answer, ⟨.saveCursors boxes, answer⟩ ∈ call.trace → Usable lib boxes) ∧
        FileUsable lib last := by
    intro file calls last ran met usable
    induction ran with
    | nil => exact ⟨by simp, usable⟩
    | cons taken rest ih =>
      obtain ⟨saved, next⟩ := attempted_usable taken (met.head taken rest) usable
      obtain ⟨later, last⟩ := ih (met.tail taken) next
      exact ⟨List.forall_mem_cons.mpr ⟨saved, later⟩, last⟩
  obtain ⟨saved, usable⟩ := stays ran met start
  exact ⟨saved, usable, usable.accepts⟩

theorem cursors_stay_usable_sample : Accepts sampleLib sampleFile := by
  have single : ∀ {file call next}, Attempted sampleLib (text "me@example.com") file call next →
      Supplied sampleLib file call → Run (Attempted sampleLib (text "me@example.com")) file [call] next ∧
        Run.Throughout (Attempted sampleLib (text "me@example.com")) (Supplied sampleLib) file [call] next := by
    intro file call next taken supplied
    refine Run.throughout_cons ?_ taken supplied Run.throughout_nil
    intro file call next next' first second
    rw [first.writes, second.writes]
  obtain ⟨ran, met⟩ := single firstCall_attempted firstCall_supplied
  exact (cursors_stay_usable ran met).2.2

/-- A next cursor whose time is none. -/
def garbled : Cursor := ⟨text "yesterday", text "1"⟩

def garbledCursors : Cursors := sampleCursors.insert (text "11") garbled

/-- A poll that ends well, and writes that cursor. -/
def garbledPoll : WatchCall where
  mode := .polling
  trace := sampleListing ++ [⟨.allChanges 11 sampleCursor, Except.ok (some ⟨[], [], [], some garbled, false⟩)⟩,
    ⟨.saveCursors garbledCursors, .saved⟩]
  outcome := .ok ()

/-- The poll after it. -/
def stuckPoll : WatchCall where
  mode := .polling
  trace := [⟨.loadCursors, Except.ok (some ⟨1, some garbledCursors⟩)⟩, ⟨.listBoxes, Except.ok (some [sampleBox])⟩]
  outcome := .error (.plain (text "cursor state has invalid timestamp"))

private theorem garbledPoll_attempted :
    Attempted sampleLib (text "me@example.com") sampleFile garbledPoll (some ⟨1, some garbledCursors⟩) where
  ran := .cons .answered (.cons .answered (.cons .answered (.cons .answered .nil)))
  reads := by
    apply reads_first
    simp
  writes := rfl
  ids := by
    intro boxes listed
    simp only [garbledPoll, sampleListing, List.cons_append, List.nil_append, List.mem_cons] at listed
    rcases listed with same | same | same | same | same
    · cases same
    · cases same
      rw [List.forall_mem_singleton]
      decide
    all_goals cases same

private theorem stuckPoll_attempted :
    Attempted sampleLib (text "me@example.com") (some ⟨1, some garbledCursors⟩) stuckPoll (some ⟨1, some garbledCursors⟩) where
  ran := .cons .answered (.cons .answered .nil)
  reads := by
    apply reads_first
    simp
  writes := rfl
  ids := by
    intro boxes listed
    simp only [stuckPoll, List.mem_cons] at listed
    rcases listed with same | same | same
    · cases same
    · cases same
      rw [List.forall_mem_singleton]
      decide
    · cases same

/-- A successful poll writes a cursor that stops every later poll. -/
theorem next_poll_stuck :
    Run (Attempted sampleLib (text "me@example.com")) none [firstCall, garbledPoll] (some ⟨1, some garbledCursors⟩) ∧
      garbledPoll.outcome = .ok () ∧ ¬ Timed sampleLib garbled ∧
      Attempted sampleLib (text "me@example.com") (some ⟨1, some garbledCursors⟩) stuckPoll
        (some ⟨1, some garbledCursors⟩) ∧
      stuckPoll.outcome = .error (.plain (text "cursor state has invalid timestamp")) :=
  ⟨.cons firstCall_attempted (.cons garbledPoll_attempted .nil), rfl, Bool.false_ne_true, stuckPoll_attempted, rfl⟩

end HermesHey.Sidecar
