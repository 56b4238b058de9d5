import HermesHey.Watch
import HermesHey.Library.AtomicFile
import HermesHey.Library.GoMap

/-! The cursor file of `sidecar/cursor.go` on the disk: what `saveCursorState` leaves of it when calls
fail, when the process is killed and when the machine stops, and what `loadCursorState` makes of that. -/
namespace HermesHey.CursorFile
open Library HermesHey.Sidecar
open Library.Json (Scalars scalars_text)
open Library.GoJson (Bytes Value finds storeInt64 storeMap marshalMembers decodeStruct readValue TextOf goValue)
open Library.AtomicFile (Disk Platform Stage Fair)

/-! ## The document -/

/-- What `encoding/json` makes of `hey.PostingChangesCursor`, a type of the SDK. -/
structure CursorCodec where
  marshal : Cursor → Json.Value
  /-- Into a zero cursor. -/
  unmarshal : Value → Option Cursor

/-- The strings are valid UTF-8. -/
def Clean (cursor : Cursor) : Prop := Scalars cursor.since ∧ Scalars cursor.version

/-- A cursor is a small document, and is read back. -/
structure CursorCodec.Standard (codec : CursorCodec) : Prop where
  plain : ∀ cursor, Json.Plain (codec.marshal cursor)
  writable : ∀ cursor, Clean cursor → Json.Writable (codec.marshal cursor)
  shallow : ∀ cursor, GoJson.depth (codec.marshal cursor) ≤ 100
  unmarshal : ∀ cursor, Clean cursor → codec.unmarshal (goValue (codec.marshal cursor)) = some cursor

def maxStateBytes : ℕ := 1048576

variable (codec : CursorCodec)

/-- `cursorState` as `Marshal` writes it. -/
def document (version : Int) (boxes : Cursors) : Json.Value :=
  .obj [(text "version", .int version), (text "boxes", .obj (marshalMembers codec.marshal boxes))]

def encode (version : Int) (boxes : Cursors) : Bytes := (GoJson.marshal (document codec version boxes)).utf8

def newCursorState : CursorState := ⟨1, some ∅⟩

/-- One member of the file. `DisallowUnknownFields` is set. -/
def storeState (state : CursorState) (member : Text × Value) : Option CursorState :=
  if finds "version" member.1 then (storeInt64 state.version member.2).map fun version => { state with version }
  else if finds "boxes" member.1 then (storeMap codec.unmarshal state.boxes member.2).map fun boxes => { state with boxes }
  else none

/-- The state is decoded over a new one, and nothing may follow it. -/
def decode (data : Bytes) : Option CursorState :=
  if maxStateBytes < data.length then none
  else
    match readValue data with
    | .error _ => none
    | .ok (value, rest) =>
      match decodeStruct (storeState codec) newCursorState value, readValue rest with
      | some state, .error .eof => some state
      | _, _ => none

/-- What `loadCursorState` opens and decodes. -/
def openFile : Option Bytes → Except GoError (Option CursorState)
  | none => .ok none
  | some data =>
    match decode codec data with
    | none => .error invalidState
    | some state => .ok (some state)

/-! ## The save -/

/-- The labels of the errors of `saveCursorState`. -/
def stageLabel : Stage → Text
  | .directory => text "create cursor directory"
  | .create => text "create cursor temp file"
  | .secure => text "secure cursor temp file"
  | .write => text "write cursor state"
  | .sync => text "sync cursor state"
  | .close => text "close cursor state"
  | .replace => text "replace cursor state"
  | .syncDirectory => text "sync cursor directory"

abbrev Save := AtomicFile.Code Foreign GoError Unit

/-- `saveCursorState` -/
def saveState (platform : Platform) (path : Text) (state : CursorState) : Save :=
  match state.boxes with
  | none => .fail invalidState
  | some boxes =>
    if path = [] ∨ state.version ≠ 1 then .fail invalidState
    else if maxStateBytes < (encode codec state.version boxes).length then .fail (.plain (text "cursor state too large"))
    else AtomicFile.save (fun stage error => .wrap (stageLabel stage) error) platform (encode codec state.version boxes)

/-! ## What happens to the file -/

variable (platform : Platform) (path : Text)

/-- The next save makes a temporary file of its own. -/
def leave (disk : Disk) : Disk := { disk with temporary := none }

/-- The disk after the machine has stopped. -/
def settle (left : Option Bytes) : Disk := ⟨left.map (⟨·, true⟩), none, left⟩

/-- A part of a save of cursors, the last call answered or the whole of it. -/
structure Saves (boxes : Cursors) (trace : Program.History (AtomicFile.Answer Foreign)) (rest : Save) : Prop where
  ran : Run Program.Step (saveState codec platform path ⟨1, some boxes⟩) trace rest
  fair : ∀ event ∈ trace, Fair event.1 event.2

/-- A call of the watch, on the disk. -/
inductive Performs : Disk → Sigma Answer → Disk → Prop where
  | loads : Performs disk ⟨.loadCursors, openFile codec disk.current⟩ disk
  | unread (error : GoError) : Performs disk ⟨.loadCursors, .error error⟩ disk
  | saved (saves : Saves codec platform path boxes trace (.pure ())) :
      Performs disk ⟨.saveCursors boxes, .saved⟩ (leave (disk.since platform trace))
  | failedBefore (saves : Saves codec platform path boxes trace (.fail error))
      (kept : (disk.since platform trace).target = disk.target) :
      Performs disk ⟨.saveCursors boxes, .failedBefore error⟩ (leave (disk.since platform trace))
  | failedAfter (saves : Saves codec platform path boxes trace (.fail error))
      (moved : (disk.since platform trace).target ≠ disk.target) :
      Performs disk ⟨.saveCursors boxes, .failedAfter error⟩ (leave (disk.since platform trace))

inductive Happening where
  | call (event : Sigma Answer)
  /-- The process ends in a save. -/
  | killed (boxes : Cursors)
  /-- The machine stops, in a save or outside of any. -/
  | stopped (saving : Option Cursors)

inductive Happens : Disk → Happening → Disk → Prop where
  | call (performs : Performs codec platform path disk event next) : Happens disk (.call event) next
  | killed (saves : Saves codec platform path boxes trace rest) :
      Happens disk (.killed boxes) (leave (disk.since platform trace))
  | stopped (saves : Saves codec platform path boxes trace rest) (survives : (disk.since platform trace).Survives left) :
      Happens disk (.stopped (some boxes)) (settle left)
  | idle (survives : disk.Survives left) : Happens disk (.stopped none) (settle left)

/-- The cursors that may be found next: those of the last save that succeeded, and those of any
later save that was begun and did not fail before the replacement. -/
def remember (known : List (Option Cursors)) : Happening → List (Option Cursors)
  | .call ⟨.saveCursors boxes, .saved⟩ => [some boxes]
  | .call ⟨.saveCursors boxes, .failedAfter _⟩ | .killed boxes | .stopped (some boxes) => some boxes :: known
  | _ => known

/-- The cursors that a happening writes. -/
def Happening.boxes : Happening → Option Cursors
  | .call ⟨.saveCursors boxes, _⟩ | .killed boxes => some boxes
  | .stopped saving => saving
  | _ => none

/-- The file holds these cursors, or there is none. -/
def Holds : Option CursorState → Option Cursors → Prop
  | none, none => True
  | some ⟨1, some found⟩, some boxes => ∀ key, found.lookup key = boxes.lookup key
  | _, _ => False

/-- What the file is read as is among the known. -/
def Found (known : List (Option Cursors)) (left : Option Bytes) : Prop :=
  ∃ found, openFile codec left = .ok found ∧ ∃ cursors ∈ known, Holds found cursors

/-! ## What is written is read back -/

section
variable {codec : CursorCodec} {platform : Platform} {path : Text} {boxes : Cursors}

/-- The keys and the cursors of the boxes are valid UTF-8. -/
def CleanBoxes (boxes : Cursors) : Prop := ∀ entry ∈ boxes.entries, Scalars entry.1 ∧ Clean entry.2

private theorem membersDepth_le {members : Json.Members} (shallow : ∀ member ∈ members, GoJson.depth member.2 ≤ n) :
    GoJson.membersDepth members ≤ n := by
  induction members with
  | nil => exact Nat.zero_le _
  | cons member rest ih =>
    obtain ⟨first, others⟩ := List.forall_mem_cons.mp shallow
    exact max_le first (ih others)

private theorem document_written (standard : codec.Standard) (clean : CleanBoxes boxes) :
    TextOf (encode codec 1 boxes) (goValue (document codec 1 boxes)) := by
  have perm := List.perm_insertionSort (fun a b : Sigma fun _ : Text => Cursor => Text.le a.1 b.1) boxes.entries
  have each : ∀ member ∈ marshalMembers codec.marshal boxes,
      ∃ entry ∈ boxes.entries, member = (entry.1, codec.marshal entry.2) := by
    intro member held
    obtain ⟨entry, inside, rfl⟩ := List.mem_map.mp held
    exact ⟨entry, perm.subset inside, rfl⟩
  have names : ((marshalMembers codec.marshal boxes).map Prod.fst).Nodup := by
    rw [marshalMembers, List.map_map]
    exact (List.perm_nodupKeys perm).mpr boxes.nodupKeys
  have plain : Json.Plain (document codec 1 boxes) := by
    refine ⟨(by decide : [text "version", text "boxes"].Nodup), trivial, ⟨names, Json.plainMembers_iff.mpr ?_⟩, trivial⟩
    intro member held
    obtain ⟨entry, _, rfl⟩ := each member held
    exact standard.plain _
  have writable : Json.Writable (document codec 1 boxes) := by
    refine ⟨scalars_text _, trivial, scalars_text _, Json.writableMembers_iff.mpr ?_, trivial⟩
    intro member held
    obtain ⟨entry, inside, rfl⟩ := each member held
    exact ⟨(clean entry inside).1, standard.writable _ (clean entry inside).2⟩
  have shallow : GoJson.membersDepth (marshalMembers codec.marshal boxes) ≤ 100 := by
    refine membersDepth_le fun member held => ?_
    obtain ⟨entry, _, rfl⟩ := each member held
    exact standard.shallow _
  have depth : GoJson.depth (document codec 1 boxes) ≤ GoJson.maxNestingDepth := by
    simp only [document, GoJson.depth, GoJson.membersDepth, GoJson.maxNestingDepth]
    omega
  have written := GoJson.textOf_write GoJson.marshalStyle plain writable depth (List.forall_mem_nil _)
  rwa [List.append_nil] at written

/-- Of what `saveCursorState` writes, `loadCursorState` makes the same cursors. -/
theorem decode_encode (standard : codec.Standard) (clean : CleanBoxes boxes)
    (fits : (encode codec 1 boxes).length ≤ maxStateBytes) :
    ∃ found, decode codec (encode codec 1 boxes) = some ⟨1, some found⟩ ∧ ∀ key, found.lookup key = boxes.lookup key := by
  obtain ⟨rest, read, blank⟩ := GoJson.readValue_blank.mpr (document_written standard clean)
  obtain ⟨found, stored, same⟩ := GoJson.storeMap_marshal boxes
    fun entry held => standard.unmarshal _ (clean entry held).2
  refine ⟨found, ?_, same⟩
  have version : storeState codec newCursorState (text "version", GoJson.integer 1) = some newCursorState := by
    rw [storeState, if_pos (by decide), GoJson.storeInt64_integer (by decide) (by decide)]
    rfl
  have members : storeState codec newCursorState (text "boxes", goValue (.obj (marshalMembers codec.marshal boxes))) =
      some ⟨1, some found⟩ := by
    have names : finds "version" (text "boxes") = false ∧ finds "boxes" (text "boxes") = true := by decide
    rw [storeState, names.1, names.2, newCursorState, stored]
    rfl
  have state : decodeStruct (storeState codec) newCursorState (goValue (document codec 1 boxes)) = some ⟨1, some found⟩ := by
    change (storeState codec newCursorState (text "version", GoJson.integer 1)).bind
      (fun state => (storeState codec state (text "boxes", goValue (.obj (marshalMembers codec.marshal boxes)))).bind some) = _
    rw [version, Option.bind_some, members]
    rfl
  rw [decode, if_neg (Nat.not_lt.mpr fits), read]
  simp only [state, GoJson.readValue_eof.mpr blank]

/-! ## What a save leaves -/

variable {trace : Program.History (AtomicFile.Answer Foreign)} {disk : Disk}

private theorem saves_cases (saves : Saves codec platform path boxes trace rest) :
    (trace = [] ∧ rest ≠ .pure ()) ∨
      (encode codec 1 boxes).length ≤ maxStateBytes ∧ ∃ label : Stage → Foreign → GoError,
        Run Program.Step (AtomicFile.save label platform (encode codec 1 boxes)) trace rest := by
  have ran := saves.ran
  have refused : ∀ error, Run Program.Step (.fail error : Save) trace rest → trace = [] ∧ rest ≠ .pure () := by
    intro error ran
    cases ran with
    | nil => exact ⟨rfl, nofun⟩
    | cons taken _ => cases taken
  rw [saveState] at ran
  dsimp only at ran
  split at ran
  · exact .inl (refused _ ran)
  · split at ran
    · exact .inl (refused _ ran)
    · exact .inr ⟨Nat.not_lt.mp ‹_›, _, ran⟩

private theorem saves_safe (clear : disk.temporary = none) (saves : Saves codec platform path boxes trace rest) :
    disk.since platform trace = disk ∨
      (encode codec 1 boxes).length ≤ maxStateBytes ∧ disk.Safe (encode codec 1 boxes) (disk.since platform trace) := by
  rcases saves_cases saves with ⟨rfl, _⟩ | ⟨fits, label, ran⟩
  · exact .inl rfl
  · exact .inr ⟨fits, AtomicFile.save_safe clear ran saves.fair⟩

private theorem saves_done (clear : disk.temporary = none)
    (saves : Saves codec platform path boxes trace (.pure ())) :
    (encode codec 1 boxes).length ≤ maxStateBytes ∧
      disk.since platform trace = ⟨some ⟨encode codec 1 boxes, true⟩, none, some (encode codec 1 boxes)⟩ := by
  rcases saves_cases saves with ⟨_, failed⟩ | ⟨fits, label, ran⟩
  · exact absurd rfl failed
  · have ended : AtomicFile.Ended platform disk (encode codec 1 boxes) (.ok ()) trace :=
      AtomicFile.save_ended clear ran saves.fair
    exact ⟨fits, ended⟩

/-- The file and what it may fall back to are among the known cursors. -/
structure Stands (codec : CursorCodec) (known : List (Option Cursors)) (disk : Disk) : Prop where
  steady : disk.Steady
  clear : disk.temporary = none
  current : Found codec known disk.current
  settled : Found codec known disk.settled

private theorem Found.more (found : Found codec known left) (more : known ⊆ wider) : Found codec wider left := by
  obtain ⟨state, opened, cursors, held, same⟩ := found
  exact ⟨state, opened, cursors, more held, same⟩

private theorem found_encode (standard : codec.Standard) (clean : CleanBoxes boxes)
    (fits : (encode codec 1 boxes).length ≤ maxStateBytes) (held : some boxes ∈ known) :
    Found codec known (some (encode codec 1 boxes)) := by
  obtain ⟨found, decoded, same⟩ := decode_encode standard clean fits
  refine ⟨some ⟨1, some found⟩, ?_, some boxes, held, same⟩
  rw [openFile, decoded]

private theorem Stands.survivor (stands : Stands codec known disk) (survives : disk.Survives left) :
    Found codec known left := by
  rcases stands.steady.survives survives with rfl | rfl
  · exact stands.settled
  · exact stands.current

private theorem survives_leave (survives : disk.Survives left) : (leave disk).Survives left := by
  cases survives with
  | settled => exact .settled
  | target held => exact .target held
  | torn held left => exact .torn (show (leave disk).target = _ from held) left

private theorem Stands.settle (found : Found codec known left) : Stands codec known (settle left) where
  steady := by
    intro held same
    obtain ⟨bytes, _, rfl⟩ := Option.map_eq_some_iff.mp same
    rfl
  clear := rfl
  current := by
    have same : (CursorFile.settle left).current = left := by cases left <;> rfl
    exact same.symm ▸ found
  settled := found

private theorem Stands.saving (standard : codec.Standard) (clean : CleanBoxes boxes)
    (stands : Stands codec known disk)
    (saves : Saves codec platform path boxes trace rest) : Stands codec (some boxes :: known) (leave (disk.since platform trace)) := by
  rcases saves_safe stands.clear saves with same | ⟨fits, safe⟩
  · rw [same]
    exact ⟨stands.steady, rfl, stands.current.more (List.subset_cons_self _ _), stands.settled.more (List.subset_cons_self _ _)⟩
  · have written := found_encode standard clean fits (List.mem_cons_self (a := some boxes) (l := known))
    refine ⟨safe.steady stands.steady, rfl, ?_, ?_⟩
    · rcases safe.current with same | same
      · exact (show (leave _).current = _ from same) ▸ stands.current.more (List.subset_cons_self _ _)
      · exact (show (leave _).current = _ from same) ▸ written
    · rcases safe.settled with same | same
      · exact (show (leave _).settled = _ from same) ▸ stands.settled.more (List.subset_cons_self _ _)
      · exact (show (leave _).settled = _ from same) ▸ written

private theorem Stands.happens (standard : codec.Standard) (stands : Stands codec known disk)
    (happens : Happens codec platform path disk happening next)
    (clean : ∀ boxes, happening.boxes = some boxes → CleanBoxes boxes) : Stands codec (remember known happening) next := by
  -- one happening: the cases are those of the relation
  cases happens with
  | killed saves => exact stands.saving standard (clean _ rfl) saves
  | stopped saves survives =>
    exact Stands.settle ((stands.saving standard (clean _ rfl) saves).survivor (survives_leave survives))
  | idle survives => exact Stands.settle (stands.survivor survives)
  | call performs =>
    cases performs with
    | loads => exact stands
    | unread error => exact stands
    | saved saves =>
      obtain ⟨fits, done⟩ := saves_done stands.clear saves
      have written := found_encode standard (clean _ rfl) fits (List.mem_singleton_self _)
      rw [done]
      exact ⟨fun held same => by cases same; rfl, rfl, written, written⟩
    | failedAfter saves moved => exact stands.saving standard (clean _ rfl) saves
    | failedBefore saves kept =>
      rename_i boxes trace error
      have current : (disk.since platform trace).current = disk.current := congrArg (Option.map _) kept
      rcases saves_safe stands.clear saves with same | ⟨fits, safe⟩
      · rw [same]
        exact ⟨stands.steady, rfl, stands.current, stands.settled⟩
      · refine ⟨safe.steady stands.steady, rfl, (show (leave _).current = _ from current) ▸ stands.current, ?_⟩
        rcases safe with ⟨_, same⟩ | ⟨placed, same | same⟩
        · exact (show (leave _).settled = _ from same) ▸ stands.settled
        · exact (show (leave _).settled = _ from same) ▸ stands.settled
        · have whole : (disk.since platform trace).settled = disk.current := by
            rw [same, ← current, AtomicFile.Disk.current, placed]
            rfl
          exact (show (leave _).settled = _ from whole) ▸ stands.current

private theorem Stands.run (standard : codec.Standard) (ran : Run (Happens codec platform path) start happenings disk)
    (clean : ∀ happening ∈ happenings, ∀ boxes, happening.boxes = some boxes → CleanBoxes boxes)
    (stands : Stands codec known start) : Stands codec (happenings.foldl remember known) disk := by
  induction ran generalizing known with
  | nil => exact stands
  | cons happens _ ih =>
    obtain ⟨first, others⟩ := List.forall_mem_cons.mp clean
    exact ih others (stands.happens standard happens first)

/-- `loadCursorState` takes the cursors that it reads. -/
def Taken (found : Option CursorState) (cursors : Option Cursors) : Prop :=
  ∃ boxes, checkState found = .pure (boxes, cursors.isSome) ∧ ∀ key, boxes.lookup key = (cursors.getD ∅).lookup key

def ValidBoxes (cursors : Option Cursors) : Prop :=
  ∀ key cursor, (cursors.getD ∅).lookup key = some cursor → validBox key cursor = true

private theorem Holds.taken (holds : Holds found cursors) (valid : ValidBoxes cursors) : Taken found cursors := by
  unfold Holds at holds
  split at holds
  · exact ⟨∅, rfl, fun _ => rfl⟩
  · rename_i boxes saved
    refine ⟨boxes, if_pos ⟨rfl, ?_⟩, holds⟩
    refine List.all_eq_true.mpr fun entry held => valid entry.1 entry.2 ?_
    rw [Option.getD_some, ← holds entry.1]
    exact AList.mem_lookup_iff.mpr held
  · exact holds.elim

private theorem saves_of_run (named : path ≠ []) (fits : (encode codec 1 boxes).length ≤ maxStateBytes)
    (ran : Run Program.Step (AtomicFile.save (fun stage error => .wrap (stageLabel stage) (.foreign error)) platform
      (encode codec 1 boxes)) trace rest) (fair : ∀ event ∈ trace, Fair event.1 event.2) :
    Saves codec platform path boxes trace rest := by
  refine ⟨?_, fair⟩
  rw [saveState]
  dsimp only
  rw [if_neg (by simp [named]), if_neg (Nat.not_lt.mpr fits)]
  exact ran

end

/-! ## An example -/

/-- A codec that writes both strings. -/
def sampleCodec : CursorCodec where
  marshal cursor := .obj [(text "since", .str cursor.since), (text "version", .str cursor.version)]
  unmarshal := decodeStruct (fun cursor member =>
    if finds "since" member.1 then (GoJson.storeString cursor.since member.2).map fun since => { cursor with since }
    else if finds "version" member.1 then (GoJson.storeString cursor.version member.2).map fun version => { cursor with version }
    else none) ⟨[], []⟩

private theorem sampleCodec_standard : sampleCodec.Standard where
  plain _ := ⟨(by decide : [text "since", text "version"].Nodup), trivial, trivial, trivial⟩
  writable _ clean := ⟨scalars_text _, clean.1, scalars_text _, clean.2, trivial⟩
  shallow _ := by simp [sampleCodec, GoJson.depth, GoJson.membersDepth]
  unmarshal _ _ := rfl

def firstBoxes : Cursors := AList.insert (text "11") ⟨text "2026-01-02T03:04:05.000Z", text "1"⟩ ∅

def secondBoxes : Cursors := AList.insert (text "11") ⟨text "2026-01-02T03:08:00.000Z", text "1"⟩ ∅

/-- A save up to the replacement, with no failure. -/
def placing (data : Bytes) : Program.History (AtomicFile.Answer Foreign) :=
  [⟨.ensureDirectory, (none : Option Foreign)⟩, ⟨.createTemporary, (none : Option Foreign)⟩, ⟨.chmod, (none : Option Foreign)⟩,
    ⟨.write data, (data.length, (none : Option Foreign))⟩, ⟨.sync, (none : Option Foreign)⟩, ⟨.close, (none : Option Foreign)⟩,
    ⟨.replace, AtomicFile.Replaced.done⟩]

/-- The rest of it. -/
def flushing : Program.History (AtomicFile.Answer Foreign) :=
  [⟨.openDirectory, (none : Option Foreign)⟩, ⟨.syncDirectory, (none : Option Foreign)⟩,
    ⟨.closeDirectory, (none : Option Foreign)⟩, ⟨.close, (none : Option Foreign)⟩]

private theorem smooth_run (label : Stage → Foreign → GoError) (data : Bytes) :
    Run Program.Step (AtomicFile.save label .posix data) (placing data ++ flushing) (.pure ()) :=
  .cons .answered (.cons .answered (.cons .answered (.cons .answered (.cons .answered (.cons .answered
    (.cons .answered (.cons .answered (.cons .answered (.cons .answered (.cons .answered .nil))))))))))

private theorem smooth_fair (data : Bytes) : ∀ event ∈ placing data ++ flushing, Fair event.1 event.2 := by
  simp [placing, flushing, Fair]

section
variable {codec : CursorCodec} {platform : Platform} {path : Text}

/-- **Whatever fails, is killed or stops, the cursors of the last save that succeeded are found again, or
those of a save that was begun after it.** -/
theorem cursors_outlive_crashes (standard : codec.Standard)
    (ran : Run (Happens codec platform path) ⟨none, none, none⟩ happenings disk)
    (clean : ∀ happening ∈ happenings, ∀ boxes, happening.boxes = some boxes → CleanBoxes boxes)
    (left : Option Bytes) (reached : left = disk.current ∨ disk.Survives left) :
    ∃ found cursors, openFile codec left = .ok found ∧ cursors ∈ happenings.foldl remember [none] ∧
      Holds found cursors ∧ (ValidBoxes cursors → Taken found cursors) := by
  have start : Stands codec [none] ⟨none, none, none⟩ :=
    ⟨nofun, rfl, ⟨none, rfl, none, List.mem_singleton_self _, trivial⟩, ⟨none, rfl, none, List.mem_singleton_self _, trivial⟩⟩
  have stands := start.run standard ran clean
  have found : Found codec (happenings.foldl remember [none]) left := by
    rcases reached with rfl | survives
    · exact stands.current
    · exact stands.survivor survives
  obtain ⟨state, opened, cursors, known, holds⟩ := found
  exact ⟨state, cursors, opened, known, holds, holds.taken⟩

theorem cursors_outlive_crashes_sample : ∃ found cursors,
    openFile sampleCodec (some (encode sampleCodec 1 firstBoxes)) = .ok found ∧ cursors ∈ [some secondBoxes, some firstBoxes] ∧
      Holds found cursors ∧ (ValidBoxes cursors → Taken found cursors) := by
  have first : Saves sampleCodec .posix (text "cursor.json") firstBoxes (placing (encode sampleCodec 1 firstBoxes) ++ flushing)
      (.pure ()) := saves_of_run (by decide) (by decide +kernel) (smooth_run _ _) (smooth_fair _)
  obtain ⟨rest, placed, _⟩ := (smooth_run (fun stage error => .wrap (stageLabel stage) (.foreign error))
    (encode sampleCodec 1 secondBoxes)).split
  have second : Saves sampleCodec .posix (text "cursor.json") secondBoxes (placing (encode sampleCodec 1 secondBoxes)) rest :=
    saves_of_run (by decide) (by decide +kernel) placed fun event held => smooth_fair _ event (List.mem_append_left _ held)
  have clean : ∀ happening ∈ [Happening.call ⟨.saveCursors firstBoxes, Saved.saved⟩, .stopped (some secondBoxes)],
      ∀ boxes, happening.boxes = some boxes → CleanBoxes boxes := by
    have each : ∀ happening ∈ [Happening.call ⟨.saveCursors firstBoxes, Saved.saved⟩, .stopped (some secondBoxes)],
        happening.boxes = some firstBoxes ∨ happening.boxes = some secondBoxes := by simp [Happening.boxes]
    intro happening held boxes written
    rcases each happening held with same | same
    · cases written.symm.trans same
      simp [CleanBoxes, firstBoxes, Clean]
    · cases written.symm.trans same
      simp [CleanBoxes, secondBoxes, Clean]
  have done := (saves_done (show (⟨none, none, none⟩ : Disk).temporary = none from rfl) first).2
  have saved : Happens sampleCodec .posix (text "cursor.json") ⟨none, none, none⟩ (.call ⟨.saveCursors firstBoxes, Saved.saved⟩)
      ⟨some ⟨encode sampleCodec 1 firstBoxes, true⟩, none, some (encode sampleCodec 1 firstBoxes)⟩ :=
    done ▸ .call (.saved first)
  exact cursors_outlive_crashes sampleCodec_standard (.cons saved (.cons (.stopped second .settled) .nil)) clean _ (.inl rfl)

end

end HermesHey.CursorFile
