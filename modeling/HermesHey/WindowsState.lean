import HermesHey.Library.Handles
import HermesHey.QueueAtomicity

/-! `windows_state.py`, and the queue's operations on it, one system call after another. Everything
is done through handles: the directory's is open during the whole transaction. -/
namespace HermesHey.WindowsState
open Library HermesHey.Core DurableQueue
open Posix (Bytes fileOf)

abbrev Handle := ℕ

/-- What a handle is expected to lead to. -/
inductive Place where
  | parent
  | state
  | temporary

inductive Call where
  /-- `Path.exists`, of the directory -/
  | parentExists
  | makeParent
  | openParent
  | openState
  | createTemporary
  | setPrivate (handle : Handle)
  | assertPrivate (handle : Handle) (directory : Bool)
  /-- `final_path`, compared with the canonical path of the place -/
  | finalPath (handle : Handle) (place : Place)
  | readFile (handle : Handle) (length : ℕ)
  | writeFile (handle : Handle) (chunk : Bytes)
  | flush (handle : Handle)
  /-- `SetFileInformationByHandle`, to the state's name in the directory -/
  | rename (handle parent : Handle)
  | delete (handle : Handle)
  | close (handle : Handle)

/-- What a call returns; `none` and `false` are exceptions. A state that is missing has no handle. -/
def Answer : Call → Type
  | .parentExists => Option Bool
  | .openParent | .createTemporary => Option Handle
  | .openState => Option (Option Handle)
  | .readFile _ _ => Option Bytes
  | .writeFile _ _ => Option ℕ
  | _ => Bool

abbrev History := Program.History Answer

abbrev Windows := Program Call Answer PyError

def ask (request : Call) : Windows (Answer request) := Program.ask request

/-- Raises unless the call was done, or the check holds. -/
def require (done : Bool) : Windows Unit := if done then pure () else .fail .storage

def setPrivate (handle : Handle) : Windows Unit := do
  let done ← ask (.setPrivate handle)
  require done

def assertPrivate (handle : Handle) (directory : Bool) : Windows Unit := do
  let held ← ask (.assertPrivate handle directory)
  require held

/-- `_assert_final_path` -/
def assertFinalPath (handle : Handle) (place : Place) : Windows Unit := do
  let same ← ask (.finalPath handle place)
  require same

def flush (handle : Handle) : Windows Unit := do
  let done ← ask (.flush handle)
  require done

def close (handle : Handle) : Windows Unit := do
  let done ← ask (.close handle)
  require done

/-! ## The transaction -/

def doUnless (done : Bool) (body : Windows Unit) : Windows Unit := if done then pure () else body

def makeParent : Windows Unit := do
  let made ← ask .makeParent
  require made

/-- The directory that was opened is private and where it is expected. -/
def checkParent (existed : Bool) (handle : Handle) : Windows Unit := do
  doUnless existed (setPrivate handle)
  assertPrivate handle true
  assertFinalPath handle .parent

def openParent (existed : Bool) : Windows Handle := do
  match ← ask .openParent with
  | none => .fail .storage
  | some handle =>
    match ← (checkParent existed handle).attempt with
    | .error e =>
      close handle
      .fail e
    | .ok () => return handle

/-- `__enter__`: the handle of the directory, if there is one. -/
def enter (create : Bool) : Windows (Option Handle) := do
  match ← ask .parentExists with
  | none => .fail .storage
  | some existed =>
    if existed = false ∧ create = false then return none
    else
      doUnless existed makeParent
      let handle ← openParent existed
      return some handle

/-- `__exit__` -/
def leave (parent : Option Handle) : Windows Unit :=
  match parent with
  | none => pure ()
  | some handle => close handle

/-- The body of a `with` block of `_windows_state_transaction`. -/
def transaction (create : Bool) (body : Option Handle → Windows α) : Windows α := do
  let parent ← enter create
  let outcome ← (body parent).attempt
  leave parent
  Program.lift outcome

/-- The bytes that one call of `ReadFile` or `WriteFile` is given. -/
def chunkBytes : ℕ := 65536

/-- The loop of `read`. -/
def readAll (handle : Handle) (remaining : ℕ) (chunks : Bytes) : Windows Bytes :=
  if remaining = 0 then return chunks
  else do
    match ← ask (.readFile handle (min remaining chunkBytes)) with
    | none => .fail .storage
    | some chunk => if chunk = [] then return chunks else readAll handle (remaining - chunk.length) (chunks ++ chunk)
termination_by remaining
decreasing_by
  rename_i held taken
  have := List.length_pos_of_ne_nil taken
  omega

/-- The file that was opened is private and where it is expected. -/
def readChecked (handle : Handle) (limit : ℕ) : Windows Bytes := do
  assertPrivate handle false
  assertFinalPath handle .state
  readAll handle limit []

/-- `read_state` -/
def readState (parent : Option Handle) (limit : ℕ) : Windows (Option Bytes) :=
  match parent with
  | none => return none
  | some _ => do
    match ← ask .openState with
    | none => .fail .storage
    | some none => return none
    | some (some handle) =>
      let read ← (readChecked handle limit).attempt
      close handle
      Program.lift (read.map some)

/-- `write_through` -/
def writeThrough (handle : Handle) (remaining : Bytes) : Windows Unit :=
  if remaining = [] then flush handle
  else do
    match ← ask (.writeFile handle (remaining.take chunkBytes)) with
    | none => .fail .storage
    | some written => if written = 0 then .fail .storage else writeThrough handle (remaining.drop written)
termination_by remaining.length
decreasing_by
  rename_i held positive
  have := List.length_pos_of_ne_nil held
  rw [List.length_drop]
  omega

/-- `rename_by_handle` -/
def renameByHandle (handle parent : Handle) : Windows Unit := do
  let renamed ← ask (.rename handle parent)
  require renamed
  flush handle

/-- From the new temporary file to the rename. -/
def stage (handle parent : Handle) (encoded : Bytes) : Windows Unit := do
  setPrivate handle
  assertPrivate handle false
  assertFinalPath handle .temporary
  writeThrough handle encoded
  renameByHandle handle parent

/-- From the rename on. -/
def confirm (handle : Handle) : Windows Unit := do
  assertFinalPath handle .state
  assertPrivate handle false

/-- `replace_state`. An error of the deletion is dropped. -/
def replaceState (parent : Option Handle) (encoded : Bytes) : Windows Unit :=
  match parent with
  | none => .fail .storage
  | some parent => do
    match ← ask .createTemporary with
    | none => .fail .storage
    | some handle =>
      match ← (stage handle parent encoded).attempt with
      | .error e =>
        let _ ← ask (.delete handle)
        close handle
        .fail e
      | .ok () =>
        let confirmed ← (confirm handle).attempt
        close handle
        Program.lift confirmed

/-! ## The queue -/

/-- `_load` -/
def loadOpen (limits : Limits) (parent : Option Handle) : Windows State := do
  let encoded ← readState parent (limits.maxStateBytes + 1)
  Program.lift (load limits (encoded.map fileOf))

/-- `_save` -/
def saveOpen (limits : Limits) (parent : Option Handle) (seen : List Text) (pending : List Json.Members) : Windows Unit := do
  let encoded ← Program.lift (save limits seen pending)
  replaceState parent encoded.data.toList

/-- `ingest` -/
def ingest (limits : Limits) (event : HeyEvent) (authorize : HeyEvent → Bool) : Windows Bool :=
  if ¬ authorize event then return false
  else transaction true fun parent => do
    let value ← loadOpen limits parent
    if event.identity ∈ value.seen then return false
    else if limits.maxPending ≤ value.pending.length then .fail (.runtime "HEY pending queue is full")
    else
      saveOpen limits parent (value.seen ++ [event.identity]) (value.pending ++ [event.toDict])
      return true

/-- `pending` -/
def pending (limits : Limits) : Windows (List HeyEvent) :=
  transaction false fun parent => do
    let value ← loadOpen limits parent
    Program.lift (value.pending.mapM HeyEvent.fromDict)

/-- `complete` -/
def complete (limits : Limits) (identity : Text) : Windows Unit :=
  transaction true fun parent => do
    let value ← loadOpen limits parent
    let kept ← Program.lift (without identity value.pending)
    saveOpen limits parent value.seen kept

/-! ## The handles -/

/-- What the calls do to handles. -/
def handles : Handles Answer Handle where
  opens
    | ⟨.openParent, opened⟩ | ⟨.createTemporary, opened⟩ => (opened : Option Handle)
    | ⟨.openState, opened⟩ => (opened : Option (Option Handle)).join
    | _ => none
  closes
    | .close handle => some handle
    | _ => none
  uses
    | .setPrivate handle | .assertPrivate handle _ | .finalPath handle _ | .readFile handle _ | .writeFile handle _
    | .flush handle | .delete handle => [handle]
    | .rename handle parent => [handle, parent]
    | _ => []

/-! ## The disk -/

/-- The file behind the handle of a replacement. -/
structure Staged where
  handle : Handle
  bytes : Bytes
  /-- It has the state's name. -/
  placed : Bool
  /-- It vanishes when it is closed. -/
  doomed : Bool

/-- `position` is that of the handle that reads the state, and a file is left over when its name
is the temporary one after it was closed. -/
structure Disk where
  state : File
  position : ℕ
  staged : Option Staged
  leftover : Bool

/-- The bytes of the state. -/
def Disk.content (disk : Disk) : Bytes := (disk.state.map fun file => file.data.toList).getD []

/-- The file behind a handle is closed. -/
def Disk.closed (disk : Disk) (handle : Handle) : Disk :=
  match disk.staged with
  | none => disk
  | some staged =>
    if staged.handle ≠ handle then disk
    else { disk with
      staged := none
      state := if staged.placed ∧ staged.doomed then none else disk.state
      leftover := disk.leftover || (!staged.placed && !staged.doomed) }

/-- The disk after an answered call. -/
def Disk.after (disk : Disk) : Sigma Answer → Disk
  | ⟨.openState, some (some _)⟩ => { disk with position := 0 }
  | ⟨.readFile _ _, some chunk⟩ => { disk with position := disk.position + (chunk : Bytes).length }
  | ⟨.createTemporary, some handle⟩ => { disk with staged := some ⟨handle, [], false, false⟩ }
  | ⟨.writeFile _ chunk, some written⟩ =>
    { disk with staged := disk.staged.map fun file => { file with bytes := file.bytes ++ chunk.take written } }
  | ⟨.rename _ _, true⟩ =>
    { disk with
      staged := disk.staged.map fun file => { file with placed := true }
      state := disk.staged.map fun file => fileOf file.bytes }
  | ⟨.delete _, true⟩ => { disk with staged := disk.staged.map fun file => { file with doomed := true } }
  | ⟨.close handle, _⟩ => disk.closed handle
  | _ => disk

def Disk.since (start : Disk) (history : History) : Disk := history.foldl Disk.after start

/-- The system tells the truth about the state: whether there is one, and what its bytes are. -/
def diskContract (start : Disk) : Program.Contract Answer where
  may history request answer := match request, answer with
    | .parentExists, answer => answer = some false → (start.since history).state = none
    | .openState, answer => ∀ found : Option Handle, answer = some found →
        found.isSome = (start.since history).state.isSome
    | .readFile _ length, answer => ∀ chunk : Bytes, answer = some chunk → chunk.length ≤ length ∧
        chunk <+: (start.since history).content.drop (start.since history).position ∧
          (chunk = [] → (start.since history).content.length ≤ (start.since history).position)
    | .writeFile _ chunk, answer => ∀ written : ℕ, answer = some written → written ≤ chunk.length
    | _, _ => True
  must _ _ := True

/-- The temporary file took the state's name. -/
def Renamed (history : History) : Prop := ∃ handle parent, ⟨.rename handle parent, true⟩ ∈ history

/-- A deletion was accepted. -/
def Deleted (history : History) : Prop := ∃ handle, ⟨.delete handle, true⟩ ∈ history

def Refused (history : History) : Prop := ∃ handle, ⟨.delete handle, false⟩ ∈ history

/-- The file took the state's name, could not be flushed, and was deleted for that by its own handle. -/
def Lost (history : History) : Prop :=
  ∃ handle parent, [⟨.rename handle parent, true⟩, ⟨.flush handle, false⟩, ⟨.delete handle, true⟩] <:+: history

end HermesHey.WindowsState
