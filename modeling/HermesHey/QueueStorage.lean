import HermesHey.Library.Program
import HermesHey.QueueRefinement

/-! `_save_posix` and its callers, one system call after another. Any call may
fail, and a write may take any part of what it was given. -/
namespace HermesHey.Posix
open Library HermesHey.Core DurableQueue

abbrev Bytes := List UInt8

/-- How `os.replace` ends. -/
inductive Replaced where
  | done
  | failedBefore
  /-- It raised, and the file is in place nevertheless. -/
  | failedAfter
  deriving DecidableEq

inductive Call where
  /-- `_open_posix_parent(create=True)` -/
  | openParent
  /-- `_assert_posix_parent_identity` -/
  | assertParent
  /-- `_read_secure_state` -/
  | readState
  /-- `os.open` of the temporary name, with `O_CREAT | O_EXCL` -/
  | openTemporary
  /-- `os.fstat` of the temporary file: whether it is a private regular file. -/
  | fstat
  | fchmod
  | write (remaining : Bytes)
  | fsyncTemporary
  /-- `os.stat` of the temporary name: whether it still names the file. -/
  | statTemporary
  | replace
  /-- `os.stat` of the state name: whether it names the file. -/
  | statState
  | fsyncDirectory
  | closeTemporary
  | unlink
  | closeDirectory

/-- What a call returns; `none` and `false` are exceptions. -/
def Answer : Call → Type
  | .readState => Option File
  | .fstat | .statTemporary | .statState => Option Bool
  | .write _ => Option Nat
  | .replace => Replaced
  | _ => Bool

abbrev History := Program.History Answer

abbrev Os := Program Call Answer PyError

/-! ## `_save_posix` -/

def ask (request : Call) : Os (Answer request) := Program.ask request

/-- Raises unless the call was done, or the check holds. -/
def require (done : Bool) : Os Unit := if done then pure () else .fail .storage

def assertParent : Os Unit := do
  let same ← ask .assertParent
  require same

/-- The loop over `os.write`. -/
def writeAll (remaining : Bytes) : Os Unit :=
  if remaining = [] then pure ()
  else do
    match ← ask (.write remaining) with
    | none => .fail .storage
    | some written => if written = 0 then .fail .storage else writeAll (remaining.drop written)
termination_by remaining.length
decreasing_by
  rename_i held positive
  have := List.length_pos_of_ne_nil held
  rw [List.length_drop]
  omega

/-- The temporary file is made private. -/
def prepare : Os Unit := do
  let first ← ask .fstat
  require first.isSome
  let restricted ← ask .fchmod
  require restricted
  let second : Option Bool ← ask .fstat
  require (second = some true)

/-- The temporary file is complete, and where it was made. -/
def recheck : Os Unit := do
  let synced ← ask .fsyncTemporary
  require synced
  let named : Option Bool ← ask .statTemporary
  require (named = some true)
  assertParent

def rename : Os Unit := do
  let replaced : Replaced ← ask .replace
  require (replaced = .done)

/-- From the new temporary file to the rename. -/
def stage (encoded : Bytes) : Os Unit := do
  prepare
  writeAll encoded
  recheck
  rename

/-- From the rename on. -/
def confirm : Os Unit := do
  let named : Option Bool ← ask .statState
  require (named = some true)
  assertParent
  let synced ← ask .fsyncDirectory
  require synced

def closeTemporary : Os Unit := do
  let closed ← ask .closeTemporary
  require closed

/-- `except OSError: pass` -/
def unlinkTemporary : Os Unit := do
  let _ ← ask .unlink
  return ()

def closeDirectory : Os Unit := do
  let closed ← ask .closeDirectory
  require closed

def doIf (needed : Bool) (body : Os Unit) : Os Unit := if needed then body else pure ()

/-- The `finally` block: an exception of `os.close` ends it. -/
def cleanUp (opened leftover owned : Bool) : Os Unit := do
  doIf opened closeTemporary
  doIf leftover unlinkTemporary
  doIf owned closeDirectory

def openParent : Os Unit := do
  let opened ← ask .openParent
  require opened

/-- The temporary file is created. -/
def create : Os Unit := do
  assertParent
  let opened ← ask .openTemporary
  require opened

/-- The `try` block and its `finally`. -/
def replaceState (owned : Bool) (encoded : Bytes) : Os Unit := do
  match ← create.attempt with
  | .error e =>
    cleanUp false false owned
    .fail e
  | .ok () =>
    match ← (stage encoded).attempt with
    | .error e =>
      cleanUp true true owned
      .fail e
    | .ok () =>
      let confirmed ← confirm.attempt
      cleanUp true false owned
      Program.lift confirmed

/-- The directory is opened, unless the caller has opened it. -/
def enterParent (owned : Bool) : Os Unit := if owned then openParent else assertParent

/-- `_save_posix`; what it opened itself, it owns. -/
def savePosix (owned : Bool) (encoded : Bytes) : Os Unit := do
  enterParent owned
  replaceState owned encoded

/-! ## `ingest` and `complete` -/

/-- `_load` with an open directory. -/
def loadOpen (limits : Limits) : Os State := do
  assertParent
  match ← ask .readState with
  | none => .fail .storage
  | some file => Program.lift (load limits file)

/-- The directory is opened, and closed whatever happens. -/
def withParent (body : Os α) : Os α := do
  openParent
  let outcome ← body.attempt
  closeDirectory
  Program.lift outcome

/-- `_save` -/
def saveOpen (limits : Limits) (seen : List Text) (pending : List Json.Members) : Os Unit := do
  let encoded ← Program.lift (save limits seen pending)
  savePosix false encoded.data.toList

/-- `ingest` -/
def ingest (limits : Limits) (event : HeyEvent) (authorize : HeyEvent → Bool) : Os Bool :=
  if ¬ authorize event then return false
  else withParent do
    let value ← loadOpen limits
    if event.identity ∈ value.seen then return false
    else if limits.maxPending ≤ value.pending.length then
      .fail (.runtime "HEY pending queue is full")
    else
      saveOpen limits (value.seen ++ [event.identity]) (value.pending ++ [event.toDict])
      return true

/-- `complete` -/
def complete (limits : Limits) (identity : Text) : Os Unit := withParent do
  let value ← loadOpen limits
  let kept ← Program.lift (without identity value.pending)
  saveOpen limits value.seen kept

/-! ## The directory -/

/-- What the two names of the directory hold. -/
@[ext] structure Disk where
  state : File
  temporary : Option Bytes

def fileOf (bytes : Bytes) : ByteArray := ⟨bytes.toArray⟩

/-- The directory after an answered call. -/
def Disk.after (disk : Disk) : Sigma Answer → Disk
  | ⟨.openTemporary, opened⟩ => bif opened then { disk with temporary := some [] } else disk
  | ⟨.write remaining, answer⟩ =>
    match (answer : Option Nat) with
    | none => disk
    | some written => { disk with temporary := disk.temporary.map (· ++ remaining.take written) }
  | ⟨.replace, answer⟩ =>
    match disk.temporary, (answer : Replaced) with
    | none, _ | _, .failedBefore => disk
    | some bytes, .done | some bytes, .failedAfter => { state := some (fileOf bytes), temporary := none }
  | ⟨.unlink, done⟩ => bif done then { disk with temporary := none } else disk
  | _ => disk

/-- The directory after a history that began with it. -/
def Disk.since (start : Disk) (history : History) : Disk := history.foldl Disk.after start

/-- The rename took effect. -/
def Took (history : History) : Prop :=
  ∃ answer : Replaced, ⟨Call.replace, answer⟩ ∈ history ∧ answer ≠ .failedBefore

/-- The temporary file could not be closed, or not be unlinked. -/
def Uncleaned (history : History) : Prop :=
  ⟨Call.closeTemporary, false⟩ ∈ history ∨ ⟨Call.unlink, false⟩ ∈ history

end HermesHey.Posix
