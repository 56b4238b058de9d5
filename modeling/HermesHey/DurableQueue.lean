import Mathlib.Data.List.DropRight
import HermesHey.Core

/-! `hey_platform/engine.py`: the durable queue of authorized events. Every
operation reads the whole state file, checks it, and replaces it as a whole;
an instance holds no state besides its limits, so one file is what every
instance and every restarted process shares. -/
namespace HermesHey.DurableQueue
open Library Library.Json HermesHey.Core

/-- The limits of an instance, as `__init__` bounds them. -/
structure Limits where
  maxSeen : Nat
  maxPending : Nat
  maxStateBytes : Nat
  seenFloor : 100 ≤ maxSeen
  pendingFloor : 1 ≤ maxPending
  bytesFloor : 1 ≤ maxStateBytes

/-- `__init__` -/
def Limits.of (maxSeen maxPending maxStateBytes : Int) : Limits where
  maxSeen := (max 100 maxSeen).toNat
  maxPending := (max 1 maxPending).toNat
  maxStateBytes := (max 1 maxStateBytes).toNat
  seenFloor := by omega
  pendingFloor := by omega
  bytesFloor := by omega

/-- The limits of an adapter's queue. -/
def Limits.default : Limits := .of 10000 10000 (16 * 2 ^ 20)

/-- The state file: absent, or its bytes. -/
abbrev File := Option ByteArray

/-- A decoded state; the pending dictionaries are already normalized. -/
structure State where
  seen : List Text
  pending : List Members

/-- Where the file system fails a call. A crash of the process at the same
point leaves the same file. -/
inductive Fault where
  | none
  /-- The directory or the file cannot be opened, read or trusted. -/
  | read
  /-- The temporary file cannot be written, or is not renamed into place. -/
  | write
  /-- The file was renamed into place, and a later check or `fsync` fails. -/
  | sync
  deriving DecidableEq, Repr

def legacyMessageEventKeys : List Text := eventKeys.filter (· ≠ text "kind")

/-- The legacy dictionary of a message lacks the kind. -/
def normalize (value : Members) : Except PyError Members :=
  if sameKeys (value.map Prod.fst) legacyMessageEventKeys then
    .ok (dictSet value (text "kind") (.str (text "message")))
  else if ¬ sameKeys (value.map Prod.fst) eventKeys then
    .error (.value "invalid persisted HEY event")
  else .ok value

/-- `_parse_persisted_event` -/
def parsePersistedEvent : Value → Except PyError HeyEvent
  | .obj value => do
    let normalized ← normalize value
    let parsed ← HeyEvent.fromDict normalized
    if ¬ sameDict parsed.toDict normalized then
      .error (.value "persisted HEY event requires coercion")
    else return parsed
  | _ => .error (.type "invalid persisted HEY event")

/-- `_EVENT_IDENTITY.fullmatch` -/
def isEventIdentity (identity : Text) : Bool :=
  (text "thread:").isPrefixOf identity &&
    match spanPositive (identity.drop 7) with
    | none => false
    | some (_, rest) =>
      (text ":entry:").isPrefixOf rest &&
        match spanPositive (rest.drop 7) with
        | some (_, []) => true
        | _ => false

/-- One recorded identity. -/
def parseSeen : Value → Except PyError Text
  | .str identity =>
    if isEventIdentity identity then .ok identity
    else .error (.value "invalid persisted HEY identity")
  | _ => .error (.value "invalid persisted HEY identity")

def unreadable : PyError := .runtime "HEY state is unreadable; refusing overwrite"

/-- `except (KeyError, TypeError, ValueError)` -/
def refuseSchema : Except PyError α → Except PyError α
  | .error .key | .error (.type _) | .error (.value _) => .error unreadable
  | outcome => outcome

/-- The checks of `_load` on the two lists of a state. -/
def parseState (seen pending : List Value) : Except PyError State := do
  let identities ← seen.mapM parseSeen
  if ¬ identities.Nodup then .error (.value "duplicate seen HEY identity")
  else
    let parsed ← pending.mapM parsePersistedEvent
    let pendingIds := parsed.map HeyEvent.identity
    if ¬ pendingIds.Nodup then .error (.value "duplicate pending HEY identity")
    else if ¬ pendingIds ⊆ identities then
      .error (.value "pending HEY identity is missing from seen")
    else return { seen := identities, pending := parsed.map HeyEvent.toDict }

/-- `_load` -/
def load (limits : Limits) : File → Except PyError State
  | none => .ok { seen := [], pending := [] }
  | some encoded =>
    if limits.maxStateBytes < encoded.size then
      .error (.runtime "HEY state exceeds capacity; refusing overwrite")
    else
      match Text.decode encoded with
      | none => .error unreadable
      | some raw =>
        match loads plainHook raw with
        | .error .digits =>
          .error (.value "Exceeds the limit (4300 digits) for integer string conversion")
        | .error _ => .error unreadable
        | .ok (.obj value) =>
          match value.lookup (text "seen"), value.lookup (text "pending") with
          | some (.arr seen), some (.arr pending) =>
            if ¬ sameKeys (value.map Prod.fst) [text "seen", text "pending"] then .error unreadable
            else if limits.maxPending < pending.length then
              .error (.runtime "HEY pending queue exceeds capacity")
            else refuseSchema (parseState seen pending)
          | _, _ => .error unreadable
        | .ok _ => .error unreadable

/-- `values[-cap:]` -/
def lastOf (values : List α) (cap : Nat) : List α := if cap = 0 then values else values.rtake cap

/-- The last occurrence of every value, in order: the loop of `_trim`. -/
def keepLast (values : List Text) : List Text :=
  (values.reverse.foldl (fun result value => if value ∈ result then result else result ++ [value])
    []).reverse

/-- `_trim` -/
def trim (values : List Text) (cap : Nat) : List Text := lastOf (keepLast values) cap

/-- The identities `_save` records: the completed ones, trimmed, before the pending ones. -/
def durableSeen (limits : Limits) (seen pendingIds : List Text) : List Text :=
  trim (seen.filter (· ∉ pendingIds)) limits.maxSeen ++ trim pendingIds pendingIds.length

/-- The document of a state. -/
def document (seen : List Text) (pending : List Members) : Value :=
  .obj [(text "seen", .arr (seen.map .str)), (text "pending", .arr (pending.map .obj))]

/-- `_save` up to the replacement of the file. -/
def save (limits : Limits) (seen : List Text) (pending : List Members) : Except PyError ByteArray := do
  let events ← pending.mapM HeyEvent.fromDict
  let pendingIds := events.map HeyEvent.identity
  match dumps (document (durableSeen limits seen pendingIds) pending) with
  | none => .error (.value "Exceeds the limit (4300 digits) for integer string conversion")
  | some serialized =>
    match serialized.encode with
    | none => .error .unicodeEncode
    | some encoded =>
      if limits.maxStateBytes < encoded.size then
        .error (.runtime "HEY state exceeds capacity; refusing write")
      else return encoded

/-- What a call returns or raises, the file it leaves, and whether it replaced it. -/
structure Answer (α : Type) where
  result : Except PyError α
  file : File
  replaced : Bool

/-- A call that ends without having touched the file. -/
def Answer.untouched (result : Except PyError α) (file : File) : Answer α := ⟨result, file, false⟩

/-- `_save_posix`: a temporary file that is renamed into place. -/
def replaceFile (fault : Fault) (file : File) (saved : Except PyError ByteArray) (result : α) :
    Answer α :=
  match saved with
  | .error e => .untouched (.error e) file
  | .ok encoded =>
    match fault with
    | .none => ⟨.ok result, some encoded, true⟩
    | .sync => ⟨.error .storage, some encoded, true⟩
    | _ => .untouched (.error .storage) file

/-- `_open_posix_parent` and `_load` -/
def openState (limits : Limits) (fault : Fault) (file : File) : Except PyError State :=
  if fault = .read then .error .storage else load limits file

/-- `ingest` -/
def ingest (limits : Limits) (event : HeyEvent) (authorize : HeyEvent → Bool) (fault : Fault)
    (file : File) : Answer Bool :=
  if ¬ authorize event then .untouched (.ok false) file
  else
    match openState limits fault file with
    | .error e => .untouched (.error e) file
    | .ok value =>
      if event.identity ∈ value.seen then .untouched (.ok false) file
      else if limits.maxPending ≤ value.pending.length then
        .untouched (.error (.runtime "HEY pending queue is full")) file
      else
        replaceFile fault file
          (save limits (value.seen ++ [event.identity]) (value.pending ++ [event.toDict])) true

/-- `pending` -/
def pending (limits : Limits) (fault : Fault) (file : File) : Except PyError (List HeyEvent) := do
  let value ← openState limits fault file
  value.pending.mapM HeyEvent.fromDict

/-- The pending dictionaries other than those of one identity. -/
def without (identity : Text) : List Members → Except PyError (List Members)
  | [] => return []
  | item :: rest => do
    let event ← HeyEvent.fromDict item
    let kept ← without identity rest
    return if event.identity ≠ identity then item :: kept else kept

/-- `complete` -/
def complete (limits : Limits) (identity : Text) (fault : Fault) (file : File) : Answer Unit :=
  match openState limits fault file with
  | .error e => .untouched (.error e) file
  | .ok value =>
    match without identity value.pending with
    | .error e => .untouched (.error e) file
    | .ok kept => replaceFile fault file (save limits value.seen kept) ()

end HermesHey.DurableQueue
