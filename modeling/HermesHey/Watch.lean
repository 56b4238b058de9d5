import Mathlib.Data.List.Sort
import HermesHey.WatchEvent

/-! `sidecar/watch.go`, with the state of `sidecar/cursor.go`: the two calls of
the watch, `initialize` and `poll`. -/
namespace HermesHey.Sidecar
open Library Library.Json

/-! ## The cursor state -/

def invalidState : GoError := .plain (text "invalid cursor state")

/-- The entries that `loadCursorState` accepts. -/
def validBox (id : Text) (cursor : Cursor) : Bool :=
  match parseInt id with
  | some parsed => 0 < parsed && cursor.since ≠ []
  | none => false

/-- What `loadCursorState` makes of the decoded file. -/
def checkState : Option CursorState → Go (Cursors × Bool)
  | none => return (∅, false)
  | some ⟨_, none⟩ => .fail invalidState
  | some ⟨version, some boxes⟩ =>
    if version = 1 ∧ boxes.entries.all fun entry => validBox entry.1 entry.2 then return (boxes, true)
    else .fail invalidState

/-- `loadCursorState`: the boxes, and whether the file exists. -/
def loadCursorState : Go (Cursors × Bool) := do
  let outcome ← ask .loadCursors
  let found ← Program.lift outcome
  checkState found

/-- `saveCursorState` of a state that was loaded. -/
def saveCursorState (boxes : Cursors) : Go Unit := do
  match ← ask (.saveCursors boxes) with
  | .saved => return ()
  | .failedBefore error | .failedAfter error => .fail error

def saveIf (changed : Bool) (boxes : Cursors) : Go Unit := if changed then saveCursorState boxes else pure ()

/-- `sdkAdapter.ListBoxes` -/
def sdkListBoxes : Go (List Box) := do
  let outcome ← ask .listBoxes
  match ← pass outcome with
  | none => .fail (.plain (text "boxes returned no data"))
  | some boxes => return boxes

def listBoxes : Go (List Box) := sdkListBoxes.mapFail (.wrap (text "list boxes"))

/-- `strconv.FormatInt(box.Id, 10)` -/
def Box.key (box : Box) : Text := decimalInt box.id

/-! ## initialize -/

/-- One round of the loop of `initialize`. -/
def initializeBox (lib : GoLib) (state : Cursors × Bool) (box : Box) : Go (Cursors × Bool) := do
  require (¬ (box.id ≤ 0 ∨ box.postingChangesUrl = [])) "box has invalid changes cursor"
  if (state.1.lookup box.key).isSome then return state
  else match lib.postingChangesCursorFrom box.postingChangesUrl with
    | none => .fail (.plain (text "box has invalid changes cursor"))
    | some cursor =>
      if cursor.since = [] then .fail (.plain (text "box has invalid changes cursor"))
      else return (state.1.insert box.key cursor, true)

/-- `watchEngine.initialize` -/
def initializeWatch (lib : GoLib) : Go Unit := do
  let (loaded, found) ← loadCursorState
  let boxes ← listBoxes
  let (cursors, changed) ← boxes.foldlM (initializeBox lib) (loaded, !found)
  saveIf changed cursors
  writeNDJSON lib (.obj readyFrame)

/-! ## poll, up to the first write -/

/-- `increment` -/
structure Increment where
  key : Text
  boxKind : Text
  since : Instant
  postings : List Posting
  next : Option Cursor
  pending : Int

/-- `pendingEvent` -/
structure PendingEvent where
  event : Event
  created : Instant
  boxes : List Text

/-- The order of a box's postings. -/
def postingBefore (a b : Posting) : Prop :=
  ¬ (if b.id ≠ a.id then b.id < a.id else ¬ Text.le a.appUrl b.appUrl)

instance : DecidableRel postingBefore := fun a b => by
  unfold postingBefore
  infer_instance

/-- The body of the loop of `poll` over the boxes. -/
def readIncrement (lib : GoLib) (cursors : Cursors) (box : Box) : Go Increment :=
  match cursors.lookup box.key with
  | none => .fail (.plain (text "cursor state missing box"))
  | some cursor =>
    match lib.parseTime cursor.since with
    | none => .fail (.plain (text "cursor state has invalid timestamp"))
    | some since => do
      let outcome ← ask (.allChanges box.id cursor)
      match ← (pass outcome).mapFail (.wrap (text "read posting changes")) with
      | none => .fail (.plain (text "posting changes returned no data"))
      | some changes => do
        require (¬ changes.fullSyncRequired) "posting changes require a full sync"
        let changed := decide (0 < changes.added.length + changes.updated.length + changes.deleted.length)
        require (¬ (changed ∧ changes.nextCursor = none)) "posting changes missing next cursor"
        require (∀ next ∈ changes.nextCursor, next.since ≠ []) "posting changes returned invalid cursor"
        return {
          key := box.key, boxKind := box.kind, since
          postings := (changes.added ++ changes.updated).insertionSort postingBefore
          next := changes.nextCursor, pending := 0 }

/-- The increments of the boxes, in their order. -/
def readIncrements (lib : GoLib) (cursors : Cursors) (boxes : List Box) : Go (List Increment) :=
  boxes.foldlM (fun increments box => do
    let increment ← readIncrement lib cursors box
    return increments ++ [increment]) []

/-- The event is from the own address. -/
def isOwn (lib : GoLib) (ownEmail : Text) (event : Event) : Bool :=
  lib.equalFold (trimSpace event.senderEmail) (trimSpace ownEmail)

/-- The body of the loop of `poll` over the events of a posting. The pending
events are in the order of their first insertion, which the later sort undoes. -/
def addEvent (lib : GoLib) (ownEmail key : Text) (items : List PendingEvent) (event : Event) :
    Go (List PendingEvent) := do
  let _ ← ask (.hydrated key event)
  if isOwn lib ownEmail event then return items
  else if items.any (·.event.eventID = event.eventID) then
    return items.map fun item =>
      if item.event.eventID = event.eventID then { item with boxes := item.boxes.insert key } else item
  else match lib.parseTime event.createdAt with
    | none => .fail (.plain (text "hydrated event has invalid timestamp"))
    | some created => return items ++ [{ event, created, boxes := [key] }]

/-- The body of the loop of `poll` over the postings of an increment. -/
def addPosting (lib : GoLib) (ownEmail : Text) (increment : Increment) (items : List PendingEvent)
    (posting : Posting) : Go (List PendingEvent) :=
  if posting.id ≤ 0 ∨ posting.kind ≠ text "topic" then return items
  else do
    let events ← (hydratePostingSince lib posting increment.boxKind increment.since).mapFail
      (.wrap (text "hydrate posting"))
    events.foldlM (addEvent lib ownEmail increment.key) items

/-- The pending events of all increments. -/
def hydrateIncrements (lib : GoLib) (ownEmail : Text) (increments : List Increment) : Go (List PendingEvent) :=
  increments.foldlM (fun items increment =>
    increment.postings.foldlM (addPosting lib ownEmail increment) items) []

/-- `byKey[key].pending += amount`; the map holds the last increment of a key. -/
def adjust : List Increment → Text → Int → List Increment
  | [], _, _ => []
  | increment :: rest, key, amount =>
    if rest.any (·.key = key) then increment :: adjust rest key amount
    else if increment.key = key then { increment with pending := increment.pending + amount } :: rest
    else increment :: rest

/-- Every pending event counts in each of its boxes. -/
def countPending (increments : List Increment) (pending : List PendingEvent) : List Increment :=
  pending.foldl (fun increments item => item.boxes.foldl (adjust · · 1) increments) increments

/-- The order in which the pending events are emitted. -/
def emittedBefore (a b : PendingEvent) : Prop :=
  ¬ (if b.created.nanos ≠ a.created.nanos then b.created.nanos < a.created.nanos
    else if b.event.threadID ≠ a.event.threadID then b.event.threadID < a.event.threadID
    else if b.event.entryID ≠ a.event.entryID then b.event.entryID < a.event.entryID
    else ¬ Text.le a.event.eventID b.event.eventID)

instance : DecidableRel emittedBefore := fun a b => by
  unfold emittedBefore
  infer_instance

/-- What `poll` knows before it writes anything. -/
structure Gathered where
  cursors : Cursors
  increments : List Increment
  pending : List PendingEvent

/-- `watchEngine.poll`, up to the sorted pending events. -/
def gather (lib : GoLib) (ownEmail : Text) : Go Gathered := do
  let (cursors, found) ← loadCursorState
  require found "cursor state is not initialized"
  let listed ← listBoxes
  let increments ← readIncrements lib cursors (listed.insertionSort fun a b => a.id ≤ b.id)
  let items ← hydrateIncrements lib ownEmail increments
  return {
    cursors
    increments := countPending increments items
    pending := items.insertionSort emittedBefore }

/-! ## poll, from the first write -/

/-- What changes while the pending events are emitted. -/
structure Progress where
  increments : List Increment
  cursors : Cursors
  stateChanged : Bool

/-- The increment's next cursor, once nothing is pending for its box. -/
def Increment.reached (increment : Increment) : Option Cursor :=
  if increment.pending = 0 then increment.next else none

/-- `state.Boxes[inc.key] = *inc.next`, when the increment has reached it. -/
def settle (progress : Progress) (increment : Increment) : Progress :=
  match increment.reached with
  | none => progress
  | some next =>
    { progress with cursors := progress.cursors.insert increment.key next, stateChanged := true }

/-- The boxes without a pending event move at once. -/
def settleIdle (gathered : Gathered) : Progress :=
  gathered.increments.foldl settle ⟨gathered.increments, gathered.cursors, false⟩

/-- One round of the loop over the boxes of an acknowledged event. -/
def finishBox (progress : Progress) (key : Text) : Progress :=
  let increments := adjust progress.increments key (-1)
  match increments.reverse.find? (·.key = key) with
  | none => { progress with increments }
  | some increment => settle { progress with increments } increment

/-- `waitForAck` -/
def waitForAck (eventID : Text) : Go Unit := do
  let outcome ← ask (.readAck eventID)
  match ← Program.lift outcome with
  | none => .fail (.plain (text "invalid ack"))
  | some ack => require (ack = eventID) "invalid ack"

/-- The body of the loop of `poll` over the pending events. -/
def emit (lib : GoLib) (progress : Progress) (item : PendingEvent) : Go Progress := do
  writeNDJSON lib (.obj (eventFrame item.event))
  waitForAck item.event.eventID
  let finished := item.boxes.foldl finishBox { progress with stateChanged := false }
  saveIf finished.stateChanged finished.cursors
  return finished

/-- `watchEngine.poll`, from the sorted pending events on. -/
def deliver (lib : GoLib) (gathered : Gathered) : Go Unit := do
  let settled := settleIdle gathered
  saveIf settled.stateChanged settled.cursors
  let _ ← gathered.pending.foldlM (emit lib) settled
  return ()

/-- `watchEngine.poll` -/
def poll (lib : GoLib) (ownEmail : Text) : Go Unit := do
  let gathered ← gather lib ownEmail
  deliver lib gathered

end HermesHey.Sidecar
