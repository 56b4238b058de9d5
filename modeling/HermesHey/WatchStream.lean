import HermesHey.Library.JsonWritable
import HermesHey.QueueRefinement
import HermesHey.SidecarRunner

/-! One run of the watch, as `_watch_supervisor` reads it: a ready frame, then
event frames of the account, each taken into the queue before it is acknowledged.
Whatever else arrives ends the run and does nothing. -/
namespace HermesHey.WatchStream
open Library Library.Json HermesHey.Core Adapter DurableQueue
open Sidecar (decodeSidecarJson rejectDuplicateKeys)

/-- The calls of a run to the rest of the adapter. -/
inductive Request where
  /-- `_drain_pending` -/
  | drain
  /-- `queue.ingest` -/
  | ingest (event : HeyEvent)
  /-- The write of `_watch.ack` -/
  | acknowledge (identity : Text)

/-- What a call is answered. That of `ingest` is the file it finds, and where the
file system fails it. -/
def Answer : Request → Type
  | .drain | .acknowledge _ => Except PyError Unit
  | .ingest _ => File × Fault

abbrev History := Program.History Answer

abbrev Watch := Program Request Answer PyError

def ask (request : Request) : Watch (Answer request) := Program.ask request

def drainPending : Watch Unit := do
  let drained ← (ask .drain : Watch (Except PyError Unit))
  Program.lift drained

/-- `ack` -/
def ack (identity : Text) : Watch Unit :=
  if ¬ isEventIdentity identity then .fail (.runtime "HEY SDK watch event identity is invalid")
  else do
    let written ← (ask (.acknowledge identity) : Watch (Except PyError Unit))
    Program.lift written

/-- The checks of `_watch_supervisor` on the first frame. -/
def checkReady (raw : Members) : Except PyError Unit :=
  valueAsRuntime do
    match ← parseFatalFrame raw with
    | some fatal => .error (.value (text "HEY SDK watch reported a fatal error: " ++ fatal))
    | none => parseReadyFrame raw 2

section
variable (limits : Limits) (py : PyText) (config : Config)

/-- `self.queue.ingest(event, self._authorized)` on the file it finds. -/
def ingestion (event : HeyEvent) (found : File × Fault) : Except PyError Bool :=
  (DurableQueue.ingest limits event (authorized py config) found.2 found.1).result

/-- `process_watch_line` -/
def processWatchLine (raw : Members) : Watch Unit := do
  let event ← Program.lift (checkWatchLine config raw)
  let found ← (ask (.ingest event) : Watch (File × Fault))
  let accepted ← Program.lift (ingestion limits py config event found)
  ack event.identity
  if accepted then drainPending else pure ()

/-- The loop of `_watch_supervisor` over the frames of one run. -/
def watchRun (readySeen : Bool) : List Members → Watch Unit
  | [] => .fail (.runtime "HEY SDK watch ended")
  | raw :: rest =>
    if ¬ readySeen then do
      Program.lift (checkReady raw)
      drainPending
      watchRun true rest
    else do
      processWatchLine limits py config raw
      watchRun true rest

end

/-! ## The frames of the protocol -/

def ReadyFrame (raw : Members) : Prop :=
  (∀ key, key ∈ raw.map Prod.fst ↔ key ∈ [text "type", text "protocol_version"]) ∧
    raw.lookup (text "type") = some (.str (text "ready")) ∧
    raw.lookup (text "protocol_version") = some (.int 2)

/-- A frame with an event of the configured account. -/
def EventFrame (config : Config) (raw : Members) (event : HeyEvent) : Prop :=
  (∀ key, key ∈ raw.map Prod.fst ↔ key ∈ [text "type", text "event"]) ∧
    raw.lookup (text "type") = some (.str (text "event")) ∧
    (∃ payload, raw.lookup (text "event") = some (.obj payload) ∧
      (∀ key, key ∈ payload.map Prod.fst ↔ key ∈ eventKeys) ∧
      ∀ member ∈ event.toDict, payload.lookup member.1 = some member.2) ∧
    event.Valid ∧ event.accountId = config.accountId

private theorem valueAsRuntime_eq_ok {outcome : Except PyError α} :
    valueAsRuntime outcome = .ok a ↔ outcome = .ok a := by
  unfold valueAsRuntime
  split <;> simp

private theorem parseFatalFrame_none : parseFatalFrame raw = .ok none ↔
    raw.lookup (text "type") ≠ some (.str (text "fatal")) := by
  unfold parseFatalFrame
  split
  · simp [*]
  · rename_i fatal
    simp only [fatal, iff_false, ite_error_eq_ok, bind_eq_ok, not_and, not_exists]
    rintro _ held _ read
    cases held with
    | str error =>
      simp only [ite_error_eq_ok, pure_eq_ok] at read
      cases read.2
    | _ => cases read

private theorem parseReadyFrame_eq_ok : parseReadyFrame raw 2 = .ok () ↔ ReadyFrame raw := by
  simp only [parseReadyFrame, ReadyFrame, ite_error_eq_ok, bind_eq_ok, item_eq_ok, not_not, sameKeys_iff,
    ne_eq, pure_eq_ok]
  refine and_congr_right fun _ => ?_
  constructor
  · rintro ⟨_, kind, rfl, _, version, rfl, _⟩
    exact ⟨kind, version⟩
  · rintro ⟨kind, version⟩
    exact ⟨_, kind, rfl, _, version, rfl, trivial⟩

private theorem checkReady_eq_ok : checkReady raw = .ok () ↔ ReadyFrame raw := by
  rw [checkReady, valueAsRuntime_eq_ok, bind_eq_ok]
  constructor
  · rintro ⟨fatal, _, read⟩
    cases fatal with
    | some error => cases read
    | none => exact parseReadyFrame_eq_ok.mp read
  · intro ready
    refine ⟨none, parseFatalFrame_none.mpr ?_, parseReadyFrame_eq_ok.mpr ready⟩
    rw [ready.2.1]
    simp [text_inj]

/-- `process_watch_line` gets as far as the queue on event frames alone. -/
theorem checkWatchLine_eq_ok : checkWatchLine config raw = .ok event ↔ EventFrame config raw event := by
  have parsed : ∀ {event}, parseEventFrame raw = .ok event ∧ event.accountId = config.accountId ↔
      EventFrame config raw event := by
    intro event
    simp only [parseEventFrame_eq_ok, HeyEvent.fromDict_eq_ok, EventFrame, and_assoc]
    refine and_congr_right fun _ => and_congr_right fun _ => ?_
    constructor
    · rintro ⟨⟨payload, found, keys, looked, valid⟩, account⟩
      exact ⟨⟨payload, found, keys, looked⟩, valid, account⟩
    · rintro ⟨⟨payload, found, keys, looked⟩, valid, account⟩
      exact ⟨⟨payload, found, keys, looked, valid⟩, account⟩
  rw [← parsed, checkWatchLine, bind_eq_ok]
  simp only [valueAsRuntime_eq_ok]
  constructor
  · rintro ⟨fatal, _, read⟩
    cases fatal with
    | some error => cases read
    | none =>
      dsimp only at read
      split at read
      · split at read <;> cases read
      · rename_i held same
        simp only [ite_error_eq_ok, pure_eq_ok, ne_eq, not_not] at read
        obtain ⟨account, rfl⟩ := read
        exact ⟨same, account⟩
  · rintro ⟨read, account⟩
    refine ⟨none, parseFatalFrame_none.mpr ?_, ?_⟩
    · rw [(parseEventFrame_eq_ok.mp read).2.1]
      simp [text_inj]
    · simp [read, account]

/-! ## What the queue can take in -/

/-- The file is a loadable state below its limits, also with the event, and no
string of it has a lone surrogate. -/
structure Room (limits : Limits) (event : HeyEvent) (file : File) (state : State) : Prop where
  loaded : load limits file = .ok state
  strings : Writable (document state.seen state.pending)
  pending : state.pending.length < limits.maxPending
  bytes : save limits (state.seen ++ [event.identity]) (state.pending ++ [event.toDict]) ≠
    .error (.runtime "HEY state exceeds capacity; refusing write")

/-- A decoded frame whose strings have no lone surrogate. -/
def Decoded (raw : Members) : Prop :=
  (∃ line, decodeSidecarJson line = .ok (.obj raw)) ∧ Writable (.obj raw)

private theorem rejectDuplicateKeys_keepsInts : KeepsInts rejectDuplicateKeys := by
  intro pairs value fits ran
  unfold rejectDuplicateKeys at ran
  split at ran
  · cases ran
    exact fits
  · cases ran

private theorem decoded_writable (decoded : Decoded raw) (frame : EventFrame config raw event) :
    intsFit (.obj event.toDict) = true ∧ Writable (.obj event.toDict) := by
  obtain ⟨⟨line, loaded⟩, strings⟩ := decoded
  obtain ⟨_, _, ⟨payload, found, _, looked⟩, _, _⟩ := frame
  have fits : intsFit (.obj payload) = true := intsFit_lookup (loads_fits rejectDuplicateKeys_keepsInts loaded) found
  have scalars : Writable (.obj payload) := writable_lookup strings found
  constructor
  · unfold intsFit
    exact membersFit_iff.mpr fun member held => intsFit_lookup fits (looked member held)
  · unfold Writable
    refine writableMembers_iff.mpr fun member held => ⟨?_, writable_lookup scalars (looked member held)⟩
    have name : member.1 ∈ eventKeys := List.mem_map_of_mem held
    simp only [eventKeys, List.mem_cons, List.not_mem_nil, or_false] at name
    rcases name with same | same | same | same | same | same | same | same | same | same | same | same | same | same
    all_goals rw [same]; exact scalars_text _

private theorem persisted_fits {held : Value} (persisted : Persisted held event) (fits : intsFit held = true) :
    intsFit (.obj event.toDict) = true := by
  obtain ⟨members, rfl, _, spelled⟩ := persisted
  unfold intsFit
  refine membersFit_iff.mpr fun member inside => ?_
  rcases spelled with ⟨_, looked⟩ | ⟨_, _, looked⟩
  · exact intsFit_lookup fits (looked member inside)
  · by_cases kind : member.1 = text "kind"
    · have found := HeyEvent.lookup_toDict.mpr inside
      have known : event.toDict.lookup (text "kind") = some (.str event.kind) :=
        HeyEvent.lookup_toDict.mpr (by simp [HeyEvent.toDict])
      rw [kind, known] at found
      rw [← Option.some.inj found]
      rfl
    · exact intsFit_lookup fits (looked member inside kind)

private theorem pending_fits (recorded : Recorded limits file queue) :
    ∀ event ∈ queue.pending, intsFit (.obj event.toDict) = true := by
  cases file with
  | none =>
    cases recorded
    simp [Fifo.empty]
  | some encoded =>
    obtain ⟨raw, members, _, loaded, describes⟩ := recorded
    obtain ⟨items, listed, persisted⟩ := describes.pendingHeld
    have fits : elementsFit items = true := by
      simpa [intsFit] using intsFit_lookup (loads_fits plainHook_keepsInts loaded) listed
    rw [elementsFit_iff] at fits
    intro event held
    obtain ⟨i, inside, rfl⟩ := List.mem_iff_getElem.mp held
    have here : i < items.length := persisted.length_eq ▸ inside
    exact persisted_fits (persisted.get here inside) (fits _ (List.getElem_mem here))

private theorem writable_eventId {event : HeyEvent} (strings : Writable (.obj event.toDict)) :
    Scalars event.identity := by
  have held : event.toDict.lookup (text "event_id") = some (.str event.eventId) :=
    HeyEvent.lookup_toDict.mpr List.mem_cons_self
  exact writable_lookup strings held

private theorem save_returns {seen : List Text} {events : List HeyEvent} (valid : ∀ event ∈ events, event.Valid)
    (identities : ∀ identity ∈ seen, Scalars identity)
    (fits : ∀ event ∈ events, intsFit (.obj event.toDict) = true)
    (strings : ∀ event ∈ events, Writable (.obj event.toDict))
    (below : save limits seen (events.map HeyEvent.toDict) ≠
      .error (.runtime "HEY state exceeds capacity; refusing write")) :
    ∃ encoded, save limits seen (events.map HeyEvent.toDict) = .ok encoded := by
  have writable : ∃ serialized bytes, dumps (document (durableSeen limits seen (events.map HeyEvent.identity))
      (events.map HeyEvent.toDict)) = some serialized ∧ serialized.encode = some bytes := by
    apply dumps_encodes
    · exact intsFit_document.mpr (List.forall_mem_map.mpr fits)
    · refine writable_document.mpr ⟨fun identity held => ?_, List.forall_mem_map.mpr strings⟩
      rcases List.mem_append.mp (durableSeen_subset limits seen _ held) with known | pending
      · exact identities identity known
      · obtain ⟨event, inside, rfl⟩ := List.mem_map.mp pending
        exact writable_eventId (strings event inside)
  obtain ⟨serialized, bytes, dumped, encoded⟩ := writable
  refine ⟨bytes, (save_eq_ok valid).mpr ⟨serialized, dumped, encoded, ?_⟩⟩
  by_contra large
  apply below
  simp [save, mapM_fromDict valid, bind, Except.bind, dumped, encoded, Nat.lt_of_not_ge large]

/-- With room for the event, `ingest` returns. -/
theorem ingestion_returns (py : PyText) (room : Room limits event file state) (decoded : Decoded raw)
    (frame : EventFrame config raw event) :
    ∃ accepted, ingestion limits py config event (file, .none) = .ok accepted := by
  obtain ⟨queue, recorded, holds, _⟩ := holds_of_load room.loaded
  obtain ⟨loaded, strings, pending, bytes⟩ := room
  rw [holds.loaded] at loaded
  cases loaded
  unfold ingestion
  by_cases allowed : authorized py config event = true
  swap
  · exact ⟨false, by simp [DurableQueue.ingest, allowed, Answer.untouched]⟩
  by_cases known : event.identity ∈ queue.seen
  · exact ⟨false, by simp [DurableQueue.ingest, allowed, openState, holds.loaded, known, Answer.untouched]⟩
  have saved : ∃ encoded, save limits (queue.seen ++ [event.identity])
      ((queue.pending ++ [event]).map HeyEvent.toDict) = .ok encoded := by
    obtain ⟨seenStrings, itemStrings⟩ := writable_document.mp strings
    obtain ⟨eventFits, eventStrings⟩ := decoded_writable decoded frame
    have valid : event.Valid := frame.2.2.2.1
    apply save_returns
    · exact List.forall_mem_append.mpr ⟨holds.valid, by simpa using valid⟩
    · exact List.forall_mem_append.mpr ⟨seenStrings, by simpa using writable_eventId eventStrings⟩
    · exact List.forall_mem_append.mpr ⟨pending_fits recorded, by simpa using eventFits⟩
    · exact List.forall_mem_append.mpr ⟨fun held inside => itemStrings _ (List.mem_map_of_mem inside), by simpa using eventStrings⟩
    · simpa using bytes
  obtain ⟨encoded, saved⟩ := saved
  rw [List.length_map] at pending
  exact ⟨true, by rw [ingest_accepts holds allowed known pending saved]⟩

/-! ## The calls of a run -/

/-- Draining, storage and the acknowledgement do not raise, and the queue has room. -/
def Served (limits : Limits) : Sigma Answer → Prop
  | ⟨.drain, answer⟩ | ⟨.acknowledge _, answer⟩ => answer = Except.ok ()
  | ⟨.ingest event, found⟩ => ∃ file state, found = (file, Fault.none) ∧ Room limits event file state

private def serving (limits : Limits) : Program.Contract Answer where
  may _ request answer := Served limits ⟨request, answer⟩
  must _ _ := True

def drained : Sigma Answer := ⟨.drain, Except.ok ()⟩

/-- The calls for one event, which `ingest` finds the file for. -/
def exchange (limits : Limits) (py : PyText) (config : Config) (event : HeyEvent) (file : File) : History :=
  [⟨.ingest event, (file, Fault.none)⟩, ⟨.acknowledge event.identity, Except.ok ()⟩] ++
    match ingestion limits py config event (file, .none) with
    | .ok true => [drained]
    | _ => []

/-- The event frames at the front of a stream, their events and the calls for them. -/
inductive Follows (limits : Limits) (py : PyText) (config : Config) : List Members → List HeyEvent → History → Prop where
  | ended : Follows limits py config [] [] []
  | broken (other : ∀ event, ¬ EventFrame config raw event) : Follows limits py config (raw :: rest) [] []
  | event (frame : EventFrame config raw event) (later : Follows limits py config rest events calls) :
      Follows limits py config (raw :: rest) (event :: events) (exchange limits py config event file ++ calls)

private theorem drainPending_meets (history : History) :
    Program.Meets (serving limits) (fun outcome later => outcome = .ok () ∧ later = history ++ [drained]) history
      drainPending := by
  refine ⟨trivial, ?_⟩
  rintro _ rfl
  exact ⟨rfl, rfl⟩

private theorem ack_meets {event : HeyEvent} (valid : event.Valid) (history : History) :
    Program.Meets (serving limits) (fun outcome later => outcome = .ok () ∧
      later = history ++ [⟨.acknowledge event.identity, Except.ok ()⟩]) history (ack event.identity) := by
  have accepted := isEventIdentity_identity valid
  unfold ack
  rw [if_neg (not_not.mpr accepted)]
  refine ⟨trivial, ?_⟩
  rintro _ rfl
  exact ⟨rfl, rfl⟩

private theorem processWatchLine_meets (decoded : Decoded raw) (frame : EventFrame config raw event)
    (history : History) :
    Program.Meets (serving limits) (fun outcome later => outcome = .ok () ∧
      ∃ file, later = history ++ exchange limits py config event file) history
      (processWatchLine limits py config raw) := by
  unfold processWatchLine
  rw [checkWatchLine_eq_ok.mpr frame]
  refine Program.meets_ask trivial ?_
  rintro _ ⟨file, state, rfl, room⟩
  obtain ⟨accepted, returned⟩ := ingestion_returns py room decoded frame
  change Program.Meets _ _ _ (Program.lift (ingestion limits py config event (file, Fault.none)) >>= _)
  rw [returned]
  refine (ack_meets frame.2.2.2.1 _).bind ?_ ?_
  · rintro _ _ ⟨_, rfl⟩
    cases accepted with
    | false => exact ⟨rfl, file, by simp [exchange, returned]⟩
    | true =>
      apply (drainPending_meets _).mono
      rintro _ _ ⟨rfl, rfl⟩
      exact ⟨rfl, file, by simp [exchange, returned]⟩
  · rintro _ _ ⟨failed, _⟩
    cases failed

private theorem processWatchLine_runs (frame : EventFrame config raw event)
    (returned : ingestion limits py config event (file, .none) = .ok accepted) :
    Run Program.Step (processWatchLine limits py config raw) (exchange limits py config event file) (.pure ()) := by
  have identity := isEventIdentity_identity frame.2.2.2.1
  unfold processWatchLine exchange ack
  rw [checkWatchLine_eq_ok.mpr frame, returned]
  refine .cons .answered ?_
  change Run _ (Program.lift (ingestion limits py config event (file, Fault.none)) >>= _) _ _
  rw [returned, if_neg (not_not.mpr identity)]
  cases accepted with
  | false => exact .cons .answered .nil
  | true => exact .cons .answered (.cons .answered .nil)

private theorem watchRun_meets (decoded : ∀ raw ∈ raws, Decoded raw) (history : History) :
    Program.Meets (serving limits) (fun outcome later => (∃ e, outcome = .error e) ∧
      ∃ events calls, Follows limits py config raws events calls ∧ later = history ++ calls) history
      (watchRun limits py config true raws) := by
  induction raws generalizing history with
  | nil => exact ⟨⟨_, rfl⟩, [], [], .ended, (List.append_nil _).symm⟩
  | cons raw rest ih =>
    obtain ⟨here, others⟩ := List.forall_mem_cons.mp decoded
    unfold watchRun
    rw [if_neg (by decide)]
    by_cases shaped : ∃ event, EventFrame config raw event
    · obtain ⟨event, frame⟩ := shaped
      refine (processWatchLine_meets here frame history).bind ?_ ?_
      · rintro _ _ ⟨_, file, rfl⟩
        apply (ih others _).mono
        rintro outcome _ ⟨failed, events, calls, follows, rfl⟩
        exact ⟨failed, _, _, .event frame follows, List.append_assoc ..⟩
      · rintro _ _ ⟨failed, _⟩
        cases failed
    · have other : ∀ event, ¬ EventFrame config raw event := not_exists.mp shaped
      cases checked : checkWatchLine config raw with
      | ok event => exact absurd (checkWatchLine_eq_ok.mp checked) (other event)
      | error e =>
        unfold processWatchLine
        rw [checked]
        exact ⟨⟨e, rfl⟩, [], [], .broken other, (List.append_nil _).symm⟩

/-! ## The longest prefix -/

/-- One ready frame, and then the frames of some events. -/
def Shaped (config : Config) (frames : List Members) (events : List HeyEvent) : Prop :=
  ∃ ready rest, frames = ready :: rest ∧ ReadyFrame ready ∧ List.Forall₂ (EventFrame config) rest events

/-- The longest prefix of that shape. -/
structure Longest (config : Config) (raws accepted : List Members) (events : List HeyEvent) : Prop where
  front : accepted <+: raws
  shaped : Shaped config accepted events
  longest : ∀ other events', other <+: raws → Shaped config other events' → other.length ≤ accepted.length

/-- The identities a run has acknowledged. -/
def acknowledged (trace : History) : List Text := trace.filterMap fun
  | ⟨.acknowledge identity, _⟩ => some identity
  | _ => none

private theorem acknowledged_exchange (limits : Limits) (py : PyText) (config : Config) (event : HeyEvent)
    (file : File) :
    acknowledged (exchange limits py config event file) = [event.identity] := by
  unfold exchange acknowledged
  split <;> rfl

private theorem follows_longest (follows : Follows limits py config raws events calls) :
    ∃ frames files, frames <+: raws ∧ List.Forall₂ (EventFrame config) frames events ∧
      (∀ other events', other <+: raws → List.Forall₂ (EventFrame config) other events' →
        other.length ≤ frames.length) ∧
      files.length = events.length ∧
      calls = (List.zipWith (exchange limits py config) events files).flatten ∧
      acknowledged calls = events.map HeyEvent.identity := by
  induction follows with
  | ended =>
    refine ⟨[], [], List.prefix_rfl, .nil, ?_, rfl, rfl, rfl⟩
    rintro other _ front _
    rw [List.prefix_nil.mp front]
  | @broken raw rest bad =>
    refine ⟨[], [], List.nil_prefix, .nil, ?_, rfl, rfl, rfl⟩
    rintro other _ front shaped
    cases shaped with
    | nil => exact Nat.le_refl _
    | cons first _ =>
      obtain ⟨rfl, _⟩ := List.cons_prefix_cons.mp front
      exact absurd first (bad _)
  | @event raw event rest events calls file frame _ ih =>
    obtain ⟨frames, files, front, shaped, longest, lengths, rfl, identities⟩ := ih
    refine ⟨raw :: frames, file :: files, List.cons_prefix_cons.mpr ⟨rfl, front⟩, .cons frame shaped, ?_,
      congrArg Nat.succ lengths, rfl, ?_⟩
    · rintro other _ other_front other_shaped
      cases other_shaped with
      | nil => exact Nat.zero_le _
      | cons _ later => exact Nat.succ_le_succ (longest _ _ (List.cons_prefix_cons.mp other_front).2 later)
    · unfold acknowledged at *
      rw [List.filterMap_append, identities]
      exact congrArg (· ++ _) (acknowledged_exchange ..)

/-- The calls of a run that accepts the longest prefix of the protocol's shape, and nothing else. -/
def Accepts (limits : Limits) (py : PyText) (config : Config) (raws : List Members) (trace : History) : Prop :=
  (∃ accepted events files, Longest config raws accepted events ∧ files.length = events.length ∧
    trace = drained :: (List.zipWith (exchange limits py config) events files).flatten ∧
    acknowledged trace = events.map HeyEvent.identity) ∨
  (∀ front events, front <+: raws → ¬ Shaped config front events) ∧ trace = []

private theorem not_shaped (other : ∀ raw ∈ raws.head?, ¬ ReadyFrame raw) (front : List Members)
    (events : List HeyEvent) (within : front <+: raws) : ¬ Shaped config front events := by
  rintro ⟨ready, rest, rfl, good, _⟩
  obtain ⟨after, rfl⟩ := within
  exact other ready rfl good

private theorem longest_cons {rest frames : List Members} {events : List HeyEvent} (ready : ReadyFrame raw)
    (front : frames <+: rest) (shaped : List.Forall₂ (EventFrame config) frames events)
    (longest : ∀ other events', other <+: rest → List.Forall₂ (EventFrame config) other events' →
      other.length ≤ frames.length) :
    Longest config (raw :: rest) (raw :: frames) events where
  front := List.cons_prefix_cons.mpr ⟨rfl, front⟩
  shaped := ⟨raw, frames, rfl, ready, shaped⟩
  longest := by
    rintro _ events' within ⟨ready', rest', rfl, _, shaped'⟩
    exact Nat.succ_le_succ (longest rest' events' (List.cons_prefix_cons.mp within).2 shaped')

private theorem watchRun_accepts (limits : Limits) (py : PyText) (config : Config)
    (decoded : ∀ raw ∈ raws, Decoded raw) :
    Program.Meets (serving limits) (fun outcome trace => (∃ e, outcome = .error e) ∧
      Accepts limits py config raws trace) [] (watchRun limits py config false raws) := by
  cases raws with
  | nil => exact ⟨⟨_, rfl⟩, .inr ⟨not_shaped (by simp), rfl⟩⟩
  | cons raw rest =>
    unfold watchRun
    rw [if_pos (by decide)]
    by_cases ready : ReadyFrame raw
    · rw [checkReady_eq_ok.mpr ready]
      refine (drainPending_meets []).bind ?_ ?_
      · rintro _ _ ⟨_, rfl⟩
        apply (watchRun_meets (List.forall_mem_cons.mp decoded).2 _).mono
        rintro outcome _ ⟨failed, events, calls, follows, rfl⟩
        obtain ⟨frames, files, front, shaped, longest, lengths, rfl, identities⟩ := follows_longest follows
        exact ⟨failed, .inl ⟨raw :: frames, events, files, longest_cons ready front shaped longest, lengths, rfl,
          identities⟩⟩
      · rintro _ _ ⟨failed, _⟩
        cases failed
    · cases checked : checkReady raw with
      | ok _ => exact absurd (checkReady_eq_ok.mp checked) ready
      | error e => exact ⟨⟨e, rfl⟩, .inr ⟨not_shaped (by simpa using ready), rfl⟩⟩

/-- A run ends with an error. Until then it drains after the ready frame, and for
each event frame of the longest prefix of the protocol's shape it has the queue
ingest the event, acknowledges it, and drains if it was new. No other frame makes
it do anything. -/
theorem longest_prefix_accepted (decoded : ∀ raw ∈ raws, Decoded raw) (served : ∀ call ∈ trace, Served limits call)
    (ran : Run Program.Step (watchRun limits py config false raws) trace (Program.lift outcome)) :
    (∃ e, outcome = .error e) ∧ Accepts limits py config raws trace := by
  have allowed : Program.Allowed (serving limits) [] trace := by
    rintro before call after rfl
    exact served call (by simp)
  have ended := ((watchRun_accepts limits py config decoded).run ran allowed).1
  cases outcome <;> exact ended

/-- The frame of an event. -/
def frameOf (event : HeyEvent) : Members :=
  [(text "type", .str (text "event")), (text "event", .obj event.toDict)]

/-- The frame of a valid event of the account is an event frame. -/
theorem eventFrame_frameOf (valid : event.Valid) (account : event.accountId = config.accountId) :
    EventFrame config (frameOf event) event := by
  refine ⟨fun _ => Iff.rfl, rfl, ⟨_, rfl, fun _ => Iff.rfl, ?_⟩, valid, account⟩
  exact fun member held => HeyEvent.lookup_toDict.mpr held

/-- A ready frame, a greeting, and a fatal frame. -/
def sampleFrames : List Members :=
  [[(text "type", .str (text "ready")), (text "protocol_version", .int 2)],
    frameOf (greeting 1 1),
    [(text "type", .str (text "fatal")), (text "error", .str (text "gone"))]]

def sampleConfig : Config := ⟨5, text "me@hey.com", [], true⟩

private theorem sample_decoded : ∀ raw ∈ sampleFrames, Decoded raw := by
  have small : ∀ n : Nat, n < 10 → n < 10 ^ digitLimit := fun n less =>
    less.trans_le (Nat.pow_le_pow_right (by decide : 0 < 10) digitLimit_pos)
  have payload : Kept rejectDuplicateKeys (.obj (greeting 1 1).toDict) := by
    refine ⟨if_pos ?_, ?_⟩
    · rw [HeyEvent.toDict_keys]
      exact HeyEvent.eventKeys_distinct
    · simp [KeptMembers, Kept, HeyEvent.toDict, greeting, small]
  have strings : Writable (.obj (greeting 1 1).toDict) := by
    simp [Writable, WritableMembers, HeyEvent.toDict, greeting, identityOf, topicUrl]
  have written : ∀ raw, Kept rejectDuplicateKeys (.obj raw) → Writable (.obj raw) → Decoded raw :=
    fun raw kept strings => ⟨⟨render (.obj raw), loads_render kept⟩, strings⟩
  simp only [sampleFrames, List.forall_mem_cons]
  refine ⟨written _ ⟨rfl, trivial, small 2 (by decide), trivial⟩ ?_, written _ ⟨rfl, trivial, payload, trivial⟩ ?_,
    written _ ⟨rfl, trivial, trivial, trivial⟩ ?_, by simp⟩
  · simp [Writable, WritableMembers]
  · exact ⟨scalars_text _, scalars_text _, scalars_text _, strings, trivial⟩
  · simp [Writable, WritableMembers]

private theorem sample_saved : ∃ encoded, save .default [(greeting 1 1).identity] [(greeting 1 1).toDict] = .ok encoded := by
  have valid : (greeting 1 1).Valid := greeting_valid (by decide) (by decide) (by decide) (by decide)
  exact save_of_writable (by simpa using valid) (by decide +kernel : writable _ _ [greeting 1 1] = true)

private theorem sample_room : Room .default (greeting 1 1) none ⟨[], []⟩ where
  loaded := rfl
  strings := writable_document.mpr ⟨by simp, by simp⟩
  pending := by decide
  bytes := by
    obtain ⟨encoded, saved⟩ := sample_saved
    rw [List.nil_append, List.nil_append, saved]
    simp

private theorem ingestion_of (answered : ingest limits event (authorized py config) fault file = answer) :
    ingestion limits py config event (file, fault) = answer.result := by
  rw [ingestion, answered]

private theorem sample_ingested : ingestion .default .ascii sampleConfig (greeting 1 1) (none, .none) = .ok true := by
  obtain ⟨encoded, saved⟩ := sample_saved
  have accepted := ingest_accepts (holds_none .default) (by decide : authorized .ascii sampleConfig (greeting 1 1) = true)
    (by simp [Fifo.empty]) (by decide) saved
  exact ingestion_of accepted

theorem longest_prefix_accepted_sample : Accepts .default .ascii sampleConfig sampleFrames
    (drained :: exchange .default .ascii sampleConfig (greeting 1 1) none) := by
  have valid : (greeting 1 1).Valid := greeting_valid (by decide) (by decide) (by decide) (by decide)
  have frame : EventFrame sampleConfig (frameOf (greeting 1 1)) (greeting 1 1) := eventFrame_frameOf valid rfl
  have served : ∀ call ∈ drained :: exchange .default .ascii sampleConfig (greeting 1 1) none, Served .default call := by
    simp only [exchange, sample_ingested, List.cons_append, List.nil_append, List.forall_mem_cons, drained, Served]
    exact ⟨rfl, ⟨none, _, rfl, sample_room⟩, rfl, rfl, by simp⟩
  have stopped : watchRun .default .ascii sampleConfig true (sampleFrames.drop 2) =
      Program.lift (.error (.runtime (text "HEY SDK watch reported a fatal error: " ++ text "gone"))) := rfl
  have followed : Run Program.Step (watchRun .default .ascii sampleConfig true (sampleFrames.drop 1))
      (exchange .default .ascii sampleConfig (greeting 1 1) none ++ [])
      (watchRun .default .ascii sampleConfig true (sampleFrames.drop 2)) :=
    Program.run_bind_of (processWatchLine_runs frame sample_ingested) .nil
  rw [List.append_nil, stopped] at followed
  exact (longest_prefix_accepted sample_decoded served (.cons .answered followed)).2

end HermesHey.WatchStream
