import HermesHey.WatchFormat
import HermesHey.WatchLink

/-! No authorized event is lost between the sidecar and the queue: a cursor moves
only past events that were handed to the queue and, where the policy authorized
them, recorded. -/
namespace HermesHey.WatchLink
open Library Library.Json HermesHey.Core Adapter Sidecar

/-- The queue's file remembered the event when `ingest` returned. -/
def Handoff.Recorded (limits : DurableQueue.Limits) (handoff : Handoff) : Prop :=
  ∃ state, DurableQueue.load limits handoff.file = .ok state ∧ handoff.event.identity ∈ state.seen

/-- The connection handed an event of this identity to the queue, which recorded it if it was authorized. -/
def Handed (limits : DurableQueue.Limits) (handoffs : List Handoff) (i : Nat) (identity : Text) : Prop :=
  ∃ handoff ∈ handoffs, handoff.connection = i ∧ handoff.event.identity = identity ∧
    (handoff.authorized = true → handoff.Recorded limits)

/-- Hand-offs are never undone. -/
theorem Handed.mono (handed : Handed limits handoffs i identity) (grown : handoffs ⊆ later) :
    Handed limits later i identity := by
  obtain ⟨handoff, held, kept⟩ := handed
  exact ⟨handoff, grown held, kept⟩

/-- Every acknowledgement of a connection, on its way or read, stands for a hand-off. -/
structure ConnectionSound (setup : Setup) (handoffs : List Handoff) (i : Nat) (connection : Connection) : Prop where
  acks : ∀ identity ∈ connection.acks, Handed setup.limits handoffs i identity
  ingested : ∀ event, connection.supervisor = .ingested event →
    Handed setup.limits handoffs i event.identity
  read : ∀ watcher, connection.sidecar = some watcher → ∀ identity ∈ acknowledged watcher.trace,
    Handed setup.limits handoffs i identity
  allowed : ∀ watcher, connection.sidecar = some watcher →
    Program.Allowed (watchContract setup.lib connection.ownEmail) [] watcher.trace

def Sound (setup : Setup) (s : World) : Prop :=
  ∀ i connection, s.connections i = some connection → ConnectionSound setup s.handoffs i connection

section
variable {setup : Setup} {s t : World} {connection : Connection}

/-- A connection stays sound while hand-offs are added. -/
theorem ConnectionSound.mono (sound : ConnectionSound setup handoffs i connection) (grown : handoffs ⊆ later) :
    ConnectionSound setup later i connection where
  acks identity held := (sound.acks identity held).mono grown
  ingested event held := (sound.ingested event held).mono grown
  read watcher running identity held := (sound.read watcher running identity held).mono grown
  allowed := sound.allowed

/-- A step of one connection keeps the others sound. -/
theorem sound_set (sound : Sound setup s) (same : t.connections = s.connections) (grown : s.handoffs ⊆ t.handoffs)
    (mine : ConnectionSound setup t.handoffs i connection) : Sound setup (t.set i connection) := by
  intro j other held
  by_cases here : j = i
  · subst here
    rw [World.set_self] at held
    cases held
    exact mine
  · rw [World.set_other t connection here, same] at held
    exact (sound j other held).mono grown

private theorem acknowledged_nil : ∀ identity ∈ acknowledged [], Handed limits handoffs i identity := by
  intro identity held
  cases held

private theorem mem_read {event : Sigma Answer} (answers : Answers s connection event) :
    ∀ identity ∈ acknowledged [event], identity ∈ connection.acks := by
  intro identity held
  obtain ⟨⟨request, answer⟩, inside, matched⟩ := List.mem_filterMap.mp held
  cases List.mem_singleton.mp inside
  cases request with
  | readAck eventID =>
    cases answer with
    | error error => cases matched
    | ok line =>
      cases line with
      | none => cases matched
      | some ack =>
        have front := answers ack rfl
        simp only [Option.ite_none_right_eq_some, Option.some.injEq] at matched
        obtain ⟨rfl, rfl⟩ := matched
        exact List.mem_of_mem_head? front
  | _ => cases matched

private theorem unread_subset (acks : List Text) (event : Sigma Answer) : unread acks event ⊆ acks := by
  obtain ⟨request, answer⟩ := event
  cases request with
  | readAck eventID =>
    cases answer with
    | error error => exact List.Subset.refl _
    | ok line =>
      cases line with
      | none => exact List.Subset.refl _
      | some ack => exact (List.tail_sublist acks).subset
  | _ => exact List.Subset.refl _

private theorem may_of_answers {event : Sigma Answer} (answers : Answers s connection event) (history : History) :
    (watchContract lib ownEmail).may history event.1 event.2 := by
  obtain ⟨request, answer⟩ := event
  cases request with
  | listBoxes => exact answers
  | _ => exact trivial

/-- Every step of the two processes keeps the invariant. -/
theorem sound_step (sound : Sound setup s) (taken : Step setup s act t) : Sound setup t := by
  cases taken with
  | connect fresh =>
    apply sound_set sound rfl (List.Subset.refl _)
    refine ⟨by simp, (fun event same => nomatch same), ?_, ?_⟩
    · intro watcher running
      cases running
      exact acknowledged_nil
    · intro watcher running
      cases running
      exact Program.Allowed.nil
  | @call connection watcher _ event i next here running calls answers =>
    have before := sound i connection here
    apply sound_set sound rfl (List.Subset.refl _)
    constructor
    · exact fun identity held => before.acks identity (unread_subset connection.acks event held)
    · exact before.ingested
    · intro now same
      cases same
      intro identity held
      rw [acknowledged_append] at held
      rcases List.mem_append.mp held with old | new
      · exact before.read watcher running identity old
      · exact before.acks identity (mem_read answers identity new)
    · intro now same
      cases same
      exact (before.allowed watcher running).snoc (may_of_answers answers _)
  | @poll connection watcher _ i here running returned =>
    have before := sound i connection here
    apply sound_set sound rfl (List.Subset.refl _)
    refine ⟨before.acks, before.ingested, ?_, ?_⟩
    · intro now same
      cases same
      exact acknowledged_nil
    · intro now same
      cases same
      exact Program.Allowed.nil
  | @exit connection watcher _ i written err here running failed =>
    have before := sound i connection here
    apply sound_set sound rfl (List.Subset.refl _)
    exact ⟨before.acks, before.ingested, (fun _ gone => nomatch gone), (fun _ gone => nomatch gone)⟩
  | @crashSidecar connection _ i here =>
    have before := sound i connection here
    apply sound_set sound rfl (List.Subset.refl _)
    exact ⟨before.acks, before.ingested, (fun _ gone => nomatch gone), (fun _ gone => nomatch gone)⟩
  | @receive connection _ i here waiting ended =>
    have before := sound i connection here
    apply sound_set sound rfl (List.Subset.refl _)
    refine ⟨before.acks, ?_, before.read, before.allowed⟩
    intro event same
    exfalso
    unfold received at same
    repeat' split at same
    all_goals cases same
  | @ingest connection _ i fault event here checked =>
    have before := sound i connection here
    have grown := List.subset_append_left s.handoffs [⟨i, event, authorized setup.py connection.config event,
      (ingestion setup s connection event fault).file⟩]
    have later := before.mono grown
    refine sound_set sound ?_ grown ?_
    · rfl
    refine ⟨later.acks, ?_, later.read, later.allowed⟩
    intro other same
    cases result : (ingestion setup s connection event fault).result with
    | error e =>
      rw [result] at same
      cases same
    | ok accepted =>
      rw [result] at same
      cases same
      refine ⟨_, List.mem_append_right _ (List.mem_singleton_self _), rfl, rfl, ?_⟩
      exact fun authorized => DurableQueue.ingest_records authorized result
  | @acknowledge connection _ i event here ingested =>
    have before := sound i connection here
    apply sound_set sound rfl (List.Subset.refl _)
    refine ⟨?_, (fun event same => nomatch same), before.read, before.allowed⟩
    intro identity held
    rcases List.mem_append.mp held with old | new
    · exact before.acks identity old
    · rw [List.mem_singleton.mp new]
      exact before.ingested event ingested
  | @hangUp connection _ i here =>
    have before := sound i connection here
    apply sound_set sound rfl (List.Subset.refl _)
    exact ⟨before.acks, (fun event same => nomatch same), before.read, before.allowed⟩
  | crashAdapter =>
    intro i held found
    obtain ⟨connection, here, rfl⟩ := Option.map_eq_some_iff.mp found
    have before := sound i connection here
    exact ⟨before.acks, (fun event same => nomatch same), before.read, before.allowed⟩
  | complete => exact sound

/-- It holds before either has started. -/
theorem sound_initial (initial : World.Initial s) : Sound setup s := by
  intro i connection here
  rw [initial.connections] at here
  cases here

private theorem saved_of_moved (taken : Step setup s act t)
    (moved : cursorAt s.cursors key ≠ cursorAt t.cursors key) :
    ∃ i connection watcher boxes answer next, act = .call i ⟨.saveCursors boxes, answer⟩ ∧
      s.connections i = some connection ∧ connection.sidecar = some watcher ∧
      watcher.At setup connection (.call (.saveCursors boxes) next) ∧
      cursorAt t.cursors key = boxes.lookup key := by
  cases taken with
  | @call connection watcher _ event i next here running calls answers =>
    obtain ⟨request, answer⟩ := event
    cases request with
    | saveCursors boxes =>
      refine ⟨i, connection, watcher, boxes, answer, next, rfl, here, running, calls, ?_⟩
      cases answer with
      | saved => rfl
      | failedAfter error => rfl
      | failedBefore error => exact absurd rfl moved
    | _ => exact absurd rfl moved
  | _ => exact absurd rfl moved

private theorem loads_unique (first : Sidecar.loads before = [cursors])
    (later : Sidecar.loads (before ++ after) = [cursors']) :
    cursors' = cursors := by
  rw [loads_append, first] at later
  exact (List.cons.inj later).1.symm

end

/-! ## A small link, for a run on fixed inputs -/

def sampleSetup : Setup := ⟨sampleLib, .ascii, .default⟩

def sampleConfig : Config := ⟨5, text "me@example.com", [text "ada@example.com"], false⟩

def samplePair (watcher : Watcher) (output : Text) (acks : List Text) (supervisor : Phase) : Connection where
  ownEmail := text "me@example.com"
  config := sampleConfig
  sidecar := some watcher
  output := output
  acks := acks
  supervisor := supervisor

def sampleWorld (queue : DurableQueue.File) (handoffs : List Handoff) (connection : Connection) : World where
  cursors := sampleFile
  queue := queue
  connections := Function.update (fun _ => none) 0 (some connection)
  handoffs := handoffs

private theorem sampleWorld_set :
    (sampleWorld queue handoffs connection).set 0 connection' = sampleWorld queue handoffs connection' := by
  rw [World.set, sampleWorld, Function.update_idem]
  rfl

private theorem sample_call (ran : Run Program.Step (mode.program sampleLib (text "me@example.com"))
      (trace ++ event :: later) rest)
    (answers : Answers (sampleWorld queue handoffs (samplePair ⟨mode, trace⟩ output acks supervisor))
      (samplePair ⟨mode, trace⟩ output acks supervisor) event)
    (unsaved : ∀ file, afterCall file event = file) :
    Step sampleSetup (sampleWorld queue handoffs (samplePair ⟨mode, trace⟩ output acks supervisor)) (.call 0 event)
      (sampleWorld queue handoffs
        (samplePair ⟨mode, trace ++ [event]⟩ (output ++ stdout [event]) (unread acks event) supervisor)) := by
  obtain ⟨next, calls⟩ := Program.calls_at ran
  have same : World.set { (sampleWorld queue handoffs (samplePair ⟨mode, trace⟩ output acks supervisor)) with
      cursors := afterCall sampleFile event } 0
        ((samplePair ⟨mode, trace⟩ output acks supervisor).after ⟨mode, trace⟩ event) =
      sampleWorld queue handoffs
        (samplePair ⟨mode, trace ++ [event]⟩ (output ++ stdout [event]) (unread acks event) supervisor) := by
    rw [unsaved]
    exact sampleWorld_set
  rw [← same]
  exact .call rfl rfl calls answers

/-- The call needs neither pipe and no file, but the cursor file as it is. -/
structure Detached (event : Sigma Answer) : Prop where
  written : stdout [event] = []
  unread : ∀ acks, unread acks event = acks
  unsaved : ∀ file, afterCall file event = file
  answers : ∀ queue handoffs connection, Answers (sampleWorld queue handoffs connection) connection event

private theorem sample_calls {events : History} (detached : ∀ event ∈ events, Detached event)
    (ran : Run Program.Step (mode.program sampleLib (text "me@example.com")) (trace ++ (events ++ later)) rest) :
    Run (Step sampleSetup) (sampleWorld queue handoffs (samplePair ⟨mode, trace⟩ output acks supervisor))
      (events.map (.call 0)) (sampleWorld queue handoffs (samplePair ⟨mode, trace ++ events⟩ output acks supervisor)) := by
  induction events generalizing trace with
  | nil =>
    rw [List.append_nil]
    exact .nil
  | cons event events ih =>
    obtain ⟨first, others⟩ := List.forall_mem_cons.mp detached
    have answers := first.answers queue handoffs (samplePair ⟨mode, trace⟩ output acks supervisor)
    have taken := sample_call ran answers first.unsaved
    rw [first.written, first.unread, List.append_nil] at taken
    rw [List.cons_append, List.append_cons] at ran
    rw [List.append_cons]
    exact .cons taken (ih others ran)

private theorem detached_listing : ∀ event ∈ sampleListing, Detached event := by
  simp only [sampleListing, List.forall_mem_cons]
  refine ⟨⟨rfl, fun _ => rfl, fun _ => rfl, ?_⟩, ⟨rfl, fun _ => rfl, fun _ => rfl, ?_⟩, by simp⟩
  · intro queue handoffs connection found same
    cases same
    rfl
  · intro queue handoffs connection boxes same
    cases same
    decide

private theorem detached_reads (added : List Posting) : ∀ event ∈ sampleReads added, Detached event := by
  rw [sampleReads, List.forall_mem_append, List.forall_mem_singleton]
  refine ⟨detached_listing, ?_⟩
  exact ⟨rfl, fun _ => rfl, fun _ => rfl, fun _ _ _ => trivial⟩

private theorem detached_hydration : ∀ event ∈ sampleHydration, Detached event := by
  simp only [sampleHydration, List.forall_mem_cons]
  exact ⟨⟨rfl, fun _ => rfl, fun _ => rfl, fun _ _ _ => trivial⟩,
    ⟨rfl, fun _ => rfl, fun _ => rfl, fun _ _ _ => trivial⟩,
    ⟨rfl, fun _ => rfl, fun _ => rfl, fun _ _ _ => trivial⟩, by simp⟩

private theorem sample_write (ran : Run Program.Step (mode.program sampleLib (text "me@example.com"))
    (trace ++ sampleWrite members :: later) rest) :
    Step sampleSetup (sampleWorld queue handoffs (samplePair ⟨mode, trace⟩ [] acks supervisor))
      (.call 0 (sampleWrite members)) (sampleWorld queue handoffs (samplePair ⟨mode, trace ++ [sampleWrite members]⟩
        (sampleLib.marshal (.obj members) ++ text "\n") acks supervisor)) := by
  have written : [] ++ stdout [sampleWrite members] = sampleLib.marshal (.obj members) ++ text "\n" := by
    rw [List.nil_append, stdout, List.flatMap_singleton]
    exact List.take_length
  rw [← written]
  exact sample_call ran trivial fun _ => rfl

private theorem sample_receive (waiting : supervisor = .greeting ∨ supervisor = .idle) (ended : ch '\n' ∈ output)
    (left : (splitLine output).2 = []) (next : received sampleConfig supervisor (splitLine output).1 = later) :
    Step sampleSetup (sampleWorld queue handoffs (samplePair watcher output acks supervisor)) (.receive 0)
      (sampleWorld queue handoffs (samplePair watcher [] acks later)) := by
  have same : (sampleWorld queue handoffs (samplePair watcher output acks supervisor)).set 0
      { samplePair watcher output acks supervisor with
        output := (splitLine output).2, supervisor := received sampleConfig supervisor (splitLine output).1 } =
      sampleWorld queue handoffs (samplePair watcher [] acks later) := by
    rw [left, next]
    exact sampleWorld_set
  rw [← same]
  exact .receive rfl waiting (.inl ended)

private theorem sample_ingested : ∃ encoded, DurableQueue.ingest .default sampleEvent.toHeyEvent
    (authorized .ascii sampleConfig) .none none = ⟨.ok true, some encoded, true⟩ := by
  have valid : sampleEvent.toHeyEvent.Valid := by
    have accepted : parseEventFrame (eventFrame sampleEvent) = .ok sampleEvent.toHeyEvent := by decide +kernel
    exact (eventFrame_accepted (by decide)).mp accepted
  have checked : DurableQueue.writable .default ([sampleEvent.toHeyEvent].map HeyEvent.identity)
      [sampleEvent.toHeyEvent] = true := by decide +kernel
  obtain ⟨encoded, saved⟩ := DurableQueue.save_of_writable (by simpa using valid) checked
  refine ⟨encoded, DurableQueue.ingest_accepts (DurableQueue.holds_none .default) ?_ ?_ ?_ saved⟩
  · decide +kernel
  · exact List.not_mem_nil
  · decide

/-- The calls of the sample poll up to its event's frame. -/
def sampleEmitted : History := sampleReads [samplePosting] ++ sampleHydration ++ [sampleWrite (eventFrame sampleEvent)]

/-- The calls of the sample poll up to its save. -/
def sampleTrace : History :=
  sampleEmitted ++ [⟨.readAck sampleEvent.eventID, Except.ok (some sampleEvent.eventID)⟩]

/-- The call that moves the box. -/
def sampleSave : Sigma Answer := ⟨.saveCursors (sampleCursors.insert (text "11") sampleNext), .saved⟩

private theorem sampleTrace_ran :
    Run Program.Step (poll sampleLib (text "me@example.com")) (sampleTrace ++ [sampleSave]) (.pure ()) :=
  busyPoll_ran

private theorem sample_greeted : ∃ acts, Run (Step sampleSetup) ⟨sampleFile, none, fun _ => none, []⟩ acts
    (sampleWorld none [] (samplePair ⟨.initializing, sampleGreeting⟩ [] [] .idle)) := by
  have connected : Step sampleSetup ⟨sampleFile, none, fun _ => none, []⟩
      (.connect 0 (text "me@example.com") sampleConfig)
      (sampleWorld none [] (samplePair ⟨.initializing, []⟩ [] [] .greeting)) := .connect rfl
  have listed : Run (Step sampleSetup) (sampleWorld none [] (samplePair ⟨.initializing, []⟩ [] [] .greeting)) _
      (sampleWorld none [] (samplePair ⟨.initializing, [] ++ sampleListing⟩ [] [] .greeting)) :=
    sample_calls detached_listing sampleGreeting_ran
  have written : Step sampleSetup
      (sampleWorld none [] (samplePair ⟨.initializing, sampleListing⟩ [] [] .greeting)) _
      (sampleWorld none [] (samplePair ⟨.initializing, sampleGreeting⟩
        (sampleLib.marshal (.obj readyFrame) ++ text "\n") [] .greeting)) := sample_write sampleGreeting_ran
  have greeted : Step sampleSetup (sampleWorld none [] (samplePair ⟨.initializing, sampleGreeting⟩
        (sampleLib.marshal (.obj readyFrame) ++ text "\n") [] .greeting)) _
      (sampleWorld none [] (samplePair ⟨.initializing, sampleGreeting⟩ [] [] .idle)) :=
    sample_receive (.inl rfl) (by decide +kernel) (by decide +kernel) (by decide +kernel)
  exact ⟨_, (Run.cons connected listed).append (.cons written (.cons greeted .nil))⟩

private theorem sample_checked : ∃ acts, Run (Step sampleSetup)
    (sampleWorld none [] (samplePair ⟨.initializing, sampleGreeting⟩ [] [] .idle)) acts
    (sampleWorld none [] (samplePair ⟨.polling, sampleEmitted⟩ [] [] (.checked sampleEvent.toHeyEvent))) := by
  have polled : Step sampleSetup (sampleWorld none [] (samplePair ⟨.initializing, sampleGreeting⟩ [] [] .idle)) (.poll 0)
      (sampleWorld none [] (samplePair ⟨.polling, []⟩ [] [] .idle)) := by
    have same : (sampleWorld none [] (samplePair ⟨.initializing, sampleGreeting⟩ [] [] .idle)).set 0
        { samplePair ⟨.initializing, sampleGreeting⟩ [] [] .idle with sidecar := some ⟨.polling, []⟩ } =
        sampleWorld none [] (samplePair ⟨.polling, []⟩ [] [] .idle) := sampleWorld_set
    rw [← same]
    exact .poll rfl rfl sampleGreeting_ran
  have hydrated : Run (Step sampleSetup) (sampleWorld none [] (samplePair ⟨.polling, []⟩ [] [] .idle)) _
      (sampleWorld none [] (samplePair ⟨.polling, [] ++ (sampleReads [samplePosting] ++ sampleHydration)⟩ [] [] .idle)) :=
    sample_calls (List.forall_mem_append.mpr ⟨detached_reads _, detached_hydration⟩) sampleTrace_ran
  have written : Step sampleSetup
      (sampleWorld none [] (samplePair ⟨.polling, sampleReads [samplePosting] ++ sampleHydration⟩ [] [] .idle)) _
      (sampleWorld none [] (samplePair ⟨.polling, sampleEmitted⟩
        (sampleLib.marshal (.obj (eventFrame sampleEvent)) ++ text "\n") [] .idle)) := sample_write sampleTrace_ran
  have checked : Step sampleSetup (sampleWorld none [] (samplePair ⟨.polling, sampleEmitted⟩
        (sampleLib.marshal (.obj (eventFrame sampleEvent)) ++ text "\n") [] .idle)) _
      (sampleWorld none [] (samplePair ⟨.polling, sampleEmitted⟩ [] [] (.checked sampleEvent.toHeyEvent))) :=
    sample_receive (.inr rfl) (by decide +kernel) (by decide +kernel) (by decide +kernel)
  exact ⟨_, (Run.cons polled hydrated).append (.cons written (.cons checked .nil))⟩

private theorem sample_acknowledged : ∃ acts file, Run (Step sampleSetup)
    (sampleWorld none [] (samplePair ⟨.polling, sampleEmitted⟩ [] [] (.checked sampleEvent.toHeyEvent))) acts
    (sampleWorld file [⟨0, sampleEvent.toHeyEvent, true, file⟩] (samplePair ⟨.polling, sampleTrace⟩ [] [] .idle)) := by
  obtain ⟨encoded, ingested⟩ := sample_ingested
  have authorizes : authorized .ascii sampleConfig sampleEvent.toHeyEvent = true := by decide +kernel
  let emitted := samplePair ⟨.polling, sampleEmitted⟩ [] []
  let handoff : Handoff := ⟨0, sampleEvent.toHeyEvent, true, some encoded⟩
  have stored : Step sampleSetup (sampleWorld none [] (emitted (.checked sampleEvent.toHeyEvent))) (.ingest 0 .none)
      (sampleWorld (some encoded) [handoff] (emitted (.ingested sampleEvent.toHeyEvent))) := by
    have result : ingestion sampleSetup (sampleWorld none [] (emitted (.checked sampleEvent.toHeyEvent)))
        (emitted (.checked sampleEvent.toHeyEvent)) sampleEvent.toHeyEvent .none = ⟨.ok true, some encoded, true⟩ :=
      ingested
    have taken : Step sampleSetup (sampleWorld none [] (emitted (.checked sampleEvent.toHeyEvent))) (.ingest 0 .none) _ :=
      .ingest rfl rfl
    have allowed : authorized sampleSetup.py (emitted (.checked sampleEvent.toHeyEvent)).config
        sampleEvent.toHeyEvent = true := authorizes
    rw [result, allowed] at taken
    have same : (sampleWorld (some encoded) [handoff] (emitted (.checked sampleEvent.toHeyEvent))).set 0
        { emitted (.checked sampleEvent.toHeyEvent) with supervisor := .ingested sampleEvent.toHeyEvent } =
        sampleWorld (some encoded) [handoff] (emitted (.ingested sampleEvent.toHeyEvent)) := sampleWorld_set
    rw [← same]
    exact taken
  have acknowledged : Step sampleSetup (sampleWorld (some encoded) [handoff] (emitted (.ingested sampleEvent.toHeyEvent)))
      (.acknowledge 0) (sampleWorld (some encoded) [handoff]
        (samplePair ⟨.polling, sampleEmitted⟩ [] [sampleEvent.eventID] .idle)) := by
    have same : (sampleWorld (some encoded) [handoff] (emitted (.ingested sampleEvent.toHeyEvent))).set 0
        { emitted (.ingested sampleEvent.toHeyEvent) with
          acks := [] ++ [sampleEvent.toHeyEvent.identity], supervisor := .idle } =
        sampleWorld (some encoded) [handoff] (samplePair ⟨.polling, sampleEmitted⟩ [] [sampleEvent.eventID] .idle) :=
      sampleWorld_set
    rw [← same]
    exact .acknowledge rfl rfl
  have read : Step sampleSetup (sampleWorld (some encoded) [handoff]
        (samplePair ⟨.polling, sampleEmitted⟩ [] [sampleEvent.eventID] .idle))
      (.call 0 ⟨.readAck sampleEvent.eventID, Except.ok (some sampleEvent.eventID)⟩)
      (sampleWorld (some encoded) [handoff] (samplePair ⟨.polling, sampleTrace⟩ [] [] .idle)) := by
    refine sample_call sampleTrace_ran ?_ fun _ => rfl
    intro ack same
    cases same
    rfl
  exact ⟨_, _, .cons stored (.cons acknowledged (.cons read .nil))⟩

/-! ## The two processes lose nothing -/

/-- Whenever a cursor has moved to the successor that its changes named, the poll that moved
it had handed over all of the box's events, and the authorized ones had been recorded. -/
theorem no_event_lost {setup : Setup} {s t : World} (initial : World.Initial start)
    (ran : Run (Step setup) start acts s)
    (taken : Step setup s act t) (before : cursorAt s.cursors key = some cursor)
    (after : cursorAt t.cursors key = some next) (moved : cursor ≠ next) :
    ∃ i connection watcher boxes answer, act = .call i ⟨.saveCursors boxes, answer⟩ ∧
      s.connections i = some connection ∧ connection.sidecar = some watcher ∧
      ∀ box changes, ⟨.allChanges box cursor, Except.ok (some changes)⟩ ∈ watcher.trace →
        decimalInt box = key → changes.nextCursor = some next →
          ∀ event, (key, event) ∈ hydratedEvents watcher.trace →
            isOwn setup.lib connection.ownEmail event = false →
              Handed setup.limits s.handoffs i event.eventID := by
  have sound : Sound setup s := Run.invariant (fun _ _ _ => sound_step) ran (sound_initial initial)
  have differs : cursorAt s.cursors key ≠ cursorAt t.cursors key := by
    rw [before, after]
    exact fun same => moved (Option.some.inj same)
  obtain ⟨i, connection, watcher, boxes, answer, rest, rfl, here, running, calls, written⟩ :=
    saved_of_moved taken differs
  refine ⟨i, connection, watcher, boxes, answer, rfl, here, running, ?_⟩
  intro box changes asked keyed _ event hydrated foreign
  have mine := sound i connection here
  have meets : Program.Meets (watchContract setup.lib connection.ownEmail) (Program.Returns fun _ _ => True) []
      (watcher.mode.program setup.lib connection.ownEmail) := by
    cases watcher.mode with
    | initializing => exact initializeWatch_meets setup.lib connection.ownEmail
    | polling => exact poll_meets setup.lib connection.ownEmail
  obtain ⟨reached, kept⟩ := meets.run calls (mine.allowed watcher running)
  obtain ⟨loaded, loads, keeps⟩ := reached.1
  obtain ⟨front, back, split⟩ := List.append_of_mem asked
  obtain ⟨loaded', early, found⟩ := kept front _ back split
  rw [List.nil_append] at early loads
  have same : loaded = loaded' := by
    rw [split] at loads
    exact loads_unique early loads
  rw [keyed, ← same] at found
  rcases keeps key cursor found with unmoved | ⟨_, _, _, complete⟩
  · rw [written, unmoved] at after
    exact absurd (Option.some.inj after) moved
  · exact mine.read watcher running event.eventID (complete event hydrated foreign)

/-- In the sample run the box moves after its event was recorded. -/
theorem no_event_lost_sample : ∃ start acts s t, World.Initial start ∧ Run (Step sampleSetup) start acts s ∧
    Step sampleSetup s (.call 0 sampleSave) t ∧ cursorAt s.cursors (text "11") = some sampleCursor ∧
      cursorAt t.cursors (text "11") = some sampleNext ∧
        Handed sampleSetup.limits s.handoffs 0 sampleEvent.eventID := by
  obtain ⟨_, greeted⟩ := sample_greeted
  obtain ⟨_, checked⟩ := sample_checked
  obtain ⟨_, file, acknowledged⟩ := sample_acknowledged
  have ran := greeted.append (checked.append acknowledged)
  obtain ⟨next, calls⟩ := Program.calls_at sampleTrace_ran
  have moved : Step sampleSetup (sampleWorld file [⟨0, sampleEvent.toHeyEvent, true, file⟩]
      (samplePair ⟨.polling, sampleTrace⟩ [] [] .idle)) (.call 0 sampleSave) _ :=
    .call rfl rfl calls trivial
  have before : cursorAt sampleFile (text "11") = some sampleCursor := rfl
  have after : cursorAt movedFile (text "11") = some sampleNext := rfl
  refine ⟨_, _, _, _, ⟨rfl, rfl⟩, ran, moved, before, after, ?_⟩
  obtain ⟨i, connection, watcher, boxes, answer, saves, here, running, handed⟩ :=
    no_event_lost ⟨rfl, rfl⟩ ran moved before after (by decide)
  cases saves
  cases here
  cases running
  refine handed 11 ⟨[samplePosting], [], [], some sampleNext, false⟩ ?_ rfl rfl sampleEvent ?_ ?_
  · simp [sampleTrace, sampleEmitted, sampleReads, sampleListing]
  · have hydrated : hydratedEvents sampleTrace = [(text "11", sampleEvent)] := rfl
    rw [hydrated]
    exact List.mem_singleton_self _
  · decide

end HermesHey.WatchLink
