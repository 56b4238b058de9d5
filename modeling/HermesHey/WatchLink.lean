import HermesHey.CursorRuns
import HermesHey.QueueRefinement
import HermesHey.SidecarRunner

/-! The watch sidecar and the adapter's supervisor, joined by two pipes, as a
transition system. Every connection is one sidecar process with the supervisor
that reads it; a restart on either side is a new connection, and an old sidecar
may go on for a while. Both sides share the cursor file and the queue's file,
which outlive every process. -/
namespace HermesHey.WatchLink
open Library Library.Json HermesHey.Core Adapter Sidecar

/-- What does not change. -/
structure Setup where
  lib : GoLib
  py : PyText
  limits : DurableQueue.Limits

/-- A sidecar process: the call it is in, and how far its calls to the outside have brought it. -/
structure Watcher where
  mode : WatchMode
  trace : History

/-- Where `_watch_supervisor` is with a connection. -/
inductive Phase where
  /-- No ready frame has been read. -/
  | greeting
  | idle
  /-- In `process_watch_line`, before `ingest`. -/
  | checked (event : HeyEvent)
  /-- In `process_watch_line`, after `ingest` has returned. -/
  | ingested (event : HeyEvent)
  /-- The connection was given up. -/
  | over
  deriving DecidableEq

structure Connection where
  /-- The sidecar's `--own-email`. -/
  ownEmail : Text
  config : Config
  sidecar : Option Watcher
  /-- What the sidecar has written and the supervisor has not read. -/
  output : Text
  /-- The acknowledgements that the sidecar has not read. -/
  acks : List Text
  supervisor : Phase

/-- A call of `ingest` by `process_watch_line`. -/
structure Handoff where
  connection : Nat
  event : HeyEvent
  /-- What the policy said. -/
  authorized : Bool
  /-- The queue's file after the call. -/
  file : DurableQueue.File

structure World where
  cursors : Option CursorState
  queue : DurableQueue.File
  connections : Nat → Option Connection
  /-- Every event ever handed to the queue, oldest first. -/
  handoffs : List Handoff

/-- No process has been started, on any two files. -/
structure World.Initial (s : World) : Prop where
  connections : s.connections = fun _ => none
  handoffs : s.handoffs = []

def World.set (s : World) (i : Nat) (connection : Connection) : World :=
  { s with connections := Function.update s.connections i (some connection) }

@[simp] theorem World.set_self (s : World) (i : Nat) (connection : Connection) :
    (s.set i connection).connections i = some connection := Function.update_self ..

theorem World.set_other (s : World) (connection : Connection) (other : j ≠ i) :
    (s.set i connection).connections j = s.connections j := Function.update_of_ne other ..

/-- Every supervisor is gone. -/
def World.deserted (s : World) : World :=
  { s with connections := fun i => (s.connections i).map fun held => { held with supervisor := .over } }

/-! ## The sidecar's side -/

/-- What a call of the sidecar may be answered. Any other call may be answered anything. -/
def Answers (s : World) (connection : Connection) : Sigma Answer → Prop
  | ⟨.listBoxes, answer⟩ => ∀ boxes, answer = Except.ok (some boxes) → (boxes.map Box.id).Nodup
  | ⟨.loadCursors, answer⟩ => ∀ found, answer = Except.ok found → found = s.cursors
  | ⟨.readAck _, answer⟩ => ∀ ack, answer = Except.ok (some ack) → connection.acks.head? = some ack
  | _ => True

/-- The acknowledgements left after a call. -/
def unread (acks : List Text) : Sigma Answer → List Text
  | ⟨.readAck _, answer⟩ =>
    match answer with
    | Except.ok (some _) => acks.tail
    | _ => acks
  | _ => acks

/-- The connection after an answered call. -/
def Connection.after (connection : Connection) (watcher : Watcher) (event : Sigma Answer) : Connection :=
  { connection with
    sidecar := some { watcher with trace := watcher.trace ++ [event] }
    output := connection.output ++ stdout [event]
    acks := unread connection.acks event }

/-- The line that `main` writes for an error of the watch. -/
def fatalLine (lib : GoLib) (err : GoError) : Text :=
  if err.isCanceled then [] else lib.marshal (.obj (fatalFrame lib err)) ++ text "\n"

/-! ## The adapter's side -/

/-- One line of a stream, and the rest. -/
def splitLine (output : Text) : Text × Text :=
  (output.takeWhile (· ≠ ch '\n'), (output.dropWhile (· ≠ ch '\n')).drop 1)

/-- `_watch_supervisor` and `process_watch_line`, from a line to the call of `ingest`. -/
def received (config : Config) (phase : Phase) (line : Text) : Phase :=
  match phase, decodeSidecarJson line with
  | .greeting, .ok (.obj raw) =>
    match parseFatalFrame raw, parseReadyFrame raw 2 with
    | .ok none, .ok _ => .idle
    | _, _ => .over
  | .idle, .ok (.obj raw) =>
    match checkWatchLine config raw with
    | .ok event => .checked event
    | .error _ => .over
  | _, _ => .over

/-- `self.queue.ingest(event, self._authorized)` -/
def ingestion (setup : Setup) (s : World) (connection : Connection) (event : HeyEvent) (fault : DurableQueue.Fault) :
    DurableQueue.Answer Bool :=
  DurableQueue.ingest setup.limits event (authorized setup.py connection.config) fault s.queue

/-- `process_watch_line` after `ingest`: an exception ends the connection. -/
def afterIngest (event : HeyEvent) (result : Except PyError Bool) : Phase :=
  match result with
  | .ok _ => .ingested event
  | .error _ => .over

/-! ## Steps -/

inductive Act where
  | connect (i : Nat) (ownEmail : Text) (config : Config)
  | call (i : Nat) (event : Sigma Answer)
  | poll (i : Nat)
  | exit (i written : Nat)
  | crashSidecar (i : Nat)
  | receive (i : Nat)
  | ingest (i : Nat) (fault : DurableQueue.Fault)
  | acknowledge (i : Nat)
  | hangUp (i : Nat)
  | crashAdapter
  | complete (identity : Text) (fault : DurableQueue.Fault)

/-- The sidecar's code after the calls it has made. -/
def Watcher.At (setup : Setup) (connection : Connection) (watcher : Watcher) (rest : Go Unit) : Prop :=
  Run Program.Step (watcher.mode.program setup.lib connection.ownEmail) watcher.trace rest

inductive Step (setup : Setup) : World → Act → World → Prop where
  | connect (fresh : s.connections i = none) :
      Step setup s (.connect i ownEmail config) (s.set i {
        ownEmail, config, sidecar := some ⟨.initializing, []⟩, output := [], acks := [], supervisor := .greeting })
  | call (here : s.connections i = some connection) (running : connection.sidecar = some watcher)
      (calls : watcher.At setup connection (.call event.1 next)) (answers : Answers s connection event) :
      Step setup s (.call i event)
        (World.set { s with cursors := afterCall s.cursors event } i (connection.after watcher event))
  /-- `initialize` or a `poll` has returned, and the next one starts. -/
  | poll (here : s.connections i = some connection) (running : connection.sidecar = some watcher)
      (returned : watcher.At setup connection (.pure ())) :
      Step setup s (.poll i) (s.set i { connection with sidecar := some ⟨.polling, []⟩ })
  /-- The watch has failed, and `main` writes as much of the fatal frame as it can. -/
  | exit (here : s.connections i = some connection) (running : connection.sidecar = some watcher)
      (failed : watcher.At setup connection (.fail err)) :
      Step setup s (.exit i written) (s.set i { connection with
        sidecar := none, output := connection.output ++ (fatalLine setup.lib err).take written })
  | crashSidecar (here : s.connections i = some connection) :
      Step setup s (.crashSidecar i) (s.set i { connection with sidecar := none })
  | receive (here : s.connections i = some connection)
      (waiting : connection.supervisor = .greeting ∨ connection.supervisor = .idle)
      (ended : ch '\n' ∈ connection.output ∨ connection.sidecar = none) :
      Step setup s (.receive i) (s.set i { connection with
        output := (splitLine connection.output).2
        supervisor := received connection.config connection.supervisor (splitLine connection.output).1 })
  | ingest (here : s.connections i = some connection) (checked : connection.supervisor = .checked event) :
      Step setup s (.ingest i fault) (World.set { s with
          queue := (ingestion setup s connection event fault).file
          handoffs := s.handoffs ++ [⟨i, event, authorized setup.py connection.config event,
            (ingestion setup s connection event fault).file⟩] } i
        { connection with supervisor := afterIngest event (ingestion setup s connection event fault).result })
  | acknowledge (here : s.connections i = some connection) (ingested : connection.supervisor = .ingested event) :
      Step setup s (.acknowledge i) (s.set i { connection with
        acks := connection.acks ++ [event.identity], supervisor := .idle })
  /-- An exception of the supervisor, the end of the stream, or `disconnect`. -/
  | hangUp (here : s.connections i = some connection) :
      Step setup s (.hangUp i) (s.set i { connection with supervisor := .over })
  | crashAdapter :
      Step setup s .crashAdapter s.deserted
  /-- The processing of an event ends. -/
  | complete :
      Step setup s (.complete identity fault)
        { s with queue := (DurableQueue.complete setup.limits identity fault s.queue).file }

end HermesHey.WatchLink
