import Mathlib.Tactic.Simps.Basic
import HermesHey.Adapter
import HermesHey.Library.ClaimTable
import HermesHey.QueueRefinement

/-! The dispatch of pending events by any number of adapters that share one
state path, as a transition system. A step is what a task does between two
awaits, with one exception in the direction of more interleavings: each turn of
the loop of `_drain_pending` is a step of its own. -/
namespace HermesHey.Dispatch
open Library Library.Json HermesHey.Core Adapter DurableQueue

/-- What does not change: the adapters' configurations and the queue's limits. -/
structure Setup where
  py : PyText
  limits : Limits
  adapters : Nat → Config

/-- Where a drain is. -/
inductive Phase where
  | walking
  /-- In `handle_message`, which has not registered the event yet. -/
  | handling (event : HeyEvent)
  /-- In `handle_message`, which has registered the event. -/
  | registered
  deriving DecidableEq

/-- A running `_drain_pending`, with what is left of the list of pending events. -/
structure Drain where
  adapter : Nat
  ahead : List HeyEvent
  phase : Phase

/-- A registered event whose `on_processing_complete` has not ended. -/
structure Processing where
  adapter : Nat
  event : HeyEvent

inductive SendPhase where
  /-- About to run `send`, for the first time or after a back-off. -/
  | attempting
  /-- In `run_blocking`. -/
  | calling (mutation : Nat)
  /-- Cancelled in `run_blocking`. -/
  | abandoned (mutation : Nat)
  deriving DecidableEq

/-- A running `_send_with_retry`. -/
structure Send where
  processing : Nat
  chat : Text
  content : Text
  left : Nat
  phase : SendPhase

/-- A call of `client.reply` or `client.comment`, and the identity it is made for. -/
structure Mutation where
  send : Nat
  thread : Int
  content : Text
  identity : Text
  method : Method
  outcome : Option Outcome

abbrev Claims := Int → Option Text

structure State where
  file : File
  /-- What `_is_sender_authorized` of an adapter answers now. -/
  gateway : Nat → Text → Text → Option Bool
  /-- `_claims` of the state path. -/
  claims : Claims
  drains : Nat → Option Drain
  processings : Nat → Option Processing
  sends : Nat → Option Send
  /-- Every mutation ever made. -/
  mutations : Nat → Option Mutation

/-- A process that has just started, on any state file. -/
structure State.Initial (s : State) : Prop where
  claims : s.claims = fun _ => none
  drains : s.drains = fun _ => none
  processings : s.processings = fun _ => none
  sends : s.sends = fun _ => none
  mutations : s.mutations = fun _ => none

/-! ## The code between two awaits -/

/-- `_claim` -/
def claim (claims : Claims) (event : HeyEvent) : Option Claims :=
  if (claims event.threadId).isSome then none
  else some (Function.update claims event.threadId (some event.identity))

/-- `_release_claim` -/
def releaseClaim (claims : Claims) (identity : Text) : Claims := fun thread =>
  if claims thread = some identity then none else claims thread

/-- A released thread is free. -/
theorem releaseClaim_self (claimed : claims thread = some identity) : releaseClaim claims identity thread = none := by
  rw [releaseClaim, if_pos claimed]

/-- How one turn of the loop of `_drain_pending` ends. -/
inductive Turn where
  | raised (file : File)
  | passed (file : File)
  | handed (claims : Claims)

/-- One turn of the loop of `_drain_pending`. -/
def turn (setup : Setup) (s : State) (adapter : Nat) (event : HeyEvent) (fault : Fault) : Turn :=
  let config := setup.adapters adapter
  if event.accountId ≠ config.accountId then .raised s.file
  else if ¬ authorized setup.py config event then
    match (complete setup.limits event.identity fault s.file).result with
    | .error _ => .raised (complete setup.limits event.identity fault s.file).file
    | .ok _ => .passed (complete setup.limits event.identity fault s.file).file
  else if s.gateway adapter event.senderEmail event.contextId = some false then .passed s.file
  else
    match claim s.claims event with
    | none => .passed s.file
    | some claims => .handed claims

/-- `_claimed_event` -/
def claimedEvent (setup : Setup) (s : State) (thread : Int) (fault : Fault) :
    Except PyError (Option HeyEvent) :=
  match s.claims thread with
  | none => .ok none
  | some identity => do
    let events ← pending setup.limits fault s.file
    return events.find? fun event => event.identity = identity ∧ event.threadId = thread

/-- `send` up to the mutation: the thread and the claimed event. -/
def beforeMutation (setup : Setup) (s : State) (chat : Text) (fault : Fault) :
    Except PyError (Int × Option HeyEvent) := do
  let thread ← parseContextId chat
  return (thread, ← claimedEvent setup s thread fault)

/-- The mutation of an event kind. -/
def methodOf (kind : Text) : Method := if kind = text "comment" then .comment else .reply

/-- The end of a successful `_send_with_retry`. -/
def completeClaimed (setup : Setup) (s : State) (thread : Int) (fault : Fault) : File :=
  match s.claims thread with
  | none => s.file
  | some identity =>
    if identity = [] then s.file else (complete setup.limits identity fault s.file).file

/-! ## Steps -/

inductive Action where
  | drainStart (drain adapter : Nat) (fault : Fault)
  | drainTurn (drain : Nat) (fault : Fault)
  | register (drain processing : Nat)
  | handleReturns (drain : Nat)
  | handleRaises (drain : Nat)
  | drainCancelled (drain : Nat)
  | processingComplete (processing : Nat) (fault : Fault)
  | sendStart (send processing : Nat) (chat content : Text) (retries : Nat)
  | sendAttempt (send mutation : Nat) (fault : Fault)
  | mutationReturns (mutation : Nat) (outcome : Outcome)
  | sendResumes (send : Nat) (fault : Fault)
  | sendCancelled (send : Nat)
  | sendEnds (send : Nat)
  | ingest (adapter : Nat) (event : HeyEvent) (fault : Fault)
  | gatewayChanges (gateway : Nat → Text → Text → Option Bool)

@[simps] def State.setDrain (s : State) (d : Nat) (drain : Option Drain) : State :=
  { s with drains := Function.update s.drains d drain }

@[simps] def State.setProcessing (s : State) (p : Nat) (processing : Option Processing) : State :=
  { s with processings := Function.update s.processings p processing }

@[simps] def State.setSend (s : State) (i : Nat) (send : Option Send) : State :=
  { s with sends := Function.update s.sends i send }

@[simps] def State.setMutation (s : State) (m : Nat) (mutation : Mutation) : State :=
  { s with mutations := Function.update s.mutations m (some mutation) }

/-- The steps of the process. What a drain, a processing and a send may do next
depends on where they are; what they do then is computed by the functions above. -/
inductive Step (setup : Setup) (s : State) : Action → State → Prop where
  /-- `_drain_pending` lists the pending events, or raises. -/
  | drainStarts : s.drains d = none → pending setup.limits fault s.file = .ok events →
      Step setup s (.drainStart d a fault) (s.setDrain d
        (some { adapter := a, ahead := events, phase := .walking }))
  | drainRefused : s.drains d = none → pending setup.limits fault s.file = .error e →
      Step setup s (.drainStart d a fault) s
  | drainEnds : s.drains d = some drain → drain.phase = .walking → drain.ahead = [] →
      Step setup s (.drainTurn d fault) (s.setDrain d none)
  | drainRaises : s.drains d = some drain → drain.phase = .walking → drain.ahead = event :: rest →
      turn setup s drain.adapter event fault = .raised file →
      Step setup s (.drainTurn d fault) ({ s with file }.setDrain d none)
  | drainPasses : s.drains d = some drain → drain.phase = .walking → drain.ahead = event :: rest →
      turn setup s drain.adapter event fault = .passed file →
      Step setup s (.drainTurn d fault) ({ s with file }.setDrain d (some { drain with ahead := rest }))
  /-- The event is claimed and passed to `handle_message`. -/
  | handOff : s.drains d = some drain → drain.phase = .walking → drain.ahead = event :: rest →
      turn setup s drain.adapter event fault = .handed claims →
      Step setup s (.drainTurn d fault)
        ({ s with claims }.setDrain d (some { drain with ahead := rest, phase := .handling event }))
  | registers : s.drains d = some drain → drain.phase = .handling event → s.processings p = none →
      Step setup s (.register d p) ((s.setDrain d (some { drain with phase := .registered })).setProcessing
        p (some { adapter := drain.adapter, event }))
  | handleReturns : s.drains d = some drain → drain.phase = .registered →
      Step setup s (.handleReturns d) (s.setDrain d (some { drain with phase := .walking }))
  /-- An exception before registering: `except Exception` releases the claim. -/
  | handleRaises : s.drains d = some drain → drain.phase = .handling event →
      Step setup s (.handleRaises d)
        ({ s with claims := releaseClaim s.claims event.identity }.setDrain d none)
  /-- A `CancelledError` is no `Exception`. -/
  | drainCancelled : s.drains d = some drain → drain.phase ≠ .walking →
      Step setup s (.drainCancelled d) (s.setDrain d none)
  /-- `on_processing_complete` reads the pending events before it releases. -/
  | processingCompletes : s.processings p = some processing →
      (∀ i send, s.sends i = some send → send.processing ≠ p) →
      pending setup.limits fault s.file = .ok events →
      Step setup s (.processingComplete p fault)
        ({ s with claims := releaseClaim s.claims processing.event.identity }.setProcessing p none)
  | processingRaises : s.processings p = some processing →
      (∀ i send, s.sends i = some send → send.processing ≠ p) →
      pending setup.limits fault s.file = .error e →
      Step setup s (.processingComplete p fault) (s.setProcessing p none)
  /-- The final send of a processing goes to the chat of its thread. -/
  | sendStarts : s.sends i = none → s.processings p = some processing →
      parseContextId chat = .ok processing.event.threadId →
      Step setup s (.sendStart i p chat content retries)
        (s.setSend i (some { processing := p, chat, content, left := retries, phase := .attempting }))
  | sendMissesEvent : s.sends i = some send → send.phase = .attempting →
      (∀ thread event, beforeMutation setup s send.chat fault ≠ .ok (thread, some event)) →
      Step setup s (.sendAttempt i m fault) (s.setSend i none)
  | sendCalls : s.sends i = some send → send.phase = .attempting →
      beforeMutation setup s send.chat fault = .ok (thread, some event) → s.mutations m = none →
      Step setup s (.sendAttempt i m fault) ((s.setSend i (some { send with phase := .calling m })).setMutation
        m { send := i, thread, content := send.content, identity := event.identity,
            method := methodOf event.kind, outcome := none })
  | mutationReturns : s.mutations m = some mutation → mutation.outcome = none →
      Step setup s (.mutationReturns m outcome) (s.setMutation m { mutation with outcome := some outcome })
  | sendConfirmed : s.sends i = some send → send.phase = .calling m → s.mutations m = some mutation →
      mutation.outcome = some outcome → sendResult setup.py mutation.method.name outcome = .ok sent →
      sent.success = true → parseContextId send.chat = .ok thread →
      Step setup s (.sendResumes i fault)
        ({ s with file := completeClaimed setup s thread fault }.setSend i none)
  | sendRetries : s.sends i = some send → send.phase = .calling m → s.mutations m = some mutation →
      mutation.outcome = some outcome → sendResult setup.py mutation.method.name outcome = .ok sent →
      sent.success = false → sent.retryable = true → send.left = n + 1 →
      Step setup s (.sendResumes i fault)
        (s.setSend i (some { send with left := n, phase := .attempting }))
  | sendFails : s.sends i = some send → send.phase = .calling m → s.mutations m = some mutation →
      mutation.outcome = some outcome →
      (∀ sent, sendResult setup.py mutation.method.name outcome = .ok sent →
        sent.success = false ∧ (sent.retryable = false ∨ send.left = 0)) →
      Step setup s (.sendResumes i fault) (s.setSend i none)
  | sendCancelledWaiting : s.sends i = some send → send.phase = .attempting →
      Step setup s (.sendCancelled i) (s.setSend i none)
  /-- `run_blocking` waits for its worker, unless it is cancelled once more, and
  raises again, whatever the result. -/
  | sendCancelledCalling : s.sends i = some send → send.phase = .calling m →
      Step setup s (.sendCancelled i) (s.setSend i (some { send with phase := .abandoned m }))
  | sendEnds : s.sends i = some send → send.phase = .abandoned m →
      Step setup s (.sendEnds i) (s.setSend i none)
  | ingests : event.accountId = (setup.adapters a).accountId →
      ingest setup.limits event (authorized setup.py (setup.adapters a)) fault s.file = answer →
      Step setup s (.ingest a event fault) { s with file := answer.file }
  | gatewayChanges : Step setup s (.gatewayChanges gateway) { s with gateway }

/-- An action determines its step. -/
theorem step_deterministic (s : State) (action : Action) (t u : State) (first : Step setup s action t)
    (second : Step setup s action u) : t = u := by
  cases first <;> cases second <;> simp_all

/-! ## A small process, for runs on fixed inputs -/

/-- Adapters that allow every sender but their own address. -/
def openSetup : Setup where
  py := .ascii
  limits := .default
  adapters _ := { accountId := 5, ownEmail := text "me@hey.com", allowedSenders := [], allowAllUsers := true }

/-- A process that has just started, with a gateway that authorizes everyone. -/
def idle (file : File) : State where
  file
  gateway _ _ _ := some true
  claims _ := none
  drains _ := none
  processings _ := none
  sends _ := none
  mutations _ := none

theorem idle_initial (file : File) : (idle file).Initial := ⟨rfl, rfl, rfl, rfl, rfl⟩

/-- An event is handed off when its thread is free and nothing refuses it. -/
theorem admitted_handed (account : event.accountId = (setup.adapters a).accountId)
    (permitted : authorized setup.py (setup.adapters a) event = true) (admits : s.gateway = fun _ _ _ => some true)
    (free : s.claims event.threadId = none) :
    turn setup s a event fault = .handed (Function.update s.claims event.threadId (some event.identity)) := by
  have taken : claim s.claims event = some (Function.update s.claims event.threadId (some event.identity)) := by
    have unclaimed : (s.claims event.threadId).isSome = false := by rw [free]; rfl
    rw [claim, unclaimed]
    rfl
  simp [turn, account, permitted, admits, taken]

/-- The send of a claimed event finds it when it is the oldest pending event. -/
theorem claimed_found (valid : event.Valid) (claimed : s.claims event.threadId = some event.identity)
    (listed : pending setup.limits fault s.file = .ok (event :: rest)) :
    beforeMutation setup s event.contextId fault = .ok (event.threadId, some event) := by
  have parsed : parseContextId event.contextId = .ok event.threadId := parseContextId_contextId valid
  have located : claimedEvent setup s event.threadId fault = .ok (some event) := by
    simp only [claimedEvent, claimed, listed, bind, Except.bind, pure, Except.pure, Except.ok.injEq]
    exact List.find?_cons_of_pos (by simp)
  rw [beforeMutation, parsed]
  simp only [bind, Except.bind, located, pure, Except.pure]

/-- In the small process every unclaimed greeting is handed off. -/
theorem greeting_handed (admits : s.gateway = fun _ _ _ => some true) (free : s.claims t = none) :
    turn openSetup s a (greeting t e) fault =
      .handed (Function.update s.claims t (some (greeting t e).identity)) :=
  admitted_handed rfl rfl admits free

/-- The exact confirmation. -/
def okResponse : Outcome := .returned (.obj [(text "ok", .bool true)])

/-- Greetings that can be written are the pending events of some state file. -/
theorem exists_greetings (events : List HeyEvent) (valid : ∀ event ∈ events, event.Valid)
    (distinct : (events.map HeyEvent.identity).Nodup) (capacity : events.length ≤ Limits.default.maxPending)
    (checked : writable .default (events.map HeyEvent.identity) events = true) :
    ∃ file, ∀ fault, fault ≠ .read → pending openSetup.limits fault file = .ok events := by
  obtain ⟨file, holds⟩ := exists_holds valid distinct capacity checked
  exact ⟨file, fun _ readable => pending_holds holds readable⟩

end HermesHey.Dispatch
