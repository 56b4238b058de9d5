import HermesHey.Dispatch
import HermesHey.Library.Transition

/-! At most one event of a thread is between its hand-off and the end of its
processing, and a mutation is made for the event that is claimed and pending there. -/
namespace HermesHey.Dispatch
open Library Library.Json HermesHey.Core Adapter DurableQueue

/-- Who works on a handed-off event: the drain that is still in
`handle_message`, and after the registration its processing. -/
inductive Holder where
  | drain (d : Nat)
  | processing (p : Nat)
  deriving DecidableEq

/-- The event is between its hand-off and the end of `on_processing_complete`. -/
def Between (s : State) : Holder → HeyEvent → Prop
  | .drain d, event => ∃ drain, s.drains d = some drain ∧ drain.phase = .handling event
  | .processing p, event => ∃ processing, s.processings p = some processing ∧ processing.event = event

/-- Claims exclude each other. -/
abbrev Exclusive (s : State) : Prop :=
  ClaimTable.Exclusive HeyEvent.threadId HeyEvent.identity HeyEvent.Valid s.claims (Between s)

/-- The identity of a valid event names its thread. -/
theorem keyed : ClaimTable.Keyed HeyEvent.threadId HeyEvent.identity HeyEvent.Valid :=
  ⟨fun _ _ valid valid' same => (HeyEvent.identity_inj valid valid' same).1⟩

/-- An event a drain still works with. -/
def Drain.Copy (drain : Drain) (event : HeyEvent) : Prop :=
  event ∈ drain.ahead ∨ drain.phase = .handling event

/-- The drains' copies are events that can be pending. -/
def Copies (s : State) : Prop := ∀ d drain copy, s.drains d = some drain → drain.Copy copy → copy.Valid

/-- A send belongs to a processing of its thread; the mutation it waits for was
made for that processing's event. -/
structure Sending (s : State) : Prop where
  processing : ∀ i send, s.sends i = some send → ∃ processing,
    s.processings send.processing = some processing ∧
      parseContextId send.chat = .ok processing.event.threadId
  calling : ∀ i send m processing, s.sends i = some send → send.phase = .calling m →
    s.processings send.processing = some processing →
      ∃ mutation, s.mutations m = some mutation ∧ mutation.send = i ∧
        mutation.identity = processing.event.identity

/-! ## The holders after a step -/

/-- Who holds an event after one drain has changed. -/
theorem between_setDrain (now : Between (s.setDrain d drain) h event) :
    (h = .drain d ∧ ∃ held, drain = some held ∧ held.phase = .handling event) ∨
      h ≠ .drain d ∧ Between s h event := by
  cases h with
  | processing p => exact .inr ⟨by simp, now⟩
  | drain d' =>
    obtain ⟨held, found, phase⟩ := now
    by_cases same : d' = d
    · subst same
      rw [State.setDrain_drains, Function.update_self] at found
      exact .inl ⟨rfl, held, found, phase⟩
    · rw [State.setDrain_drains, Function.update_of_ne same] at found
      exact .inr ⟨by simpa using same, held, found, phase⟩

/-- Who holds an event after one processing has changed. -/
theorem between_setProcessing (now : Between (s.setProcessing p processing) h event) :
    (h = .processing p ∧ ∃ held, processing = some held ∧ held.event = event) ∨
      h ≠ .processing p ∧ Between s h event := by
  cases h with
  | drain d => exact .inr ⟨by simp, now⟩
  | processing p' =>
    obtain ⟨held, found, same⟩ := now
    by_cases equal : p' = p
    · subst equal
      rw [State.setProcessing_processings, Function.update_self] at found
      exact .inl ⟨rfl, held, found, same⟩
    · rw [State.setProcessing_processings, Function.update_of_ne equal] at found
      exact .inr ⟨by simpa using equal, held, found, same⟩

/-- An event is handed off when its thread is free, and the policy and the gateway authorize its
sender. -/
theorem handed_claim (handed : turn setup s a event fault = .handed claims) :
    s.claims event.threadId = none ∧
      claims = ClaimTable.take s.claims event.threadId event.identity ∧
      authorized setup.py (setup.adapters a) event = true ∧
      s.gateway a event.senderEmail event.contextId ≠ some false := by
  rw [turn] at handed
  split at handed
  · cases handed
  split at handed
  · split at handed <;> cases handed
  rename_i permitted
  split at handed
  · cases handed
  rename_i admitted
  split at handed
  · cases handed
  · rename_i taken
    cases handed
    rw [claim] at taken
    split at taken
    · cases taken
    · rename_i free
      cases taken
      exact ⟨by simpa using free, rfl, by simpa using permitted, admitted⟩

private theorem between_idle (idle : ∀ event, drain.map Drain.phase ≠ some (.handling event)) :
    ∀ h event, Between (s.setDrain d drain) h event → Between s h event := by
  intro h event now
  rcases between_setDrain now with ⟨_, held, rfl, phase⟩ | ⟨_, same⟩
  · exact absurd (congrArg some phase) (idle event)
  · exact same

private theorem between_left (idle : ∀ event, drain.map Drain.phase ≠ some (.handling event)) :
    ∀ h event, Between (s.setDrain d drain) h event → h ≠ .drain d ∧ Between s h event := by
  intro h event now
  rcases between_setDrain now with ⟨_, held, rfl, phase⟩ | other
  · exact absurd (congrArg some phase) (idle event)
  · exact other

private theorem between_ended : ∀ h event, Between (s.setProcessing p none) h event →
    h ≠ .processing p ∧ Between s h event := by
  intro h event now
  rcases between_setProcessing now with ⟨_, _, found, _⟩ | other
  · cases found
  · exact other

/-- Every step keeps the claims exclusive. -/
theorem exclusive_step (copies : Copies s) (before : Exclusive s)
    (taken : Step setup s action t) : Exclusive t := by
  cases taken with
  | drainStarts => exact before.mono (between_idle (by simp))
  | drainRefused => exact before
  | drainEnds => exact before.mono (between_idle (by simp))
  | @drainRaises d drain event rest fault file =>
    exact before.mono fun h x => between_idle (s := { s with file }) (by simp) h x
  | @drainPasses d drain event rest fault file _ walking =>
    exact before.mono fun h x => between_idle (s := { s with file }) (by simp [walking]) h x
  | @handOff d drain event rest fault claims found walking front handed =>
    obtain ⟨free, rfl, _⟩ := handed_claim handed
    have fresh : event.Valid := copies d drain event found (.inl (by simp [front]))
    refine before.take (.drain d) fresh free fun h x now => ?_
    rcases between_setDrain now with ⟨rfl, held, same, phase⟩ | ⟨_, old⟩
    · cases same
      cases phase
      exact .inr ⟨rfl, rfl⟩
    · exact .inl old
  | @registers d drain event p found handling free =>
    have holding : Between s (.drain d) event := ⟨drain, found, handling⟩
    refine before.move (.processing p) holding fun h x now => ?_
    rcases between_setProcessing now with ⟨rfl, held, same, rfl⟩ | ⟨_, old⟩
    · cases same
      exact .inr ⟨rfl, rfl⟩
    · exact .inl (between_left (by simp) h x old)
  | handleReturns => exact before.mono (between_idle (by simp))
  | @handleRaises d drain event found handling =>
    have holding : Between s (.drain d) event := ⟨drain, found, handling⟩
    exact before.release keyed holding
      (between_left (s := { s with claims := releaseClaim s.claims event.identity }) (by simp))
  | drainCancelled => exact before.mono (between_idle (by simp))
  | @processingCompletes p processing fault events found =>
    have holding : Between s (.processing p) processing.event := ⟨processing, found, rfl⟩
    exact before.release keyed holding
      (between_ended (s := { s with claims := releaseClaim s.claims processing.event.identity }))
  | processingRaises => exact before.mono fun h event now => (between_ended h event now).2
  | sendStarts | sendMissesEvent | sendCalls | mutationReturns | sendConfirmed | sendRetries | sendFails
  | sendCancelledWaiting | sendCancelledCalling | sendEnds | ingests | gatewayChanges => exact before

/-! ## The drains' copies after a step -/

/-- A turn changes the file only to complete an event that the policy refuses. -/
theorem turn_file (turned : turn setup s a event fault = .raised file ∨
    turn setup s a event fault = .passed file) :
    file = s.file ∨ authorized setup.py (setup.adapters a) event = false ∧
      file = (complete setup.limits event.identity fault s.file).file := by
  rw [turn] at turned
  split at turned
  · rcases turned with same | same <;> cases same
    exact .inl rfl
  split at turned
  · rename_i refused
    right
    refine ⟨by simpa using refused, ?_⟩
    split at turned <;> rcases turned with same | same <;> cases same <;> rfl
  split at turned
  · rcases turned with same | same <;> cases same
    exact .inl rfl
  split at turned <;> rcases turned with same | same <;> cases same
  exact .inl rfl

private theorem complete_shrinks (limits : Limits) (identity : Text) (fault : Fault) (file : File)
    (held : event ∈ pendingEvents limits (complete limits identity fault file).file) :
    event ∈ pendingEvents limits file := by
  rcases complete_pendingEvents limits identity fault file with ⟨same, _⟩ | same
  · rwa [same] at held
  · rw [same] at held
    exact (List.mem_filter.mp held).1

private theorem completeClaimed_shrinks
    (held : event ∈ pendingEvents setup.limits (completeClaimed setup s thread fault)) :
    event ∈ pendingEvents setup.limits s.file := by
  rw [completeClaimed] at held
  split at held
  · exact held
  · split at held
    · exact held
    · exact complete_shrinks _ _ _ _ held

/-- What is pending after a step was pending before, or is ingested, authorized and was not remembered. -/
theorem pending_step (taken : Step setup s action t) (held : event ∈ pendingEvents setup.limits t.file) :
    event ∈ pendingEvents setup.limits s.file ∨ ∃ a fault, action = .ingest a event fault ∧
      authorized setup.py (setup.adapters a) event = true ∧
        ∀ state, load setup.limits s.file = .ok state → event.identity ∉ state.seen := by
  have turned : ∀ {adapter copy fault file}, turn setup s adapter copy fault = .raised file ∨
      turn setup s adapter copy fault = .passed file → event ∈ pendingEvents setup.limits file →
        event ∈ pendingEvents setup.limits s.file := by
    intro adapter copy fault file ran held
    rcases turn_file ran with rfl | ⟨_, rfl⟩
    · exact held
    · exact complete_shrinks _ _ _ _ held
  cases taken with
  | drainRaises _ _ _ ran => exact .inl (turned (.inl ran) held)
  | drainPasses _ _ _ ran => exact .inl (turned (.inr ran) held)
  | sendConfirmed => exact .inl (completeClaimed_shrinks held)
  | @ingests a stored fault answer _ ran =>
    subst ran
    rcases ingest_pendingEvents setup.limits stored (authorized setup.py (setup.adapters a)) fault s.file with
      same | ⟨permitted, _, _, _, same⟩
    · rw [same] at held
      exact .inl held
    · have grown := same
      rw [same] at held
      rcases List.mem_append.mp held with old | new
      · exact .inl old
      · cases List.mem_singleton.mp new
        refine .inr ⟨a, fault, rfl, permitted, fun state loaded known => ?_⟩
        rw [ingest_remembered loaded known] at grown
        simpa using congrArg List.length grown
  | _ => exact .inl held

/-- The drains after a step: an old one with fewer copies, or one that has just
listed the pending events. -/
theorem drains_step (taken : Step setup s action t) (found : t.drains d = some drain) :
    (∃ old, s.drains d = some old ∧ drain.adapter = old.adapter ∧ drain.ahead ⊆ old.ahead ∧
      ∀ copy, drain.phase = .handling copy → old.Copy copy) ∨
        t.file = s.file ∧ drain.phase = .walking ∧ drain.ahead = pendingEvents setup.limits s.file := by
  have changed : ∀ {r : State} {e : Nat} {new : Option Drain}, r.drains = s.drains →
      (r.setDrain e new).drains d = some drain →
      (∀ now, new = some now → ∃ old, s.drains e = some old ∧ now.adapter = old.adapter ∧ now.ahead ⊆ old.ahead ∧
        ∀ copy, now.phase = .handling copy → old.Copy copy) →
      ∃ old, s.drains d = some old ∧ drain.adapter = old.adapter ∧ drain.ahead ⊆ old.ahead ∧
        ∀ copy, drain.phase = .handling copy → old.Copy copy := by
    intro r e new same found fewer
    rw [State.setDrain_drains, same] at found
    by_cases equal : d = e
    · subst equal
      rw [Function.update_self] at found
      exact fewer drain found
    · rw [Function.update_of_ne equal] at found
      exact ⟨drain, found, rfl, List.Subset.refl _, fun _ handling => .inr handling⟩
  cases taken with
  | @drainStarts e fault events a absent listed =>
    by_cases equal : d = e
    · subst equal
      rw [State.setDrain_drains, Function.update_self] at found
      cases found
      exact .inr ⟨rfl, rfl, pending_eq_ok listed⟩
    · rw [State.setDrain_drains, Function.update_of_ne equal] at found
      exact .inl ⟨drain, found, rfl, List.Subset.refl _, fun _ handling => .inr handling⟩
  | drainEnds => exact .inl (changed rfl found (by simp))
  | drainRaises => exact .inl (changed rfl found (by simp))
  | @drainPasses e old event rest fault file held walking front =>
    refine .inl (changed rfl found ?_)
    rintro _ ⟨⟩
    refine ⟨old, held, rfl, ?_, fun copy handling => .inr handling⟩
    rw [front]
    exact List.subset_cons_self _ _
  | @handOff e old event rest fault claims held walking front =>
    refine .inl (changed rfl found ?_)
    rintro _ ⟨⟩
    refine ⟨old, held, rfl, ?_, fun copy handling => .inl ?_⟩
    · rw [front]
      exact List.subset_cons_self _ _
    · cases handling
      rw [front]
      exact List.mem_cons_self
  | @registers e old event p held handling =>
    rw [State.setProcessing_drains] at found
    refine .inl (changed rfl found ?_)
    rintro _ ⟨⟩
    exact ⟨old, held, rfl, List.Subset.refl _, nofun⟩
  | @handleReturns e old held =>
    refine .inl (changed rfl found ?_)
    rintro _ ⟨⟩
    exact ⟨old, held, rfl, List.Subset.refl _, nofun⟩
  | handleRaises => exact .inl (changed rfl found (by simp))
  | drainCancelled => exact .inl (changed rfl found (by simp))
  | drainRefused | processingCompletes | processingRaises | sendStarts | sendMissesEvent | sendCalls
  | mutationReturns | sendConfirmed | sendRetries | sendFails | sendCancelledWaiting
  | sendCancelledCalling | sendEnds | ingests | gatewayChanges =>
    exact .inl ⟨drain, found, rfl, List.Subset.refl _, fun _ handling => .inr handling⟩

private theorem copies_step (before : Copies s) (taken : Step setup s action t) : Copies t := by
  intro d drain copy found held
  rcases drains_step taken found with ⟨old, was, _, fewer, handled⟩ | ⟨_, walking, listed⟩
  · rcases held with ahead | handling
    · exact before d old copy was (.inl (fewer ahead))
    · exact before d old copy was (handled copy handling)
  · rcases held with ahead | handling
    · rw [listed] at ahead
      exact pendingEvents_valid ahead
    · rw [walking] at handling
      cases handling

/-! ## Sends and their mutations -/

/-- What `send` has read when it calls the mutation. -/
theorem beforeMutation_eq_ok (ran : beforeMutation setup s chat fault = .ok (thread, some event)) :
    parseContextId chat = .ok thread ∧ s.claims thread = some event.identity ∧
      event.threadId = thread ∧ event ∈ pendingEvents setup.limits s.file := by
  simp only [beforeMutation, bind_eq_ok, pure_eq_ok, Prod.mk.injEq] at ran
  obtain ⟨thread', parsed, found, ran, rfl, rfl⟩ := ran
  rw [claimedEvent] at ran
  split at ran
  · cases ran
  · rename_i identity claimed
    simp only [bind_eq_ok, pure_eq_ok] at ran
    obtain ⟨events, listed, located⟩ := ran
    have matched := List.find?_some located
    simp only [decide_eq_true_eq] at matched
    obtain ⟨rfl, sameThread⟩ := matched
    exact ⟨parsed, claimed, sameThread, pending_eq_ok listed ▸ List.mem_of_find?_eq_some located⟩

/-- The claim of an active processing is its own event's. -/
theorem claimed_by_processing (exclusive : Exclusive s) (found : s.processings p = some processing) :
    s.claims processing.event.threadId = some processing.event.identity :=
  exclusive.held (.processing p) processing.event ⟨processing, found, rfl⟩

theorem sends_of_setSend (found : (State.setSend s i new).sends j = some send) :
    (j = i ∧ new = some send) ∨ j ≠ i ∧ s.sends j = some send := by
  by_cases same : j = i
  · subst same
    rw [State.setSend_sends, Function.update_self] at found
    exact .inl ⟨rfl, found⟩
  · rw [State.setSend_sends, Function.update_of_ne same] at found
    exact .inr ⟨same, found⟩

theorem mutations_of_setMutation (found : (State.setMutation s m new).mutations n = some mutation) :
    (n = m ∧ new = mutation) ∨ n ≠ m ∧ s.mutations n = some mutation := by
  by_cases same : n = m
  · subst same
    rw [State.setMutation_mutations, Function.update_self] at found
    exact .inl ⟨rfl, Option.some.inj found⟩
  · rw [State.setMutation_mutations, Function.update_of_ne same] at found
    exact .inr ⟨same, found⟩

private theorem sending_setSend {r s : State} {new : Option Send} (before : Sending s)
    (same : r.sends = s.sends) (processings : r.processings = s.processings) (mutations : r.mutations = s.mutations)
    (moved : ∀ now, new = some now → ∃ old, s.sends i = some old ∧ now.processing = old.processing ∧
      now.chat = old.chat ∧ ∀ m, now.phase ≠ .calling m) : Sending (r.setSend i new) := by
  refine ⟨?_, ?_⟩
  · intro j send found
    rcases sends_of_setSend found with ⟨rfl, now⟩ | ⟨_, old⟩
    · obtain ⟨old, was, kept, chat, _⟩ := moved send now
      rw [State.setSend_processings, processings, kept, chat]
      exact before.processing j old was
    · rw [same] at old
      rw [State.setSend_processings, processings]
      exact before.processing j send old
  · intro j send m processing found calling active
    rw [State.setSend_processings, processings] at active
    rw [State.setSend_mutations, mutations]
    rcases sends_of_setSend found with ⟨rfl, now⟩ | ⟨_, old⟩
    · obtain ⟨_, _, _, _, idle⟩ := moved send now
      exact absurd calling (idle m)
    · rw [same] at old
      exact before.calling j send m processing old calling active

private theorem sending_step (exclusive : Exclusive s) (before : Sending s) (taken : Step setup s action t) :
    Sending t := by
  cases taken with
  | @registers d drain event p found handling free =>
    have other : ∀ i send, s.sends i = some send → send.processing ≠ p := by
      intro i send sent same
      obtain ⟨processing, active, _⟩ := before.processing i send sent
      rw [same, free] at active
      cases active
    refine ⟨fun i send sent => ?_, fun i send m processing sent calling active => ?_⟩
    · rw [State.setProcessing_processings, Function.update_of_ne (other i send sent)]
      exact before.processing i send sent
    · rw [State.setProcessing_processings, Function.update_of_ne (other i send sent)] at active
      exact before.calling i send m processing sent calling active
  | @processingCompletes p ended fault events found idle =>
    refine ⟨fun i send sent => ?_, fun i send m processing sent calling active => ?_⟩
    · rw [State.setProcessing_processings, Function.update_of_ne (idle i send sent)]
      exact before.processing i send sent
    · rw [State.setProcessing_processings, Function.update_of_ne (idle i send sent)] at active
      exact before.calling i send m processing sent calling active
  | @processingRaises p ended fault e found idle =>
    refine ⟨fun i send sent => ?_, fun i send m processing sent calling active => ?_⟩
    · rw [State.setProcessing_processings, Function.update_of_ne (idle i send sent)]
      exact before.processing i send sent
    · rw [State.setProcessing_processings, Function.update_of_ne (idle i send sent)] at active
      exact before.calling i send m processing sent calling active
  | @sendStarts i p processing chat content retries absent active parsed =>
    refine ⟨fun j send found => ?_, fun j send m processing' found calling active' => ?_⟩
    · rcases sends_of_setSend found with ⟨rfl, now⟩ | ⟨_, old⟩
      · cases now
        exact ⟨processing, active, parsed⟩
      · exact before.processing j send old
    · rcases sends_of_setSend found with ⟨rfl, now⟩ | ⟨_, old⟩
      · cases now
        cases calling
      · exact before.calling j send m processing' old calling active'
  | @sendCalls i send fault thread event m found attempting ran free =>
    obtain ⟨parsed, claimed, rfl, _⟩ := beforeMutation_eq_ok ran
    refine ⟨fun j send' found' => ?_, fun j send' m' processing found' calling active => ?_⟩
    · rcases sends_of_setSend found' with ⟨rfl, now⟩ | ⟨_, old⟩
      · cases now
        exact before.processing j send found
      · exact before.processing j send' old
    · rw [State.setMutation_mutations]
      rcases sends_of_setSend found' with ⟨rfl, now⟩ | ⟨_, old⟩
      · cases now
        cases calling
        obtain ⟨processing', active', parsed'⟩ := before.processing j send found
        have same : processing' = processing := Option.some.inj (active'.symm.trans active)
        subst same
        rw [parsed] at parsed'
        have owned := claimed_by_processing exclusive active'
        rw [← Except.ok.inj parsed', claimed] at owned
        exact ⟨_, Function.update_self .., rfl, Option.some.inj owned⟩
      · obtain ⟨mutation, made, owner, identity⟩ := before.calling j send' m' processing old calling active
        have other : m' ≠ m := by
          rintro rfl
          rw [free] at made
          cases made
        exact ⟨mutation, by rw [Function.update_of_ne other]; exact made, owner, identity⟩
  | @mutationReturns m mutation outcome found waiting =>
    refine ⟨before.processing, fun j send m' processing sent calling active => ?_⟩
    obtain ⟨mutation', made, owner, identity⟩ := before.calling j send m' processing sent calling active
    rw [State.setMutation_mutations]
    by_cases same : m' = m
    · subst same
      rw [made] at found
      cases found
      exact ⟨_, Function.update_self .., owner, identity⟩
    · exact ⟨mutation', by rw [Function.update_of_ne same]; exact made, owner, identity⟩
  | @sendConfirmed i send m mutation outcome sent thread fault =>
    exact sending_setSend (r := { s with file := completeClaimed setup s thread fault }) before rfl rfl rfl
      (by simp)
  | sendMissesEvent | sendFails | sendCancelledWaiting | sendEnds =>
    exact sending_setSend before rfl rfl rfl (by simp)
  | @sendRetries i send m mutation outcome sent n fault found =>
    refine sending_setSend before rfl rfl rfl ?_
    rintro _ ⟨⟩
    exact ⟨send, found, rfl, rfl, by simp⟩
  | @sendCancelledCalling i send m found =>
    refine sending_setSend before rfl rfl rfl ?_
    rintro _ ⟨⟩
    exact ⟨send, found, rfl, rfl, by simp⟩
  | drainStarts | drainRefused | drainEnds | drainRaises | drainPasses | handOff | handleReturns
  | handleRaises | drainCancelled | ingests | gatewayChanges =>
    exact ⟨before.processing, before.calling⟩

/-! ## Runs -/

/-- What holds in every state of a run. -/
structure Sound (s : State) : Prop where
  exclusive : Exclusive s
  copies : Copies s
  sending : Sending s

/-- At the start nobody holds an event. -/
theorem State.Initial.nobody (initial : s.Initial) : ¬ Between s h event := by
  intro now
  cases h with
  | drain d =>
    obtain ⟨_, found, _⟩ := now
    rw [initial.drains] at found
    cases found
  | processing p =>
    obtain ⟨_, found, _⟩ := now
    rw [initial.processings] at found
    cases found

/-- The exclusion holds at the start. -/
theorem sound_initial (initial : s.Initial) : Sound s := by
  have nothing : ∀ h event, ¬ Between s h event := fun _ _ => initial.nobody
  obtain ⟨claims, drains, processings, sends, _⟩ := initial
  refine ⟨⟨fun h x now => absurd now (nothing h x), ?_, fun h x now => absurd now (nothing h x),
    fun h _ x _ now => absurd now (nothing h x)⟩, ?_, ⟨?_, ?_⟩⟩
  · intro thread id claimed
    rw [claims] at claimed
    cases claimed
  all_goals simp [Copies, drains, sends]

/-- Every step keeps the exclusion. -/
theorem sound_step (before : Sound s) (taken : Step setup s action t) : Sound t :=
  ⟨exclusive_step before.copies before.exclusive taken, copies_step before.copies taken,
    sending_step before.exclusive before.sending taken⟩

/-- So it holds in every state of a run. -/
theorem sound_run (initial : s.Initial) (ran : Run (Step setup) s actions t) : Sound t :=
  ran.invariant (fun _ _ _ before taken => sound_step before taken) (sound_initial initial)

end HermesHey.Dispatch
