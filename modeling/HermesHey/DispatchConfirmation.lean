import HermesHey.DispatchExclusion

/-! At most one confirmed mutation for an event, in the runs in which no send is
cancelled while its mutation goes on to be confirmed. -/
namespace HermesHey.Dispatch
open Library Library.Json HermesHey.Core Adapter DurableQueue

/-- The mutation returned exactly `{"ok": True}`. -/
def Mutation.Confirmed (mutation : Mutation) : Prop :=
  ∃ outcome, mutation.outcome = some outcome ∧ confirmed outcome = true

/-- The send that made the mutation still waits for it in `run_blocking`. -/
def Awaited (s : State) (m : Nat) (mutation : Mutation) : Prop :=
  ∃ send, s.sends mutation.send = some send ∧ send.phase = .calling m

/-- A processing makes one send at a time; a confirmed mutation is awaited when
it returns and its send is not cancelled then; the completion of its event does
not raise; and the event is not ingested again once the queue has forgotten it. -/
def Settles (setup : Setup) (s : State) : Action → Prop
  | .sendStart _ p _ _ _ => ∀ i send, s.sends i = some send → send.processing ≠ p
  | .mutationReturns m outcome =>
    confirmed outcome = true → ∀ mutation, s.mutations m = some mutation → Awaited s m mutation
  | .sendCancelled i => ∀ send m mutation, s.sends i = some send → send.phase = .calling m →
      s.mutations m = some mutation → ¬ mutation.Confirmed
  | .sendResumes i fault => ∀ send m mutation thread identity, s.sends i = some send →
      send.phase = .calling m → s.mutations m = some mutation → mutation.Confirmed →
        parseContextId send.chat = .ok thread → s.claims thread = some identity →
          (complete setup.limits identity fault s.file).result = .ok ()
  | .ingest _ event _ => (∃ state, load setup.limits s.file = .ok state ∧ event.identity ∈ state.seen) ∨
      ∀ m mutation, s.mutations m = some mutation → mutation.Confirmed → mutation.identity ≠ event.identity
  | _ => True

/-- What keeps a second confirmation away. -/
structure Once (setup : Setup) (s : State) : Prop where
  sequential : ∀ i j send send', s.sends i = some send → s.sends j = some send' →
    send.processing = send'.processing → i = j
  /-- A pending event with a confirmed mutation: its send has not resumed yet. -/
  answered : ∀ m mutation event, s.mutations m = some mutation → mutation.Confirmed →
    event ∈ pendingEvents setup.limits s.file → event.identity = mutation.identity → Awaited s m mutation
  /-- An awaited mutation is the only one for its event that may be confirmed. -/
  outstanding : ∀ i send m mutation m' mutation', s.sends i = some send → send.phase = .calling m →
    s.mutations m = some mutation → s.mutations m' = some mutation' → mutation'.Confirmed →
      mutation'.identity = mutation.identity → m' = m
  unique : ∀ m m' mutation mutation', s.mutations m = some mutation → s.mutations m' = some mutation' →
    mutation.Confirmed → mutation'.Confirmed → mutation.identity = mutation'.identity → m = m'

/-! ## Two sends for one event -/

private theorem calling_processing (sending : Sending s) (found : s.sends i = some send)
    (calling : send.phase = .calling m) (made : s.mutations m = some mutation) :
    ∃ processing, s.processings send.processing = some processing ∧
      mutation.identity = processing.event.identity ∧ mutation.send = i := by
  obtain ⟨processing, active, _⟩ := sending.processing i send found
  obtain ⟨mutation', again, owner, identity⟩ := sending.calling i send m processing found calling active
  rw [made] at again
  cases again
  exact ⟨processing, active, identity, owner⟩

private theorem processing_unique (exclusive : Exclusive s) (first : s.processings p = some processing)
    (second : s.processings q = some processing') (same : processing.event.identity = processing'.event.identity) :
    p = q := by
  have held : Between s (.processing p) processing.event := ⟨processing, first, rfl⟩
  have held' : Between s (.processing q) processing'.event := ⟨processing', second, rfl⟩
  have thread := keyed.key_of_ident _ _ (exclusive.sound _ _ held) (exclusive.sound _ _ held') same
  have equal := exclusive.exclusive _ _ _ _ held held' thread
  cases equal
  rfl

private theorem calling_unique (sound : Sound s) (once : Once setup s) (first : s.sends i = some send)
    (calling : send.phase = .calling m) (made : s.mutations m = some mutation)
    (second : s.sends j = some send') (calling' : send'.phase = .calling m')
    (made' : s.mutations m' = some mutation') (same : mutation.identity = mutation'.identity) : m = m' := by
  obtain ⟨processing, active, identity, _⟩ := calling_processing sound.sending first calling made
  obtain ⟨processing', active', identity', _⟩ := calling_processing sound.sending second calling' made'
  have equal := processing_unique sound.exclusive active active' (by rw [← identity, same, identity'])
  have one := once.sequential i j send send' first second equal
  subst one
  rw [first] at second
  cases second
  rw [calling] at calling'
  cases calling'
  rfl

/-! ## Steps -/

private theorem Once.shrinks (before : Once setup s) (sends : t.sends = s.sends)
    (mutations : t.mutations = s.mutations)
    (fewer : ∀ event ∈ pendingEvents setup.limits t.file, event ∈ pendingEvents setup.limits s.file) :
    Once setup t := by
  refine ⟨?_, ?_, ?_, ?_⟩
  · rw [sends]
    exact before.sequential
  · intro m mutation event made held pending same
    rw [mutations] at made
    rw [Awaited, sends]
    exact before.answered m mutation event made held (fewer event pending) same
  · rw [sends, mutations]
    exact before.outstanding
  · rw [mutations]
    exact before.unique

private theorem Once.setSend {r : State} (before : Once setup s) (found : s.sends i = some send)
    (sends : r.sends = s.sends) (mutations : r.mutations = s.mutations)
    (fewer : ∀ event ∈ pendingEvents setup.limits r.file, event ∈ pendingEvents setup.limits s.file)
    (moved : ∀ now, new = some now → now.processing = send.processing ∧ ∀ m, now.phase ≠ .calling m)
    (settled : ∀ m mutation, send.phase = .calling m → s.mutations m = some mutation → mutation.Confirmed →
      ∀ event ∈ pendingEvents setup.limits r.file, event.identity ≠ mutation.identity) :
    Once setup (r.setSend i new) := by
  have old : ∀ j send, (r.setSend i new).sends j = some send →
      ∃ was, s.sends j = some was ∧ send.processing = was.processing := by
    intro j now found'
    rcases sends_of_setSend found' with ⟨rfl, same⟩ | ⟨_, same⟩
    · exact ⟨send, found, (moved now same).1⟩
    · exact ⟨now, by rwa [sends] at same, rfl⟩
  have kept : (r.setSend i new).mutations = s.mutations := mutations
  refine ⟨?_, ?_, ?_, ?_⟩
  · intro j k now now' first second same
    obtain ⟨was, first, equal⟩ := old j now first
    obtain ⟨was', second, equal'⟩ := old k now' second
    exact before.sequential j k was was' first second (by rw [← equal, same, equal'])
  · intro m mutation event made held pending same
    rw [kept] at made
    obtain ⟨waiting, found', calling⟩ := before.answered m mutation event made held (fewer event pending) same
    have other : mutation.send ≠ i := by
      rintro rfl
      rw [found] at found'
      cases found'
      exact settled m mutation calling made held event pending same
    exact ⟨waiting, by rw [State.setSend_sends, Function.update_of_ne other, sends, found'], calling⟩
  · intro j now m mutation m' mutation' found' calling
    rcases sends_of_setSend found' with ⟨rfl, same⟩ | ⟨_, same⟩
    · exact absurd calling ((moved now same).2 m)
    · rw [kept]
      rw [sends] at same
      exact before.outstanding j now m mutation m' mutation' same calling
  · rw [kept]
    exact before.unique

private theorem Once.calls (sound : Sound s) (before : Once setup s) (found : s.sends i = some send)
    (attempting : send.phase = .attempting)
    (ran : beforeMutation setup s send.chat fault = .ok (thread, some event)) (free : s.mutations m = none)
    (waiting : new.outcome = none) (identity : new.identity = event.identity) :
    Once setup ((s.setSend i (some { send with phase := .calling m })).setMutation m new) := by
  obtain ⟨parsed, claimed, rfl, pending⟩ := beforeMutation_eq_ok ran
  obtain ⟨processing, active, parsed'⟩ := sound.sending.processing i send found
  have owned := claimed_by_processing sound.exclusive active
  rw [parsed] at parsed'
  rw [← Except.ok.inj parsed', claimed] at owned
  have unconfirmed : ¬ new.Confirmed := by
    rintro ⟨outcome, returned, _⟩
    rw [waiting] at returned
    cases returned
  -- A send that waits for a confirmed mutation of the event would be this very send.
  have nothing : ∀ n mutation, s.mutations n = some mutation → mutation.Confirmed →
      mutation.identity ≠ event.identity := by
    intro n mutation made held same
    obtain ⟨send', found', calling⟩ := before.answered n mutation event made held pending same.symm
    obtain ⟨processing', active', identity', _⟩ := calling_processing sound.sending found' calling made
    have equal := processing_unique sound.exclusive active active'
      (by rw [← Option.some.inj owned, ← same, identity'])
    have one := before.sequential i mutation.send send send' found found' equal
    rw [← one, found] at found'
    cases found'
    rw [attempting] at calling
    cases calling
  refine ⟨?_, ?_, ?_, ?_⟩
  · intro j k send' send'' found' found'' same
    rcases sends_of_setSend found' with ⟨rfl, now⟩ | ⟨_, old⟩ <;>
      rcases sends_of_setSend found'' with ⟨rfl, now'⟩ | ⟨_, old'⟩
    · rfl
    · cases now
      exact before.sequential j k send send'' found old' same
    · cases now'
      exact before.sequential j k send' send old found same
    · exact before.sequential j k send' send'' old old' same
  · intro n mutation event' made held pending' same
    rcases mutations_of_setMutation made with ⟨rfl, rfl⟩ | ⟨_, old⟩
    · exact absurd held unconfirmed
    · obtain ⟨send', found', calling⟩ := before.answered n mutation event' old held pending' same
      have other : mutation.send ≠ i := by
        intro equal
        rw [equal, found] at found'
        cases found'
        rw [attempting] at calling
        cases calling
      refine ⟨send', ?_, calling⟩
      rw [State.setMutation_sends, State.setSend_sends, Function.update_of_ne other, found']
  · intro j send' n mutation n' mutation' found' calling made made' held same
    rcases mutations_of_setMutation made' with ⟨rfl, rfl⟩ | ⟨_, old'⟩
    · exact absurd held unconfirmed
    rcases mutations_of_setMutation made with ⟨rfl, rfl⟩ | ⟨other, old⟩
    · exact absurd (same.trans identity) (nothing n' mutation' old' held)
    · rcases sends_of_setSend found' with ⟨rfl, now⟩ | ⟨_, was⟩
      · cases now
        cases calling
        exact absurd rfl other
      · exact before.outstanding j send' n mutation n' mutation' was calling old old' held same
  · intro n n' mutation mutation' made made' held held' same
    rcases mutations_of_setMutation made with ⟨rfl, rfl⟩ | ⟨_, old⟩
    · exact absurd held unconfirmed
    rcases mutations_of_setMutation made' with ⟨rfl, rfl⟩ | ⟨_, old'⟩
    · exact absurd held' unconfirmed
    · exact before.unique n n' mutation mutation' old old' held held' same

private theorem Once.returns (sound : Sound s) (before : Once setup s) (found : s.mutations m = some mutation)
    (awaited : confirmed outcome = true → Awaited s m mutation) :
    Once setup (s.setMutation m { mutation with outcome := some outcome }) := by
  have returned : ∀ {new : Mutation}, { mutation with outcome := some outcome } = new → new.Confirmed →
      Awaited s m mutation := by
    rintro _ rfl ⟨_, same, held⟩
    cases same
    exact awaited held
  have alone : ∀ n other, s.mutations n = some other → other.Confirmed → Awaited s m mutation →
      other.identity = mutation.identity → n = m := by
    rintro n other made held ⟨send, sent, calling⟩ same
    exact before.outstanding mutation.send send m mutation n other sent calling found made held same
  refine ⟨before.sequential, ?_, ?_, ?_⟩
  · intro n mutation' event made held pending same
    rcases mutations_of_setMutation made with ⟨rfl, now⟩ | ⟨_, old⟩
    · subst now
      exact returned rfl held
    · exact before.answered n mutation' event old held pending same
  · intro j send n mutation' n' mutation'' sent calling made made' held same
    obtain ⟨first, wasMade, sameFirst⟩ : ∃ first, s.mutations n = some first ∧
        first.identity = mutation'.identity := by
      rcases mutations_of_setMutation made with ⟨rfl, now⟩ | ⟨_, old⟩
      · subst now
        exact ⟨mutation, found, rfl⟩
      · exact ⟨mutation', old, rfl⟩
    rcases mutations_of_setMutation made' with ⟨rfl, now⟩ | ⟨_, old⟩
    · obtain ⟨send', sent', calling'⟩ := returned now held
      subst now
      exact calling_unique sound before sent' calling' found sent calling wasMade (by rw [sameFirst, ← same])
    · exact before.outstanding j send n first n' mutation'' sent calling wasMade old held
        (by rw [same, sameFirst])
  · intro n n' mutation' mutation'' made made' held held' same
    rcases mutations_of_setMutation made with ⟨rfl, now⟩ | ⟨_, old⟩ <;>
      rcases mutations_of_setMutation made' with ⟨rfl, now'⟩ | ⟨_, old'⟩
    · rfl
    · have waits := returned now held
      subst now
      exact (alone n' mutation'' old' held' waits same.symm).symm
    · have waits := returned now' held'
      subst now'
      exact alone n mutation' old held waits same
    · exact before.unique n n' mutation' mutation'' old old' held held' same

private theorem identity_ne_nil {event : HeyEvent} (valid : event.Valid) : event.identity ≠ [] := by
  intro empty
  have form := isEventIdentity_identity valid
  rw [empty] at form
  cases form

private theorem completeClaimed_done (sound : Sound s) (found : s.sends i = some send)
    (calling : send.phase = .calling m) (made : s.mutations m = some mutation) (held : mutation.Confirmed)
    (parsed : parseContextId send.chat = .ok thread) (good : Settles setup s (.sendResumes i fault))
    (pending : event ∈ pendingEvents setup.limits (completeClaimed setup s thread fault)) :
    event.identity ≠ mutation.identity := by
  obtain ⟨processing, active, identity, _⟩ := calling_processing sound.sending found calling made
  obtain ⟨processing', active', parsed'⟩ := sound.sending.processing i send found
  rw [active] at active'
  cases active'
  rw [parsed] at parsed'
  have owned := claimed_by_processing sound.exclusive active
  rw [← Except.ok.inj parsed'] at owned
  have valid : processing.event.Valid := sound.exclusive.sound (.processing send.processing) _ ⟨_, active, rfl⟩
  have returned := good send m mutation thread _ found calling made held parsed owned
  simp only [completeClaimed, owned, if_neg (identity_ne_nil valid)] at pending
  rcases complete_pendingEvents setup.limits processing.event.identity fault s.file with
    ⟨_, e, failed⟩ | same
  · rw [returned] at failed
    cases failed
  · rw [same] at pending
    rw [identity]
    exact of_decide_eq_true (List.mem_filter.mp pending).2

private theorem once_step (sound : Sound s) (before : Once setup s) (good : Settles setup s action)
    (taken : Step setup s action t) : Once setup t := by
  have fewer : (∀ a event fault, action ≠ .ingest a event fault) → ∀ event ∈ pendingEvents setup.limits t.file,
      event ∈ pendingEvents setup.limits s.file := by
    intro other event held
    rcases pending_step taken held with old | ⟨a, fault, same, _⟩
    · exact old
    · exact absurd same (other a event fault)
  cases taken with
  | @sendStarts i p processing chat content retries absent active parsed =>
    refine ⟨?_, ?_, ?_, before.unique⟩
    · intro j k send send' found found' same
      rcases sends_of_setSend found with ⟨rfl, now⟩ | ⟨_, old⟩ <;>
        rcases sends_of_setSend found' with ⟨rfl, now'⟩ | ⟨_, old'⟩
      · rfl
      · cases now
        exact absurd same.symm (good k send' old')
      · cases now'
        exact absurd same (good j send old)
      · exact before.sequential j k send send' old old' same
    · intro m mutation event made held pending same
      obtain ⟨send, found, calling⟩ := before.answered m mutation event made held pending same
      refine ⟨send, ?_, calling⟩
      rw [State.setSend_sends, Function.update_of_ne, found]
      rintro rfl
      rw [absent] at found
      cases found
    · intro j send m mutation m' mutation' found calling
      rcases sends_of_setSend found with ⟨rfl, now⟩ | ⟨_, old⟩
      · cases now
        cases calling
      · exact before.outstanding j send m mutation m' mutation' old calling
  | @sendCalls i send fault thread event m found attempting ran free =>
    exact before.calls sound found attempting ran free rfl rfl
  | @mutationReturns m mutation outcome found waiting =>
    exact before.returns sound found fun held => good held mutation found
  | @sendConfirmed i send m mutation outcome sent thread fault found calling made returned result success parsed =>
    refine before.setSend (r := { s with file := completeClaimed setup s thread fault }) found rfl rfl (fewer nofun)
      (by simp) ?_
    intro m' mutation' calling' made' held event pending
    exact completeClaimed_done sound found calling' made' held parsed good pending
  | @sendRetries i send m mutation outcome sent n fault found calling made returned result failed =>
    refine before.setSend (r := s) found rfl rfl (fewer nofun) (by simp) ?_
    rintro m' mutation' calling' made' ⟨outcome', returned', held⟩
    cases calling.symm.trans calling'
    cases made.symm.trans made'
    cases returned.symm.trans returned'
    rw [(sendResult_success result).mpr held] at failed
    cases failed
  | @sendFails i send m mutation outcome fault found calling made returned failed =>
    refine before.setSend (r := s) found rfl rfl (fewer nofun) (by simp) ?_
    rintro m' mutation' calling' made' ⟨outcome', returned', held⟩
    cases calling.symm.trans calling'
    cases made.symm.trans made'
    cases returned.symm.trans returned'
    obtain ⟨sent, result, success⟩ : ∃ sent, sendResult setup.py mutation.method.name outcome = .ok sent ∧
      sent.success = true := sendResult_confirmed held mutation.method.name
    rw [(failed sent result).1] at success
    cases success
  | sendMissesEvent found attempting =>
    exact before.setSend (r := s) found rfl rfl (fewer nofun) (by simp) (by simp [attempting])
  | sendCancelledWaiting found attempting =>
    exact before.setSend (r := s) found rfl rfl (fewer nofun) (by simp) (by simp [attempting])
  | @sendCancelledCalling i send m found calling =>
    refine before.setSend (r := s) found rfl rfl (fewer nofun) (by simp) ?_
    intro m' mutation calling' made held
    exact absurd held (good send m' mutation found calling' made)
  | sendEnds found abandoned =>
    exact before.setSend (r := s) found rfl rfl (fewer nofun) (by simp) (by simp [abandoned])
  | @ingests a event fault answer account ran =>
    subst ran
    rcases ingest_pendingEvents setup.limits event (authorized setup.py (setup.adapters a)) fault s.file with
      same | ⟨_, _, _, _, same⟩
    · exact before.shrinks rfl rfl fun x held => by rwa [same] at held
    · refine ⟨before.sequential, ?_, before.outstanding, before.unique⟩
      intro m mutation x made held pending equal
      have remembered : ∀ state, load setup.limits s.file = .ok state → event.identity ∉ state.seen := by
        intro state loaded known
        rw [ingest_remembered loaded known, List.self_eq_append_right] at same
        cases same
      rcases good with ⟨state, loaded, known⟩ | forgotten
      · exact absurd known (remembered state loaded)
      · rw [same, List.mem_append, List.mem_singleton] at pending
        rcases pending with old | rfl
        · exact before.answered m mutation x made held old equal
        · exact absurd equal.symm (forgotten m mutation made held)
  | drainStarts | drainRefused | drainEnds | drainRaises | drainPasses | handOff | registers | handleReturns
  | handleRaises | drainCancelled | processingCompletes | processingRaises | gatewayChanges =>
    exact before.shrinks rfl rfl (fewer nofun)

/-! ## Runs -/

private theorem once_initial (initial : s.Initial) : Once setup s := by
  obtain ⟨_, _, _, sends, mutations⟩ := initial
  refine ⟨?_, ?_, ?_, ?_⟩ <;> simp [sends, mutations]

/-- A file operation of the step, if it makes one, does not fail. -/
def Action.Reliable : Action → Prop
  | .drainStart _ _ fault | .drainTurn _ fault | .processingComplete _ fault | .sendAttempt _ _ fault
  | .sendResumes _ fault | .ingest _ _ fault => fault = .none
  | _ => True

/-- A mutation that is confirmed while its cancelled send waits for the worker
leaves its event pending, and a replacement adapter has it answered again. -/
theorem confirmed_twice : ¬ ∀ (setup : Setup) (start s : State) (actions : List Action), start.Initial →
    Run (Step setup) start actions s → (∀ action ∈ actions, action.Reliable) →
      ∀ m m' mutation mutation', s.mutations m = some mutation → s.mutations m' = some mutation' →
        mutation.Confirmed → mutation'.Confirmed → mutation.identity = mutation'.identity → m = m' := by
  intro once
  obtain ⟨file, listed⟩ := exists_greetings [greeting 1 1]
    (by simp [greeting_valid]) (by simp) (by decide) (by decide +kernel)
  have valid : (greeting 1 1).Valid := greeting_valid (by decide) (by decide) (by decide) (by decide)
  have parsed : parseContextId (greeting 1 1).contextId = .ok 1 := parseContextId_contextId valid
  have ran : ∃ s mutation mutation', Run (Step openSetup) (idle file)
      [.drainStart 0 0 .none, .drainTurn 0 .none, .register 0 0,
        .sendStart 0 0 (greeting 1 1).contextId (text "Hello") 3, .sendAttempt 0 0 .none,
        .sendCancelled 0, .mutationReturns 0 okResponse, .sendEnds 0, .processingComplete 0 .none,
        .drainStart 1 1 .none, .drainTurn 1 .none, .register 1 1,
        .sendStart 1 1 (greeting 1 1).contextId (text "Hello") 3, .sendAttempt 1 1 .none,
        .mutationReturns 1 okResponse] s ∧
      s.mutations 0 = some mutation ∧ s.mutations 1 = some mutation' ∧ mutation.Confirmed ∧
        mutation'.Confirmed ∧ mutation.identity = mutation'.identity := by
    refine ⟨_, _, _, .cons (.drainStarts rfl (listed .none (by simp)))
      (.cons (.handOff rfl rfl rfl (greeting_handed rfl rfl))
      (.cons (.registers rfl rfl rfl)
      (.cons (.sendStarts rfl rfl parsed)
      (.cons (.sendCalls rfl rfl (claimed_found valid rfl (listed .none (by simp))) rfl)
      (.cons (.sendCancelledCalling rfl rfl)
      (.cons (.mutationReturns rfl rfl)
      (.cons (.sendEnds rfl rfl)
      (.cons (.processingCompletes rfl ?_ (listed .none (by simp)))
      (.cons (.drainStarts rfl (listed .none (by simp)))
      (.cons (.handOff rfl rfl rfl (greeting_handed rfl ?_))
      (.cons (.registers rfl rfl rfl)
      (.cons (.sendStarts rfl rfl parsed)
      (.cons (.sendCalls rfl rfl (claimed_found valid rfl (listed .none (by simp))) rfl)
      (.cons (.mutationReturns rfl rfl) .nil)))))))))))))), rfl, rfl, ⟨_, rfl, rfl⟩, ⟨_, rfl, rfl⟩, rfl⟩
    · intro i send found
      rcases sends_of_setSend found with ⟨_, ended⟩ | ⟨other, old⟩
      · cases ended
      · simp [Function.update_of_ne other, idle] at old
    · simp only [State.setDrain_claims, State.setProcessing_claims]
      exact releaseClaim_self rfl
  obtain ⟨s, mutation, mutation', ran, made, made', held, held', same⟩ := ran
  have equal := once openSetup (idle file) s _ (idle_initial file) ran (by simp [Action.Reliable])
    0 1 mutation mutation' made made' held held' same
  cases equal

/-- In a run whose steps all settle, at most one mutation made for an event is
confirmed, and a confirmed event that is still pending keeps its claim, so that
it leaves the queue before it can be handed off again. -/
theorem confirmed_at_most_once (setup : Setup) (start s : State) (actions : List Action)
    (initial : start.Initial) (ran : Run (Step setup) start actions s)
    (settles : Run.Throughout (Step setup) (Settles setup) start actions s) :
    (∀ m m' mutation mutation', s.mutations m = some mutation → s.mutations m' = some mutation' →
        mutation.Confirmed → mutation'.Confirmed → mutation.identity = mutation'.identity → m = m') ∧
      ∀ m mutation event, s.mutations m = some mutation → mutation.Confirmed →
        event ∈ pendingEvents setup.limits s.file → event.identity = mutation.identity →
          s.claims event.threadId = some event.identity := by
  have kept : Sound s ∧ Once setup s := by
    refine ran.invariant_where (P := fun s => Sound s ∧ Once setup s) ?_ settles
      ⟨sound_initial initial, once_initial initial⟩
    rintro s action t ⟨sound, once⟩ good taken
    exact ⟨sound_step sound taken, once_step sound once good taken⟩
  obtain ⟨sound, once⟩ := kept
  refine ⟨once.unique, ?_⟩
  intro m mutation event made held pending same
  obtain ⟨send, found, calling⟩ := once.answered m mutation event made held pending same
  obtain ⟨processing, active, identity, _⟩ := calling_processing sound.sending found calling made
  have owned := claimed_by_processing sound.exclusive active
  have working : Between s (.processing send.processing) processing.event := ⟨processing, active, rfl⟩
  have thread := keyed.key_of_ident _ _ (pendingEvents_valid pending) (sound.exclusive.sound _ _ working)
    (same.trans identity)
  rw [thread, owned, same, identity]

/-- The first send of a claimed event is confirmed. -/
theorem confirmed_at_most_once_greeting : ∃ start s mutation,
    Run (Step openSetup) start [.drainStart 0 0 .none, .drainTurn 0 .none, .register 0 0,
      .sendStart 0 0 (greeting 1 1).contextId (text "Hello") 3, .sendAttempt 0 0 .none,
      .mutationReturns 0 okResponse] s ∧
    s.mutations 0 = some mutation ∧ mutation.Confirmed ∧
      ∀ m mutation', s.mutations m = some mutation' → mutation'.Confirmed →
        mutation'.identity = mutation.identity → m = 0 := by
  obtain ⟨file, listed⟩ := exists_greetings [greeting 1 1]
    (by simp [greeting_valid]) (by simp) (by decide) (by decide +kernel)
  have valid : (greeting 1 1).Valid := greeting_valid (by decide) (by decide) (by decide) (by decide)
  have parsed : parseContextId (greeting 1 1).contextId = .ok 1 := parseContextId_contextId valid
  have ran : ∃ s mutation, (Run (Step openSetup) (idle file) [.drainStart 0 0 .none, .drainTurn 0 .none,
        .register 0 0, .sendStart 0 0 (greeting 1 1).contextId (text "Hello") 3, .sendAttempt 0 0 .none,
        .mutationReturns 0 okResponse] s ∧
      Run.Throughout (Step openSetup) (Settles openSetup) (idle file) [.drainStart 0 0 .none,
        .drainTurn 0 .none, .register 0 0, .sendStart 0 0 (greeting 1 1).contextId (text "Hello") 3,
        .sendAttempt 0 0 .none, .mutationReturns 0 okResponse] s) ∧
      s.mutations 0 = some mutation ∧ mutation.Confirmed := by
    refine ⟨_, _, Run.throughout_cons step_deterministic (.drainStarts rfl (listed .none (by simp))) trivial
      (Run.throughout_cons step_deterministic (.handOff rfl rfl rfl (greeting_handed rfl rfl)) trivial
      (Run.throughout_cons step_deterministic (.registers rfl rfl rfl) trivial
      (Run.throughout_cons step_deterministic (.sendStarts rfl rfl parsed) ?_
      (Run.throughout_cons step_deterministic
        (.sendCalls rfl rfl (claimed_found valid rfl (listed .none (by simp))) rfl) trivial
      (Run.throughout_cons step_deterministic (.mutationReturns rfl rfl) ?_ Run.throughout_nil))))),
      rfl, _, rfl, rfl⟩
    · rintro i send ⟨⟩
    · rintro _ mutation ⟨⟩
      exact ⟨_, rfl, rfl⟩
  obtain ⟨s, mutation, ⟨ran, settles⟩, made, held⟩ := ran
  refine ⟨idle file, s, mutation, ran, made, held, fun m mutation' made' held' same => ?_⟩
  exact (confirmed_at_most_once openSetup (idle file) s _ (idle_initial file) ran settles).1
    m 0 mutation' mutation made' made held' held same

end HermesHey.Dispatch
