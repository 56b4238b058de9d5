import HermesHey.DispatchExclusion

/-! Which event of a thread is handed off: the oldest pending one, in the runs in
which no drain falls behind the queue on a thread that nobody has claimed. -/
namespace HermesHey.Dispatch
open Library Library.Json HermesHey.Core Adapter DurableQueue

/-- An event of the thread that the adapter's policy and the gateway authorize. -/
def candidate (setup : Setup) (gateway : Nat → Text → Text → Option Bool) (adapter : Nat) (thread : Int)
    (event : HeyEvent) : Bool :=
  event.threadId = thread && authorized setup.py (setup.adapters adapter) event &&
    gateway adapter event.senderEmail event.contextId != some false

/-- The event the drain would hand off next for the thread, if it has one, is
the oldest pending event of the thread that is authorized now. -/
def UpToDate (setup : Setup) (s : State) (drain : Drain) (thread : Int) : Prop :=
  ∀ event, drain.ahead.find? (candidate setup s.gateway drain.adapter thread) = some event →
    (pendingEvents setup.limits s.file).find? (candidate setup s.gateway drain.adapter thread) = some event

/-- The drains are up to date on every thread that is free. -/
def Fresh (setup : Setup) (s : State) : Prop :=
  ∀ thread, s.claims thread = none → ∀ d drain, s.drains d = some drain → UpToDate setup s drain thread

/-- A thread is released, and the gateway changes its mind, only while the
drains in progress are up to date; and no drain drops by its policy the event
that another one would hand off next. -/
def Current (setup : Setup) (s : State) : Action → Prop
  | .processingComplete p fault => ∀ processing events, s.processings p = some processing →
      pending setup.limits fault s.file = .ok events →
        ∀ d drain, s.drains d = some drain → UpToDate setup s drain processing.event.threadId
  | .handleRaises d => ∀ drain event, s.drains d = some drain → drain.phase = .handling event →
      ∀ d' other, d' ≠ d → s.drains d' = some other → UpToDate setup s other event.threadId
  | .drainTurn d _ => ∀ drain copy rest, s.drains d = some drain → drain.ahead = copy :: rest →
      authorized setup.py (setup.adapters drain.adapter) copy = false → s.claims copy.threadId = none →
        ∀ d' other event, s.drains d' = some other →
          other.ahead.find? (candidate setup s.gateway other.adapter copy.threadId) = some event →
            event.identity ≠ copy.identity
  | .gatewayChanges gateway => ∀ thread, s.claims thread = none → ∀ d drain, s.drains d = some drain →
      UpToDate setup { s with gateway } drain thread
  | _ => True

private theorem candidate_thread (held : candidate setup gateway a thread event = true) :
    event.threadId = thread := by
  simp only [candidate, Bool.and_eq_true, decide_eq_true_eq] at held
  exact held.1.1

/-! ## The pending events after a step -/

private theorem find?_filter_identity {events : List HeyEvent} (first : events.find? p = some event)
    (other : event.identity ≠ identity) :
    (events.filter (HeyEvent.identity · ≠ identity)).find? p = some event := by
  obtain ⟨held, older, newer, rfl, none⟩ := List.find?_eq_some_iff_append.mp first
  rw [List.find?_eq_some_iff_append]
  refine ⟨held, older.filter (HeyEvent.identity · ≠ identity), newer.filter (HeyEvent.identity · ≠ identity), ?_,
    fun x kept => none x (List.mem_filter.mp kept).1⟩
  rw [List.filter_append, List.filter_cons_of_pos (by simpa using other)]

private theorem find?_complete (first : (pendingEvents limits file).find? p = some event)
    (other : event.identity ≠ identity) (fault : Fault) :
    (pendingEvents limits (complete limits identity fault file).file).find? p = some event := by
  rcases complete_pendingEvents limits identity fault file with ⟨same, _⟩ | same
  · rw [same, first]
  · rw [same]
    exact find?_filter_identity first other

private theorem identity_ne_of_thread {event other : HeyEvent} (valid : event.Valid) (valid' : other.Valid)
    (apart : event.threadId ≠ other.threadId) : event.identity ≠ other.identity :=
  fun same => apart (keyed.key_of_ident event other valid valid' same)

private theorem passed_cases (turned : turn setup s a event fault = .passed file) :
    authorized setup.py (setup.adapters a) event = false ∨ file = s.file ∧
      (s.gateway a event.senderEmail event.contextId = some false ∨ s.claims event.threadId ≠ none) := by
  rw [turn] at turned
  split at turned
  · cases turned
  split at turned
  · rename_i refused
    exact .inl (by simpa using refused)
  right
  split at turned
  · rename_i blocked
    cases turned
    exact ⟨rfl, .inl blocked⟩
  split at turned
  · rename_i taken
    cases turned
    refine ⟨rfl, .inr ?_⟩
    rw [claim] at taken
    split at taken
    · rename_i claimed
      exact Option.isSome_iff_ne_none.mp claimed
    · cases taken
  · cases turned

private theorem passed_not_candidate (turned : turn setup s a event fault = .passed file)
    (free : s.claims thread = none) : candidate setup s.gateway a thread event = false := by
  rcases passed_cases turned with refused | ⟨_, blocked | claimed⟩
  · simp [candidate, refused]
  · simp [candidate, blocked]
  · have other : event.threadId ≠ thread := by
      rintro rfl
      exact claimed free
    simp [candidate, other]

/-! ## Steps -/

private theorem Fresh.kept (before : Fresh setup s) (gateway : t.gateway = s.gateway)
    (claims : ∀ thread, t.claims thread = none → s.claims thread = none)
    (drains : ∀ d drain, t.drains d = some drain → ∃ old, s.drains d = some old ∧ drain.adapter = old.adapter ∧
      ∀ thread, t.claims thread = none → drain.ahead.find? (candidate setup s.gateway old.adapter thread) =
        old.ahead.find? (candidate setup s.gateway old.adapter thread))
    (pending : ∀ thread d old event, t.claims thread = none → s.drains d = some old →
      old.ahead.find? (candidate setup s.gateway old.adapter thread) = some event →
        (pendingEvents setup.limits s.file).find? (candidate setup s.gateway old.adapter thread) = some event →
          (pendingEvents setup.limits t.file).find? (candidate setup s.gateway old.adapter thread) =
            some event) : Fresh setup t := by
  intro thread free d drain found event next
  obtain ⟨old, was, adapter, same⟩ := drains d drain found
  rw [gateway, adapter] at next ⊢
  rw [same thread free] at next
  exact pending thread d old event free was next (before thread (claims thread free) d old was event next)

private theorem drains_setDrain {r s : State} {free : Int → Prop} (drains : r.drains = s.drains)
    (found : s.drains e = some old)
    (ahead : ∀ now, new = some now → now.adapter = old.adapter ∧ ∀ thread, free thread →
      now.ahead.find? (candidate setup s.gateway old.adapter thread) =
        old.ahead.find? (candidate setup s.gateway old.adapter thread)) :
    ∀ d drain, (r.setDrain e new).drains d = some drain → ∃ old, s.drains d = some old ∧
      drain.adapter = old.adapter ∧ ∀ thread, free thread →
        drain.ahead.find? (candidate setup s.gateway old.adapter thread) =
          old.ahead.find? (candidate setup s.gateway old.adapter thread) := by
  intro d drain now
  by_cases same : d = e
  · subst same
    rw [State.setDrain_drains, Function.update_self] at now
    exact ⟨old, found, ahead drain now⟩
  · rw [State.setDrain_drains, Function.update_of_ne same, drains] at now
    exact ⟨drain, now, rfl, fun _ _ => rfl⟩

private theorem turned_pending (sound : Sound s) (good : Current setup s (.drainTurn d fault))
    (found : s.drains d = some drain) (front : drain.ahead = copy :: rest)
    (turned : turn setup s drain.adapter copy fault = .raised file ∨
      turn setup s drain.adapter copy fault = .passed file)
    (free : s.claims thread = none) (was : s.drains d' = some other)
    (next : other.ahead.find? (candidate setup s.gateway other.adapter thread) = some event)
    (first : (pendingEvents setup.limits s.file).find? (candidate setup s.gateway other.adapter thread) =
      some event) :
    (pendingEvents setup.limits file).find? (candidate setup s.gateway other.adapter thread) = some event := by
  rcases turn_file turned with rfl | ⟨refused, rfl⟩
  · exact first
  have thread_eq := candidate_thread (List.find?_some first)
  apply find?_complete first
  by_cases same : copy.threadId = thread
  · subst same
    exact good drain copy rest found front refused free d' other event was next
  · have valid : copy.Valid := sound.copies d drain copy found (.inl (by simp [front]))
    apply identity_ne_of_thread (pendingEvents_valid (List.mem_of_find?_eq_some first)) valid
    rw [thread_eq]
    exact Ne.symm same

private theorem completeClaimed_pending (exclusive : Exclusive s) (free : s.claims thread = none)
    (first : (pendingEvents setup.limits s.file).find? (candidate setup s.gateway a thread) = some event) :
    (pendingEvents setup.limits (completeClaimed setup s claimed fault)).find?
      (candidate setup s.gateway a thread) = some event := by
  rw [completeClaimed]
  split
  · exact first
  rename_i identity held
  split
  · exact first
  obtain ⟨item, valid, rfl, rfl⟩ := exclusive.claimed claimed identity held
  apply find?_complete first
  apply identity_ne_of_thread (pendingEvents_valid (List.mem_of_find?_eq_some first)) valid
  rw [candidate_thread (List.find?_some first)]
  rintro rfl
  rw [held] at free
  cases free

private theorem released (exclusive : Exclusive s) (held : Between s h event)
    (free : releaseClaim s.claims event.identity thread = none) :
    s.claims thread = none ∨ thread = event.threadId := by
  by_cases same : thread = event.threadId
  · exact .inr same
  · have unchanged := exclusive.release_other keyed held same
    rw [← unchanged]
    exact .inl free

private theorem fresh_step (sound : Sound s) (before : Fresh setup s) (good : Current setup s action)
    (taken : Step setup s action t) : Fresh setup t := by
  have same : ∀ d drain, s.drains d = some drain → ∃ old, s.drains d = some old ∧ drain.adapter = old.adapter ∧
      ∀ thread, s.claims thread = none → drain.ahead.find? (candidate setup s.gateway old.adapter thread) =
        old.ahead.find? (candidate setup s.gateway old.adapter thread) :=
    fun d drain found => ⟨drain, found, rfl, fun _ _ => rfl⟩
  cases taken with
  | @drainStarts d fault events a absent listed =>
    intro thread free d' drain found
    by_cases new : d' = d
    · subst new
      rw [State.setDrain_drains, Function.update_self] at found
      cases found
      cases pending_eq_ok listed
      exact fun event next => next
    · rw [State.setDrain_drains, Function.update_of_ne new] at found
      exact before thread free d' drain found
  | drainRefused => exact before
  | drainEnds found =>
    exact before.kept rfl (fun _ free => free) (drains_setDrain rfl found (by simp))
      (fun _ _ _ _ _ _ _ first => first)
  | @drainRaises d drain event rest fault file found walking front turned =>
    refine before.kept rfl (fun _ free => free)
      (drains_setDrain (r := { s with file }) rfl found (by simp)) ?_
    intro thread d' other event' free was next first
    exact turned_pending sound good found front (.inl turned) free was next first
  | @drainPasses d drain event rest fault file found walking front turned =>
    refine before.kept rfl (fun _ free => free)
      (drains_setDrain (r := { s with file }) rfl found ?_) ?_
    · rintro _ ⟨⟩
      refine ⟨rfl, fun thread free => ?_⟩
      rw [front, List.find?_cons_of_neg (by simp [passed_not_candidate turned free])]
    · intro thread d' other event' free was next first
      exact turned_pending sound good found front (.inr turned) free was next first
  | @handOff d drain event rest fault claims found walking front handed =>
    obtain ⟨free, rfl, _⟩ := handed_claim handed
    have apart : ∀ thread, ClaimTable.take s.claims event.threadId event.identity thread = none →
        thread ≠ event.threadId ∧ s.claims thread = none := by
      intro thread unclaimed
      by_cases equal : thread = event.threadId
      · rw [equal, ClaimTable.take, Function.update_self] at unclaimed
        cases unclaimed
      · rw [ClaimTable.take, Function.update_of_ne equal] at unclaimed
        exact ⟨equal, unclaimed⟩
    refine before.kept rfl (fun thread unclaimed => (apart thread unclaimed).2)
      (drains_setDrain (r := { s with claims := _ }) rfl found ?_) (fun _ _ _ _ _ _ _ first => first)
    rintro _ ⟨⟩
    refine ⟨rfl, fun thread unclaimed => ?_⟩
    have other := (apart thread unclaimed).1
    rw [front, List.find?_cons_of_neg]
    intro held
    exact other (candidate_thread held).symm
  | registers found =>
    exact before.kept rfl (fun _ free => free) (drains_setDrain rfl found (by simp))
      (fun _ _ _ _ _ _ _ first => first)
  | handleReturns found =>
    exact before.kept rfl (fun _ free => free) (drains_setDrain rfl found (by simp))
      (fun _ _ _ _ _ _ _ first => first)
  | drainCancelled found =>
    exact before.kept rfl (fun _ free => free) (drains_setDrain rfl found (by simp))
      (fun _ _ _ _ _ _ _ first => first)
  | @handleRaises d drain event found handling =>
    intro thread free d' other now
    have apart : d' ≠ d := by
      rintro rfl
      rw [State.setDrain_drains, Function.update_self] at now
      cases now
    rw [State.setDrain_drains, Function.update_of_ne apart] at now
    have holding : Between s (.drain d) event := ⟨drain, found, handling⟩
    rcases released sound.exclusive holding free with unclaimed | rfl
    · exact before thread unclaimed d' other now
    · exact good drain event found handling d' other apart now
  | @processingCompletes p processing fault events found _ listed =>
    intro thread free d drain now
    have holding : Between s (.processing p) processing.event := ⟨processing, found, rfl⟩
    rcases released sound.exclusive holding free with unclaimed | rfl
    · exact before thread unclaimed d drain now
    · exact good processing events found listed d drain now
  | sendConfirmed =>
    refine before.kept rfl (fun _ free => free) same ?_
    intro thread d old event free _ _ first
    exact completeClaimed_pending sound.exclusive free first
  | @ingests a event fault answer _ ran =>
    subst ran
    refine before.kept rfl (fun _ free => free) same ?_
    intro thread d old event' free _ _ first
    rcases ingest_pendingEvents setup.limits event (authorized setup.py (setup.adapters a)) fault s.file with
      unchanged | ⟨_, _, _, _, stored⟩
    · rw [unchanged, first]
    · rw [stored, List.find?_append, first, Option.some_or]
  | gatewayChanges => exact good
  | processingRaises | sendStarts | sendMissesEvent | sendCalls | mutationReturns | sendRetries | sendFails
  | sendCancelledWaiting | sendCancelledCalling | sendEnds => exact before

/-! ## Runs -/

private theorem fresh_initial (initial : s.Initial) : Fresh setup s := by
  intro thread _ d drain found
  rw [initial.drains] at found
  cases found

/-- The event is pending, and of the pending events of its thread before it the
adapter's policy or the gateway refuses every one. -/
def Oldest (setup : Setup) (s : State) (adapter : Nat) (event : HeyEvent) : Prop :=
  ∃ older newer, pendingEvents setup.limits s.file = older ++ event :: newer ∧
    ∀ earlier ∈ older, earlier.threadId = event.threadId →
      authorized setup.py (setup.adapters adapter) earlier = false ∨
        s.gateway adapter earlier.senderEmail earlier.contextId = some false

private theorem oldest_of_find? (first : (pendingEvents setup.limits s.file).find?
    (candidate setup s.gateway a event.threadId) = some event) : Oldest setup s a event := by
  obtain ⟨_, older, newer, split, refused⟩ := List.find?_eq_some_iff_append.mp first
  refine ⟨older, newer, split, fun earlier held same => ?_⟩
  have dropped := refused earlier held
  simp only [candidate, same, decide_true, Bool.true_and, Bool.not_and, Bool.or_eq_true, Bool.not_eq_true',
    bne_eq_false_iff_eq] at dropped
  exact dropped

private theorem upToDate_listed (listed : pending setup.limits fault s.file = .ok drain.ahead) :
    UpToDate setup s drain thread := by
  intro event next
  rwa [← pending_eq_ok listed]

/-- A processing that ends unanswered while a drain is in `handle_message` with
another thread's event frees its thread for that drain's next event. -/
theorem later_handed_off : ¬ ∀ (setup : Setup) (start s : State) (actions : List Action), start.Initial →
    Run (Step setup) start actions s → ∀ d fault t drain event, Step setup s (.drainTurn d fault) t →
      t.drains d = some drain → drain.phase = .handling event → Oldest setup s drain.adapter event := by
  intro oldest
  obtain ⟨file, listed⟩ := exists_greetings [greeting 1 1, greeting 2 2, greeting 1 3]
    (by simp [greeting_valid]) (by decide) (by decide) (by decide +kernel)
  have ran : ∃ s t drain, Run (Step openSetup) (idle file)
      [.drainStart 0 0 .none, .drainTurn 0 .none, .register 0 0, .handleReturns 0, .drainTurn 0 .none,
        .processingComplete 0 .none, .register 0 1, .handleReturns 0] s ∧
      s.file = file ∧ s.gateway = (fun _ _ _ => some true) ∧ Step openSetup s (.drainTurn 0 .none) t ∧
        t.drains 0 = some drain ∧ drain.phase = .handling (greeting 1 3) := by
    refine ⟨_, _, _, .cons (.drainStarts rfl (listed .none (by simp)))
      (.cons (.handOff rfl rfl rfl (greeting_handed rfl rfl))
      (.cons (.registers rfl rfl rfl)
      (.cons (.handleReturns rfl rfl)
      (.cons (.handOff rfl rfl rfl (greeting_handed rfl rfl))
      (.cons (.processingCompletes rfl (by rintro _ _ ⟨⟩) (listed .none (by simp)))
      (.cons (.registers rfl rfl rfl)
      (.cons (.handleReturns rfl rfl) .nil))))))), rfl, rfl,
      .handOff rfl rfl rfl (greeting_handed rfl ?_), rfl, rfl⟩
    simp only [State.setDrain_claims, State.setProcessing_claims]
    exact releaseClaim_self rfl
  obtain ⟨s, t, drain, ran, same, admits, taken, found, handling⟩ := ran
  obtain ⟨older, newer, split, refused⟩ := oldest openSetup (idle file) s _ (idle_initial file) ran 0 .none t
    drain _ taken found handling
  rw [same, ← pending_eq_ok (listed .none (by simp))] at split
  have first : greeting 1 1 ∈ older := by
    cases older with
    | nil => cases split
    | cons head tail =>
      rw [List.cons_append, List.cons.injEq] at split
      rw [split.1]
      exact List.mem_cons_self
  rcases refused _ first rfl with unpermitted | blocked
  · have permitted : authorized openSetup.py (openSetup.adapters drain.adapter) (greeting 1 1) = true := rfl
    rw [unpermitted] at permitted
    cases permitted
  · rw [admits] at blocked
    cases blocked

/-- In a run in which threads are released and the gateway changes only while
the drains are up to date, every event is the oldest of its thread when it is
passed to `handle_message`. -/
theorem handed_off_oldest (setup : Setup) (start s : State) (actions : List Action)
    (initial : start.Initial) (ran : Run (Step setup) start actions s)
    (current : Run.Throughout (Step setup) (Current setup) start actions s) :
    ∀ d fault t drain event, Step setup s (.drainTurn d fault) t → t.drains d = some drain →
      drain.phase = .handling event → Oldest setup s drain.adapter event := by
  have kept : Sound s ∧ Fresh setup s := by
    refine ran.invariant_where (P := fun s => Sound s ∧ Fresh setup s) ?_ current
      ⟨sound_initial initial, fresh_initial initial⟩
    rintro s action t ⟨sound, fresh⟩ good taken
    exact ⟨sound_step sound taken, fresh_step sound fresh good taken⟩
  obtain ⟨_, fresh⟩ := kept
  intro d fault t drain event taken now handling
  cases taken with
  | drainEnds => simp at now
  | drainRaises => simp at now
  | drainPasses found walking =>
    rw [State.setDrain_drains, Function.update_self] at now
    cases now
    rw [walking] at handling
    cases handling
  | @handOff _ old handed rest _ claims found walking front turned =>
    rw [State.setDrain_drains, Function.update_self] at now
    cases now
    cases handling
    obtain ⟨free, _, permitted, admitted⟩ := handed_claim turned
    apply oldest_of_find?
    apply fresh event.threadId free d old found event
    rw [front]
    exact List.find?_cons_of_pos (by simp [candidate, permitted, admitted])

/-- A processing ends unanswered while a second drain is up to date, and that
drain hands off the first of the two events of the thread again. -/
theorem handed_off_oldest_greeting : ∃ file s t drain,
    Run (Step openSetup) (idle file)
      [.drainStart 0 0 .none, .drainTurn 0 .none, .register 0 0, .drainCancelled 0, .drainStart 1 0 .none,
        .processingComplete 0 .none] s ∧
      Step openSetup s (.drainTurn 1 .none) t ∧ t.drains 1 = some drain ∧
        drain.phase = .handling (greeting 1 1) ∧ Oldest openSetup s drain.adapter (greeting 1 1) := by
  obtain ⟨file, listed⟩ := exists_greetings [greeting 1 1, greeting 1 3]
    (by simp [greeting_valid]) (by decide) (by decide) (by decide +kernel)
  have permitted : authorized openSetup.py (openSetup.adapters 0) (greeting 1 1) = true := rfl
  have ran : ∃ s t drain, (Run (Step openSetup) (idle file)
      [.drainStart 0 0 .none, .drainTurn 0 .none, .register 0 0, .drainCancelled 0, .drainStart 1 0 .none,
        .processingComplete 0 .none] s ∧
      Run.Throughout (Step openSetup) (Current openSetup) (idle file)
        [.drainStart 0 0 .none, .drainTurn 0 .none, .register 0 0, .drainCancelled 0, .drainStart 1 0 .none,
          .processingComplete 0 .none] s) ∧
        Step openSetup s (.drainTurn 1 .none) t ∧ t.drains 1 = some drain ∧
          drain.phase = .handling (greeting 1 1) := by
    refine ⟨_, _, _, Run.throughout_cons step_deterministic (.drainStarts rfl (listed .none (by simp))) trivial
      (Run.throughout_cons step_deterministic (.handOff rfl rfl rfl (greeting_handed rfl rfl)) ?_
      (Run.throughout_cons step_deterministic (.registers rfl rfl rfl) trivial
      (Run.throughout_cons step_deterministic (.drainCancelled rfl (by simp)) trivial
      (Run.throughout_cons step_deterministic (.drainStarts rfl (listed .none (by simp))) trivial
      (Run.throughout_cons step_deterministic
        (.processingCompletes rfl (by rintro _ _ ⟨⟩) (listed .none (by simp))) ?_
      Run.throughout_nil))))), .handOff rfl rfl rfl (greeting_handed rfl ?_), rfl, rfl⟩
    · rintro _ _ _ ⟨⟩ ⟨⟩ refused
      rw [permitted] at refused
      cases refused
    · -- the second drain still has the whole list that the queue would give
      rintro _ _ _ _ d drain found
      rcases d with _ | _ | d
      · cases found
      · cases found
        exact upToDate_listed (listed .none (by simp))
      · cases found
    · simp only [State.setProcessing_claims]
      exact releaseClaim_self rfl
  obtain ⟨s, t, drain, ⟨ran, current⟩, taken, found, handling⟩ := ran
  exact ⟨file, s, t, drain, ran, taken, found, handling,
    handed_off_oldest openSetup (idle file) s _ (idle_initial file) ran current 1 .none t drain _ taken found
      handling⟩

end HermesHey.Dispatch
