import HermesHey.DispatchExclusion

/-! When a claim outlives its work: exactly when a drain is cancelled before
`handle_message` registered the event, or when `on_processing_complete` cannot
read the queue before it releases. -/
namespace HermesHey.Dispatch
open Library Library.Json HermesHey.Core Adapter DurableQueue

/-- Every claim of the state path belongs to a drain in `handle_message` or to
a registered processing that has not completed. -/
abbrev Tight (s : State) : Prop :=
  ClaimTable.Tight HeyEvent.threadId HeyEvent.identity s.claims (Between s)

/-- The step ends the work on an event on a path that releases nothing. -/
def Leaks (setup : Setup) (s : State) : Action → Prop
  | .drainCancelled d => ∃ drain event, s.drains d = some drain ∧ drain.phase = .handling event
  | .processingComplete _ fault => ∃ e, pending setup.limits fault s.file = .error e
  | _ => False

/-! ## What a step keeps -/

private theorem between_setDrain_kept
    (idle : ∀ event, (s.drains d).map Drain.phase ≠ some (.handling event)) :
    ∀ h event, Between s h event → Between (s.setDrain d new) h event := by
  intro h event now
  cases h with
  | processing p => exact now
  | drain d' =>
    obtain ⟨drain, found, phase⟩ := now
    refine ⟨drain, ?_, phase⟩
    rw [State.setDrain_drains, Function.update_of_ne, found]
    rintro rfl
    exact idle event (by rw [found, Option.map_some, phase])

private theorem between_setDrain_other (other : h ≠ .drain d) (now : Between s h event) :
    Between (s.setDrain d new) h event := by
  cases h with
  | processing p => exact now
  | drain d' =>
    obtain ⟨drain, found, phase⟩ := now
    refine ⟨drain, ?_, phase⟩
    rw [State.setDrain_drains, Function.update_of_ne, found]
    rintro rfl
    exact other rfl

private theorem between_setProcessing_other (other : h ≠ .processing p) (now : Between s h event) :
    Between (s.setProcessing p new) h event := by
  cases h with
  | drain d => exact now
  | processing p' =>
    obtain ⟨processing, found, same⟩ := now
    refine ⟨processing, ?_, same⟩
    rw [State.setProcessing_processings, Function.update_of_ne, found]
    rintro rfl
    exact other rfl

private theorem between_drain_unique (found : s.drains d = some drain) (handling : drain.phase = .handling event) :
    ∀ x, Between s (.drain d) x → x = event := by
  rintro x ⟨held, again, phase⟩
  rw [found] at again
  cases again
  rw [handling] at phase
  cases phase
  rfl

private theorem between_processing_unique (found : s.processings p = some processing) :
    ∀ x, Between s (.processing p) x → x = processing.event := by
  rintro x ⟨held, again, rfl⟩
  rw [found] at again
  cases again
  rfl

/-- A step leaves every claim with a holder unless it is one of the two paths
that release nothing; then the claim it drops stays behind. -/
theorem tight_step (sound : Sound s) (before : Tight s) (taken : Step setup s action t) :
    Tight t ↔ ¬ Leaks setup s action := by
  cases taken with
  | drainStarts absent =>
    exact iff_of_true (before.mono (between_setDrain_kept (by simp [absent]))) id
  | drainRefused => exact iff_of_true before id
  | drainEnds found walking =>
    exact iff_of_true (before.mono (between_setDrain_kept (by simp [found, walking]))) id
  | @drainRaises d drain event rest fault file found walking =>
    exact iff_of_true (before.mono
      (between_setDrain_kept (s := { s with file }) (by simp [found, walking]))) id
  | @drainPasses d drain event rest fault file found walking =>
    exact iff_of_true (before.mono
      (between_setDrain_kept (s := { s with file }) (by simp [found, walking]))) id
  | @handOff d drain event rest fault claims found walking front handed =>
    obtain ⟨_, rfl, _⟩ := handed_claim handed
    have holding : Between (State.setDrain { s with
        claims := ClaimTable.take s.claims event.threadId event.identity } d
        (some { drain with ahead := rest, phase := .handling event })) (.drain d) event :=
      ⟨_, Function.update_self .., rfl⟩
    refine iff_of_true (before.take holding ?_) id
    exact between_setDrain_kept (s := { s with claims := _ }) (by simp [found, walking])
  | @registers d drain event p found handling free =>
    have holding : Between ((s.setDrain d (some { drain with phase := .registered })).setProcessing p
        (some { adapter := drain.adapter, event })) (.processing p) event :=
      ⟨_, Function.update_self .., rfl⟩
    refine iff_of_true (before.move (between_drain_unique found handling) holding fun h x held other => ?_) id
    have elsewhere : h ≠ .processing p := by
      rintro rfl
      obtain ⟨_, active, _⟩ := held
      rw [free] at active
      cases active
    exact between_setProcessing_other elsewhere (between_setDrain_other other held)
  | handleReturns found registered =>
    exact iff_of_true (before.mono (between_setDrain_kept (by simp [found, registered]))) id
  | @handleRaises d drain event found handling =>
    refine iff_of_true (before.release (between_drain_unique found handling) ?_) id
    exact fun h x held other => between_setDrain_other (s := { s with claims := _ }) other held
  | @drainCancelled d drain found running =>
    cases phase : drain.phase with
    | walking => exact absurd phase running
    | registered =>
      refine iff_of_true (before.mono (between_setDrain_kept (by simp [found, phase]))) ?_
      rintro ⟨held, event, again, handling⟩
      rw [found] at again
      cases again
      rw [phase] at handling
      cases handling
    | handling event =>
      have holding : Between s (.drain d) event := ⟨drain, found, phase⟩
      refine iff_of_false (ClaimTable.not_tight_of_dropped sound.exclusive holding ?_)
        (not_not_intro ⟨drain, event, found, phase⟩)
      intro h x now
      rcases between_setDrain now with ⟨_, _, ended, _⟩ | other
      · cases ended
      · exact other
  | @processingCompletes p processing fault events found _ listed =>
    refine iff_of_true (before.release (between_processing_unique found) ?_) ?_
    · exact fun h x held other => between_setProcessing_other (s := { s with claims := _ }) other held
    · rintro ⟨e, failed⟩
      rw [listed] at failed
      cases failed
  | @processingRaises p processing fault e found _ failed =>
    have holding : Between s (.processing p) processing.event := ⟨processing, found, rfl⟩
    refine iff_of_false (ClaimTable.not_tight_of_dropped sound.exclusive holding ?_)
      (not_not_intro ⟨e, failed⟩)
    intro h x now
    rcases between_setProcessing now with ⟨_, _, ended, _⟩ | other
    · cases ended
    · exact other
  | sendStarts | sendMissesEvent | sendCalls | mutationReturns | sendConfirmed | sendRetries | sendFails
  | sendCancelledWaiting | sendCancelledCalling | sendEnds | ingests | gatewayChanges =>
    exact iff_of_true before id

/-! ## Runs -/

private theorem tight_initial (initial : s.Initial) : Tight s := by
  intro thread identity claimed
  rw [initial.claims] at claimed
  cases claimed

/-- A drain cancelled in `handle_message` leaves a claim that nothing works under. -/
theorem claim_outlives_drain : ¬ ∀ (setup : Setup) (start s : State) (actions : List Action),
    start.Initial → Run (Step setup) start actions s → Tight s := by
  intro tight
  obtain ⟨file, listed⟩ := exists_greetings [greeting 1 1]
    (by simp [greeting_valid]) (by simp) (by decide) (by decide +kernel)
  have ran : ∃ s, Run (Step openSetup) (idle file)
      [.drainStart 0 0 .none, .drainTurn 0 .none, .drainCancelled 0] s ∧
        s.claims 1 = some (greeting 1 1).identity ∧ ∀ h event, ¬ Between s h event := by
    refine ⟨_, .cons (.drainStarts rfl (listed .none (by simp))) (.cons (.handOff rfl rfl rfl
      (greeting_handed rfl rfl)) (.cons (.drainCancelled rfl (by simp)) .nil)), rfl, ?_⟩
    intro h event now
    rcases between_setDrain now with ⟨_, _, ended, _⟩ | ⟨other, old⟩
    · cases ended
    rcases between_setDrain old with ⟨same, _⟩ | ⟨_, old⟩
    · exact other same
    rcases between_setDrain (s := idle file) old with ⟨same, _⟩ | ⟨_, old⟩
    · exact other same
    · exact (idle_initial file).nobody old
  obtain ⟨s, ran, claimed, nobody⟩ := ran
  obtain ⟨h, event, now, _⟩ := tight openSetup (idle file) s _ (idle_initial file) ran 1 _ claimed
  exact nobody h event now

/-- Along a run of any adapters no claim ever outlives its work if and only if
no step of the run ends the work without a release. -/
theorem claims_tight_iff (setup : Setup) (start s : State) (actions : List Action)
    (initial : start.Initial) (ran : Run (Step setup) start actions s) :
    (∀ before after t, actions = before ++ after → Run (Step setup) start before t →
        Run (Step setup) t after s → Tight t) ↔
      Run.Throughout (Step setup) (fun t action => ¬ Leaks setup t action) start actions s := by
  constructor
  · rintro tight before action after t u rfl reached taken rest
    have here := tight before (action :: after) t rfl reached (.cons taken rest)
    have next := tight (before ++ [action]) after u (by simp) (reached.snoc taken) rest
    exact (tight_step (sound_run initial reached) here taken).mp next
  · intro clean before
    induction before using List.reverseRecOn with
    | nil =>
      rintro after t rfl reached _
      cases reached
      exact tight_initial initial
    | append_singleton before action ih =>
      rintro after t rfl reached rest
      obtain ⟨u, first, last⟩ := reached.split
      cases last with
      | cons taken ended =>
        cases ended
        have split : before ++ [action] ++ after = before ++ action :: after := by simp
        have here := ih (action :: after) u split first (.cons taken rest)
        exact (tight_step (sound_run initial first) here taken).mpr
          (clean before action after u t split first taken rest)

/-- A drain lists the pending events, takes one up and registers it. -/
theorem claims_tight_registered : ∃ start s,
    Run (Step openSetup) start [.drainStart 0 0 .none, .drainTurn 0 .none, .register 0 0] s ∧
      s.claims 1 = some (greeting 1 1).identity ∧
      ∀ before after t, [.drainStart 0 0 .none, .drainTurn 0 .none, .register 0 0] = before ++ after →
        Run (Step openSetup) start before t → Run (Step openSetup) t after s → Tight t := by
  obtain ⟨file, listed⟩ := exists_greetings [greeting 1 1]
    (by simp [greeting_valid]) (by simp) (by decide) (by decide +kernel)
  have ran : ∃ s, (Run (Step openSetup) (idle file) [.drainStart 0 0 .none, .drainTurn 0 .none, .register 0 0] s ∧
      Run.Throughout (Step openSetup) (fun t action => ¬ Leaks openSetup t action) (idle file)
        [.drainStart 0 0 .none, .drainTurn 0 .none, .register 0 0] s) ∧
      s.claims 1 = some (greeting 1 1).identity :=
    ⟨_, Run.throughout_cons step_deterministic (.drainStarts rfl (listed .none (by simp))) id
      (Run.throughout_cons step_deterministic (.handOff rfl rfl rfl (greeting_handed rfl rfl)) id
      (Run.throughout_cons step_deterministic (.registers rfl rfl rfl) id Run.throughout_nil)), rfl⟩
  obtain ⟨s, ⟨ran, clean⟩, claimed⟩ := ran
  exact ⟨idle file, s, ran, claimed,
    (claims_tight_iff openSetup (idle file) s _ (idle_initial file) ran).mpr clean⟩

end HermesHey.Dispatch
