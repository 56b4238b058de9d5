import HermesHey.QueueRefinement

/-! Bounded exactly-once acceptance: an accepted identity is accepted again only
after it was completed and a whole window of others was completed after it. -/
namespace HermesHey.DurableQueue
open Library Library.Json HermesHey.Core

/-- The call is a `complete` that takes the identity out of the pending events. -/
def Removes (limits : Limits) (file : File) (entry : Entry) (next : File) (identity : Text) : Prop :=
  (∃ fault, entry.call = .complete identity fault) ∧
    (∃ events, pending limits .none file = .ok events ∧ identity ∈ events.map HeyEvent.identity) ∧
    ∃ events, pending limits .none next = .ok events ∧ identity ∉ events.map HeyEvent.identity

/-- The call after these earlier ones, from an absent file, removes the identity. -/
def RemovedAfter (limits : Limits) (earlier : List Entry) (entry : Entry) (identity : Text) : Prop :=
  ∃ file next, Run (Step limits) none earlier file ∧ Step limits file entry next ∧
    Removes limits file entry next identity

/-- The call is an `ingest` of the identity that returned `True`. -/
def Accepts (entry : Entry) (identity : Text) : Prop :=
  ∃ event authorize fault, entry.call = .ingest event authorize fault ∧ event.identity = identity ∧
    entry.result = .ok (.accepted true)

/-- The recorded identities that are not pending. -/
def completedSeen (limits : Limits) (file : File) : Except PyError (List Text) := do
  let state ← load limits file
  let events ← state.pending.mapM HeyEvent.fromDict
  return state.seen.filter (· ∉ events.map HeyEvent.identity)

private theorem effect_accepts (accepts : Accepts entry identity) (correct : Correct queue file entry next) :
    ∃ event, entry.effect = .accept event ∧ event.identity = identity := by
  obtain ⟨event, authorize, fault, called, same, answered⟩ := accepts
  have replaced := (correct.ingest event authorize fault true called answered).2
  exact ⟨event, by simp [Entry.effect, called, replaced], same⟩

private theorem removes_of_effect (holds : Holds limits file queue) (taken : Step limits file entry next)
    (completes : entry.effect = .complete identity)
    (present : identity ∈ queue.pendingIds HeyEvent.identity) : Removes limits file entry next identity := by
  obtain ⟨reached, _, _⟩ := step_refines holds taken
  have called : ∃ fault, entry.call = .complete identity fault := by
    rw [Entry.effect] at completes
    split at completes
    · split at completes <;> cases completes
    · cases completes
    · rename_i other fault called
      split at completes
      · cases completes
        exact ⟨fault, called⟩
      · cases completes
  refine ⟨called, ⟨queue.pending, pending_holds holds (by decide), present⟩,
    ⟨_, pending_holds reached (by decide), ?_⟩⟩
  rw [completes]
  intro held
  obtain ⟨event, kept, same⟩ := List.mem_map.mp held
  exact of_decide_eq_true (List.mem_filter.mp kept).2 same

/-- What bounds a second acceptance in a run from an absent file. -/
structure ExactlyOnce (limits : Limits) (entries : List Entry) : Prop where
  /-- Between two acceptances of an identity it was completed, and then at
  least `max_seen` distinct other identities were. -/
  window : ∀ before first middle second after identity,
    entries = before ++ first :: (middle ++ second :: after) → Accepts first identity →
      Accepts second identity →
        ∃ xs completion ys, middle = xs ++ completion :: ys ∧
          RemovedAfter limits (before ++ first :: xs) completion identity ∧
          ∃ others : List Text, others.Nodup ∧ 100 ≤ limits.maxSeen ∧ limits.maxSeen ≤ others.length ∧
            identity ∉ others ∧ ∀ other ∈ others, ∃ us removal vs, ys = us ++ removal :: vs ∧
              RemovedAfter limits (before ++ first :: (xs ++ completion :: us)) removal other
  /-- A pending identity is not accepted. -/
  pendingRefused : ∀ before entry after file next events identity, entries = before ++ entry :: after →
    Run (Step limits) none before file → Step limits file entry next →
      pending limits .none file = .ok events → identity ∈ events.map HeyEvent.identity →
        ¬ Accepts entry identity
  /-- A call that removes nothing from the pending events leaves the window as it is. -/
  kept : ∀ before entry after file next, entries = before ++ entry :: after →
    Run (Step limits) none before file → Step limits file entry next →
      (∀ identity, ¬ Removes limits file entry next identity) →
        completedSeen limits next = completedSeen limits file

private theorem run_settled (ran : Run (Step limits) none entries file) :
    Holds limits file (Queue.after limits Fifo.empty entries) ∧
      ∃ done, (Queue.after limits Fifo.empty entries).Settled HeyEvent.identity limits.maxSeen done := by
  obtain ⟨holds, legal⟩ := run_refines (holds_none limits) ran
  exact ⟨holds, _, Fifo.settled_empty.play legal⟩

private theorem after_append (xs ys : List Entry) :
    Queue.after limits queue (xs ++ ys) = Queue.after limits (Queue.after limits queue xs) ys := by
  rw [Queue.after, List.map_append, Fifo.play_append]
  rfl

private theorem completedSeen_settled (holds : Holds limits file queue)
    (settled : queue.Settled HeyEvent.identity limits.maxSeen done) :
    completedSeen limits file = .ok done := by
  have pending := mapM_fromDict holds.valid
  have window : queue.seen.filter (· ∉ queue.pending.map HeyEvent.identity) = done := by
    rw [settled.layout, List.filter_append]
    have kept : done.filter (· ∉ queue.pending.map HeyEvent.identity) = done := by
      rw [List.filter_eq_self]
      intro identity held
      exact decide_eq_true fun inside => (List.nodup_append'.mp settled.distinct).2.2 held inside
    have dropped : (queue.pendingIds HeyEvent.identity).filter
        (· ∉ queue.pending.map HeyEvent.identity) = [] := by
      rw [List.filter_eq_nil_iff]
      intro identity held
      simpa [Fifo.pendingIds] using held
    rw [kept, dropped, List.append_nil]
  simp only [completedSeen, holds.loaded, bind, Except.bind, pending, window]
  rfl

private theorem mem_map_effect {entries : List Entry}
    (split : entries.map Entry.effect = xs ++ effect :: ys) :
    ∃ before entry after, entries = before ++ entry :: after ∧ before.map Entry.effect = xs ∧
      entry.effect = effect ∧ after.map Entry.effect = ys := by
  obtain ⟨before, rest, rfl, front, back⟩ := List.map_eq_append_iff.mp split
  obtain ⟨entry, after, rfl, same, last⟩ := List.map_eq_cons_iff.mp back
  exact ⟨before, entry, after, rfl, front, same, last⟩

private theorem removedAfter_of_effect (ran : Run (Step limits) none (earlier ++ entry :: later) last)
    (completes : entry.effect = .complete identity)
    (present : identity ∈ (Queue.after limits Fifo.empty earlier).pendingIds HeyEvent.identity) :
    RemovedAfter limits earlier entry identity := by
  obtain ⟨file, next, first, taken, _⟩ := ran.at_label
  exact ⟨file, next, first, taken, removes_of_effect (run_settled first).1 taken completes present⟩

private theorem window_of_run (ran : Run (Step limits) none entries last)
    (split : entries = before ++ first :: (middle ++ second :: after)) (accepted : Accepts first identity)
    (again : Accepts second identity) :
    ∃ xs completion ys, middle = xs ++ completion :: ys ∧
      RemovedAfter limits (before ++ first :: xs) completion identity ∧
      ∃ others : List Text, others.Nodup ∧ 100 ≤ limits.maxSeen ∧ limits.maxSeen ≤ others.length ∧
        identity ∉ others ∧ ∀ other ∈ others, ∃ us removal vs, ys = us ++ removal :: vs ∧
          RemovedAfter limits (before ++ first :: (xs ++ completion :: us)) removal other := by
  subst split
  obtain ⟨file, next, start, taken, rest⟩ := ran.at_label
  obtain ⟨file', next', middleRan, taken', _⟩ := rest.at_label
  have opened := run_settled start
  obtain ⟨reached, fresh, correct⟩ := step_refines opened.1 taken
  obtain ⟨event, effect, same⟩ := effect_accepts accepted correct
  rw [effect] at reached fresh
  obtain ⟨done, settled⟩ := opened.2
  have settled := settled.accept fresh
  obtain ⟨held, legal⟩ := run_refines reached middleRan
  obtain ⟨_, fresh', correct'⟩ := step_refines held taken'
  obtain ⟨event', effect', same'⟩ := effect_accepts again correct'
  rw [effect'] at fresh'
  have unseen : identity ∉ (Fifo.play HeyEvent.identity limits.maxSeen (Fifo.apply HeyEvent.identity
      limits.maxSeen (Queue.after limits Fifo.empty before) (.accept event))
      (middle.map Entry.effect)).seen := by
    rw [← same']
    exact fresh'
  have present : identity ∈ (Fifo.apply HeyEvent.identity limits.maxSeen
      (Queue.after limits Fifo.empty before) (.accept event)).pendingIds HeyEvent.identity :=
    List.mem_map.mpr ⟨event, by simp [Fifo.apply], same⟩
  have floor := limits.seenFloor
  obtain ⟨xs, ys, parted, pending, others, distinct, enough, apart, left⟩ :=
    (Fifo.forgotten_of_unseen (by omega) settled present legal unseen).window
  obtain ⟨xs, completion, ys, rfl, rfl, completes, rfl⟩ := mem_map_effect parted
  have located : ∀ zs, Queue.after limits Fifo.empty (before ++ first :: zs) =
      Fifo.play HeyEvent.identity limits.maxSeen (Fifo.apply HeyEvent.identity limits.maxSeen
        (Queue.after limits Fifo.empty before) (.accept event)) (zs.map Entry.effect) := by
    intro zs
    rw [after_append, Queue.after, List.map_cons, Fifo.play_cons, effect]
  refine ⟨xs, completion, ys, rfl, ?_, others, distinct, floor, enough, apart, ?_⟩
  · have regrouped : before ++ first :: (xs ++ completion :: ys ++ second :: after) =
        before ++ first :: xs ++ completion :: (ys ++ second :: after) := by simp
    rw [regrouped] at ran
    apply removedAfter_of_effect ran completes
    rw [located]
    exact pending
  · intro other held
    obtain ⟨us, vs, parted, pendingOther⟩ := Fifo.removed_at (left other held)
    obtain ⟨us, removal, vs, rfl, rfl, removes, rfl⟩ := mem_map_effect parted
    refine ⟨us, removal, vs, rfl, ?_⟩
    have regrouped : before ++ first :: (xs ++ completion :: (us ++ removal :: vs) ++ second :: after) =
        before ++ first :: (xs ++ completion :: us) ++ removal :: (vs ++ second :: after) := by simp
    rw [regrouped] at ran
    apply removedAfter_of_effect ran removes
    rw [located, List.map_append, List.map_cons, completes, List.append_cons, Fifo.play_append]
    exact pendingOther

/-- In every run from an absent file an identity is accepted at most once
within the window of the identities completed last. -/
theorem accepted_once_in_window (limits : Limits) (entries : List Entry) (last : File)
    (ran : Run (Step limits) none entries last) : ExactlyOnce limits entries where
  window := fun _ _ _ _ _ _ split accepted again => window_of_run ran split accepted again
  pendingRefused := by
    rintro before entry after file next events identity rfl reached taken listed present accepted
    obtain ⟨holds, done, settled⟩ := run_settled reached
    rw [pending_holds holds (by decide)] at listed
    cases listed
    obtain ⟨_, fresh, correct⟩ := step_refines holds taken
    obtain ⟨event, effect, rfl⟩ := effect_accepts accepted correct
    rw [effect] at fresh
    exact fresh (settled.sound.recorded present)
  kept := by
    rintro before entry after file next rfl reached taken nothing
    obtain ⟨holds, done, settled⟩ := run_settled reached
    obtain ⟨later, fresh, _⟩ := step_refines holds taken
    rw [completedSeen_settled holds settled]
    cases effect : entry.effect with
    | none =>
      rw [effect] at later
      exact completedSeen_settled later settled
    | accept event =>
      rw [effect] at later fresh
      exact completedSeen_settled later (settled.accept fresh)
    | complete identity =>
      rw [effect] at later
      have absent : identity ∉ (Queue.after limits Fifo.empty before).pendingIds HeyEvent.identity :=
        fun present => nothing identity (removes_of_effect holds taken effect present)
      rw [settled.complete_absent absent] at later
      exact completedSeen_settled later settled

/-- Accepting, completing and offering an event again. -/
theorem accepted_once_in_window_greeting : ∃ entries,
    entries.map Entry.call = [.ingest (greeting 1 1) (fun _ => true) .none,
      .complete (greeting 1 1).identity .none, .ingest (greeting 1 1) (fun _ => true) .none] ∧
    ExactlyOnce .default entries := by
  obtain ⟨entries, last, ran, called⟩ := exists_run .default none [
    .ingest (greeting 1 1) (fun _ => true) .none, .complete (greeting 1 1).identity .none,
    .ingest (greeting 1 1) (fun _ => true) .none]
  exact ⟨entries, called, accepted_once_in_window .default entries last ran⟩

end HermesHey.DurableQueue
