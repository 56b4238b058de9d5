import HermesHey.DispatchExclusion
import HermesHey.QueueCapacity

/-! How a pending event leaves the queue: its mutation was confirmed, or a drain's policy refused it.
A drain judges and removes by a list that it read before, so an event can leave that was stored
under the identity of an older one which the list still has. -/
namespace HermesHey.Dispatch
open Library Library.Json HermesHey.Core Adapter DurableQueue

/-- A send resumes with the exact confirmation of the mutation that was made for the event, by the
method of its kind. -/
def Answered (s : State) (action : Action) (event : HeyEvent) : Prop :=
  ∃ i send m mutation outcome fault, action = .sendResumes i fault ∧ s.sends i = some send ∧
    send.phase = .calling m ∧ s.mutations m = some mutation ∧ mutation.send = i ∧
      mutation.outcome = some outcome ∧ confirmed outcome = true ∧ mutation.identity = event.identity ∧
        (mutation.method = .comment ↔ event.kind = text "comment")

/-- A drain has the identity ahead, and its policy refuses the event. -/
def Refused (setup : Setup) (s : State) (action : Action) (event : HeyEvent) : Prop :=
  ∃ d drain copy rest fault, action = .drainTurn d fault ∧ s.drains d = some drain ∧
    drain.ahead = copy :: rest ∧ copy.identity = event.identity ∧
      authorized setup.py (setup.adapters drain.adapter) event = false

/-- Adapter 0 allows Bob only, any other every sender. -/
def sharedSetup : Setup where
  py := .ascii
  limits := .default
  adapters a := { accountId := 5, ownEmail := text "me@hey.com", allowedSenders := [text "bob@example.com"],
                  allowAllUsers := a ≠ 0 }

/-- A message of Bob's that the drain hands off before. -/
def earlier : HeyEvent := { greeting 3 3 with senderEmail := text "bob@example.com" }

/-- The queue with this window of completed identities and nothing pending. -/
def rested (done : List Text) : Queue := { seen := done, pending := [] }

private theorem rested_settled (bounded : done.length ≤ cap) (distinct : done.Nodup) :
    (rested done).Settled HeyEvent.identity cap done :=
  ⟨(List.append_nil done).symm, bounded, (List.append_nil done).symm ▸ distinct⟩

private theorem completes_last {queue : Queue} (settled : queue.Settled HeyEvent.identity cap done)
    (listed : queue.pending = [event]) : queue.apply HeyEvent.identity cap (.complete event.identity) =
      rested ((done ++ [event.identity]).rtake cap) := by
  have present : event.identity ∈ queue.pendingIds HeyEvent.identity := by simp [Fifo.pendingIds, listed]
  have layout := (settled.complete_pending present).layout
  have nothing : (queue.apply HeyEvent.identity cap (.complete event.identity)).pending = [] := by
    simp [Fifo.apply, listed]
  rw [Fifo.pendingIds, nothing, List.map_nil, List.append_nil] at layout
  have only : ∀ queue : Queue, queue.pending = [] → queue = rested queue.seen := by
    rintro ⟨seen, _⟩ rfl
    rfl
  rw [only _ nothing, layout]

private theorem turn_refused {s : State} (account : event.accountId = 5)
    (refused : authorized sharedSetup.py (sharedSetup.adapters 0) event = false)
    (removed : complete .default event.identity .none s.file = ⟨.ok (), some encoded, true⟩) :
    turn sharedSetup s 0 event .none = .passed (some encoded) := by
  have same : event.accountId = (sharedSetup.adapters 0).accountId := account
  have limits : sharedSetup.limits = .default := rfl
  simp [turn, same, refused, limits, removed]

private theorem refused_run {s : State} {queue : Queue} (idle : s.drains 1 = none)
    (holds : Holds .default s.file queue)
    (short : ∀ identity ∈ queue.seen, ShortIdentity identity) (listed : queue.pending = [event])
    (account : event.accountId = 5) (refused : authorized sharedSetup.py (sharedSetup.adapters 0) event = false) :
    ∃ t, Run (Step sharedSetup) s [.drainStart 1 0 .none, .drainTurn 1 .none, .drainTurn 1 .none] t ∧
      t.drains 0 = s.drains 0 ∧ t.drains 1 = none ∧
        Holds .default t.file (queue.apply HeyEvent.identity 10000 (.complete event.identity)) := by
  have left : queue.pending.filter (HeyEvent.identity · ≠ event.identity) = [] := by simp [listed]
  obtain ⟨encoded, removed, reached⟩ := complete_small holds short left (by simp) (Nat.zero_le 1)
  have pending : pending .default .none s.file = .ok [event] := listed ▸ pending_holds holds (by decide)
  exact ⟨_, .cons (.drainStarts idle pending) (.cons (.drainPasses rfl rfl rfl (turn_refused account refused removed))
    (.cons (.drainEnds rfl rfl rfl) .nil)), rfl, rfl, reached⟩

private theorem round {s : State} (idle : s.drains 1 = none) (holds : Holds .default s.file (rested done))
    (short : ∀ identity ∈ done, ShortIdentity identity) (bounded : done.length ≤ 10000) (small : SmallEvent event)
    (named : ShortIdentity event.identity) (unseen : event.identity ∉ done) (account : event.accountId = 5)
    (refused : authorized sharedSetup.py (sharedSetup.adapters 0) event = false)
    (permitted : authorized sharedSetup.py (sharedSetup.adapters 1) event = true) :
    ∃ actions t, Run (Step sharedSetup) s actions t ∧ t.drains 0 = s.drains 0 ∧ t.drains 1 = none ∧
      Holds .default t.file (rested ((done ++ [event.identity]).rtake 10000)) := by
  have accepted := (rested_settled bounded holds.sound.seen).accept unseen
  have stored := ingest_small holds short rfl small named unseen permitted
  have known : ∀ identity ∈ ((rested done).apply HeyEvent.identity 10000 (.accept event)).seen, ShortIdentity identity := by
    rw [accepted.layout]
    exact List.forall_mem_append.mpr ⟨short, List.forall_mem_singleton.mpr named⟩
  have same : event.accountId = (sharedSetup.adapters 1).accountId := account
  obtain ⟨t, ran, first, second, held⟩ := refused_run
    (s := { s with file := (ingest .default event (authorized sharedSetup.py (sharedSetup.adapters 1)) .none s.file).file })
    idle stored known rfl account refused
  rw [completes_last accepted rfl] at held
  exact ⟨_, t, .cons (.ingests same rfl) ran, first, second, held⟩

end HermesHey.Dispatch
