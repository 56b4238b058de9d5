import HermesHey.Library.Transition
import HermesHey.QueueCodec

/-! The state file refines a first-in first-out queue: what it holds at any
time is what the calls so far accepted and have not completed. -/
namespace HermesHey.DurableQueue
open Library Library.Json HermesHey.Core

/-- The abstract queue of events. -/
abbrev Queue := Fifo Text HeyEvent

/-- The file holds the abstract queue. -/
structure Holds (limits : Limits) (file : File) (queue : Queue) : Prop where
  loaded : load limits file =
    .ok { seen := queue.seen, pending := queue.pending.map HeyEvent.toDict }
  valid : ∀ event ∈ queue.pending, event.Valid
  capacity : queue.pending.length ≤ limits.maxPending
  identities : ∀ identity ∈ queue.seen, isEventIdentity identity = true
  sound : queue.Sound HeyEvent.identity

/-- What the file of a queue looks like: absent when nothing was ever written,
otherwise a document whose items hold the pending events, the legacy ones as messages. -/
def Recorded (limits : Limits) (file : File) (queue : Queue) : Prop :=
  match file with
  | none => queue = Fifo.empty
  | some encoded => ∃ raw members, Text.decode encoded = some raw ∧
      loads plainHook raw = .ok (.obj members) ∧ Describes limits members queue.seen queue.pending

private theorem forall₂_valid {items : List Value} {events : List HeyEvent}
    (persisted : List.Forall₂ Persisted items events) : ∀ event ∈ events, event.Valid := by
  induction persisted with
  | nil => simp
  | cons first _ ih =>
    obtain ⟨_, _, valid, _⟩ := first
    exact List.forall_mem_cons.mpr ⟨valid, ih⟩

/-- Every file that `_load` accepts holds an abstract queue. -/
theorem holds_of_load (accepted : load limits file = .ok state) :
    ∃ queue, Recorded limits file queue ∧ Holds limits file queue ∧ queue.seen = state.seen := by
  cases file with
  | none =>
    cases accepted
    exact ⟨Fifo.empty, rfl, ⟨rfl, by simp [Fifo.empty], Nat.zero_le _, by simp [Fifo.empty],
      Fifo.sound_empty⟩, rfl⟩
  | some encoded =>
    obtain ⟨_, raw, members, events, decoded, loaded, describes, pending⟩ := load_eq_ok.mp accepted
    obtain ⟨items, _, persisted⟩ := describes.pendingHeld
    refine ⟨{ seen := state.seen, pending := events }, ⟨raw, members, decoded, loaded, describes⟩, ?_, rfl⟩
    refine ⟨?_, forall₂_valid persisted, describes.capacity, describes.identities,
      describes.seenDistinct, describes.pendingDistinct, describes.recorded⟩
    rw [accepted, ← pending]

/-- An absent file holds the empty queue. -/
theorem holds_none (limits : Limits) : Holds limits none Fifo.empty := by
  have loaded : load limits none = .ok { seen := [], pending := [] } := rfl
  obtain ⟨queue, recorded, holds, _⟩ := holds_of_load loaded
  cases recorded
  exact holds

/-! ## The three operations on a file that holds a queue -/

/-- The identity of a valid event has the recorded form. -/
theorem isEventIdentity_identity {event : HeyEvent} (valid : event.Valid) :
    isEventIdentity event.identity = true := by
  obtain ⟨n, thread⟩ := Int.eq_ofNat_of_zero_le (Int.le_of_lt valid.thread)
  obtain ⟨m, entry⟩ := Int.eq_ofNat_of_zero_le (Int.le_of_lt valid.entry)
  have threadPos : 0 < n := by
    have positive := valid.thread
    omega
  have entryPos : 0 < m := by
    have positive := valid.entry
    omega
  have spelled : event.identity = text "thread:" ++ (decimal n ++ (text ":entry:" ++ decimal m)) := by
    rw [HeyEvent.identity, valid.identity, identityOf, thread, entry]
    simp [decimalInt]
  have threadWidth : (text "thread:").length = 7 := by decide
  have entryWidth : (text ":entry:").length = 7 := by decide
  have ahead : NoDigitAhead (text ":entry:" ++ decimal m) := by
    rw [NoDigitAhead]
    intro point held
    cases held
    decide
  have first : (text "thread:").isPrefixOf event.identity = true := by simp [spelled]
  have afterThread : event.identity.drop 7 = decimal n ++ (text ":entry:" ++ decimal m) := by
    rw [spelled, ← threadWidth, List.drop_left]
  have afterEntry : (text ":entry:" ++ decimal m).drop 7 = decimal m := by
    rw [← entryWidth, List.drop_left]
  have last : spanPositive (decimal m) = some (decimal m, []) := by
    simpa using spanPositive_decimal entryPos noDigitAhead_nil
  simp [isEventIdentity, first, afterThread, spanPositive_decimal threadPos ahead, afterEntry, last]

/-- What a call reads of a file that holds a queue. -/
theorem openState_holds (holds : Holds limits file queue) (readable : fault ≠ .read) :
    openState limits fault file =
      .ok { seen := queue.seen, pending := queue.pending.map HeyEvent.toDict } := by
  rw [openState, if_neg readable, holds.loaded]

/-- `pending` returns the pending events, oldest first. -/
theorem pending_holds (holds : Holds limits file queue) (readable : fault ≠ .read) :
    pending limits fault file = .ok queue.pending := by
  rw [pending, openState_holds holds readable]
  exact mapM_fromDict holds.valid

private theorem pending_fault (limits : Limits) (file : File) :
    pending limits .read file = .error .storage := by
  simp [pending, openState, bind, Except.bind]

/-- `complete` leaves the other events. -/
theorem without_toDict {events : List HeyEvent} (valid : ∀ event ∈ events, event.Valid) :
    without identity (events.map HeyEvent.toDict) =
      .ok ((events.filter (HeyEvent.identity · ≠ identity)).map HeyEvent.toDict) := by
  induction events with
  | nil => rfl
  | cons event rest ih =>
    obtain ⟨first, others⟩ := List.forall_mem_cons.mp valid
    simp only [List.map_cons, without, HeyEvent.fromDict_toDict first, ih others, bind, Except.bind, pure,
      Except.pure]
    by_cases same : event.identity = identity <;> simp [same]

private theorem holds_replaced (holds : Holds limits file queue) (fresh : queue.Fresh HeyEvent.identity effect)
    (next : queue.apply HeyEvent.identity limits.maxSeen effect =
      { seen := Fifo.remember limits.maxSeen seen (events.map HeyEvent.identity), pending := events })
    (valid : ∀ event ∈ events, event.Valid) (capacity : events.length ≤ limits.maxPending)
    (identities : ∀ identity ∈ seen, isEventIdentity identity = true) (distinct : seen.Nodup)
    (recorded : events.map HeyEvent.identity ⊆ seen)
    (saved : save limits seen (events.map HeyEvent.toDict) = .ok encoded) :
    Holds limits (some encoded) (queue.apply HeyEvent.identity limits.maxSeen effect) := by
  have sound : (queue.apply HeyEvent.identity limits.maxSeen effect).Sound HeyEvent.identity :=
    holds.sound.apply fresh
  rw [next] at sound ⊢
  refine ⟨load_save valid capacity identities distinct sound.pending recorded saved, valid, capacity, ?_,
    sound⟩
  intro identity held
  rcases List.mem_append.mp held with kept | pending
  · exact identities identity (List.mem_filter.mp ((List.drop_sublist _ _).subset kept)).1
  · exact identities identity (recorded pending)

private theorem replaceFile_cases (fault : Fault) (file : File) (saved : Except PyError ByteArray)
    (result : α) :
    (∃ e, replaceFile fault file saved result = .untouched (.error e) file) ∨
      ∃ encoded, saved = .ok encoded ∧
        (fault ≠ .sync ∧ replaceFile fault file saved result = ⟨.ok result, some encoded, true⟩ ∨
          fault = .sync ∧ replaceFile fault file saved result = ⟨.error .storage, some encoded, true⟩) := by
  cases saved with
  | error e => exact .inl ⟨e, rfl⟩
  | ok encoded =>
    cases fault with
    | none => exact .inr ⟨encoded, rfl, .inl ⟨by decide, rfl⟩⟩
    | sync => exact .inr ⟨encoded, rfl, .inr ⟨rfl, rfl⟩⟩
    | read => exact .inl ⟨_, rfl⟩
    | write => exact .inl ⟨_, rfl⟩

/-- A call that replaced the file has taken effect: it returned `result`, or
the file system failed it after the rename. -/
structure Took (limits : Limits) (queue : Queue) (effect : Fifo.Effect Text HeyEvent) (fault : Fault)
    (result : α) (answer : Answer α) : Prop where
  replaced : answer.replaced = true
  fresh : queue.Fresh HeyEvent.identity effect
  holds : Holds limits answer.file (queue.apply HeyEvent.identity limits.maxSeen effect)
  outcome : fault ≠ .sync ∧ answer.result = .ok result ∨ fault = .sync ∧ answer.result = .error .storage

private theorem saved_valid {event : HeyEvent} {items : List Members}
    (saved : save limits seen items = .ok encoded) (held : event.toDict ∈ items) : event.Valid := by
  obtain ⟨parsed, read, _⟩ := bind_eq_ok.mp saved
  obtain ⟨found, _, ran⟩ := mapM_ok_at read held
  rw [← HeyEvent.eq_of_fromDict_toDict ran]
  exact (HeyEvent.fromDict_eq_ok.mp ran).2.2

/-- What a state has to satisfy to be written, of a queue that takes in an event. -/
theorem Holds.accepting {event : HeyEvent} (holds : Holds limits file queue) (valid : event.Valid)
    (fresh : event.identity ∉ queue.seen) :
    (∀ identity ∈ queue.seen ++ [event.identity], isEventIdentity identity = true) ∧
      (queue.seen ++ [event.identity]).Nodup ∧
        (queue.pending ++ [event]).map HeyEvent.identity ⊆ queue.seen ++ [event.identity] := by
  refine ⟨?_, ?_, ?_⟩
  · exact List.forall_mem_append.mpr ⟨holds.identities, by simpa using isEventIdentity_identity valid⟩
  · exact List.nodup_append'.mpr ⟨holds.sound.seen, List.nodup_singleton _, by simpa using fresh⟩
  · rw [List.map_append]
    exact List.append_subset.mpr ⟨fun _ held => List.mem_append_left _ (holds.sound.recorded held),
      List.subset_append_right _ _⟩

/-- `ingest` either leaves the file alone or accepts a valid event, which the
policy authorizes and the file does not record. -/
theorem ingest_cases (holds : Holds limits file queue) (event : HeyEvent) (authorize : HeyEvent → Bool)
    (fault : Fault) :
    (∃ result, ingest limits event authorize fault file = .untouched result file ∧
      (result = .ok false ∧ ¬ (authorize event = true ∧ event.identity ∉ queue.seen) ∨
        ∃ e, result = .error e ∧ authorize event = true)) ∨
      authorize event = true ∧ event.Valid ∧
        Took limits queue (.accept event) fault true (ingest limits event authorize fault file) := by
  by_cases authorized : authorize event = true
  swap
  · left
    exact ⟨.ok false, by simp [ingest, authorized], .inl ⟨rfl, fun both => authorized both.1⟩⟩
  by_cases readable : fault = .read
  · left
    exact ⟨.error .storage, by simp [ingest, authorized, openState, readable], .inr ⟨_, rfl, authorized⟩⟩
  have opened := openState_holds holds readable
  by_cases known : event.identity ∈ queue.seen
  · left
    exact ⟨.ok false, by simp [ingest, authorized, opened, known], .inl ⟨rfl, fun both => both.2 known⟩⟩
  by_cases full : limits.maxPending ≤ queue.pending.length
  · left
    exact ⟨.error (.runtime "HEY pending queue is full"),
      by simp [ingest, authorized, opened, known, full], .inr ⟨_, rfl, authorized⟩⟩
  have spelled : ingest limits event authorize fault file = replaceFile fault file
      (save limits (queue.seen ++ [event.identity]) ((queue.pending ++ [event]).map HeyEvent.toDict))
      true := by
    simp [ingest, authorized, opened, known, full]
  rw [spelled]
  rcases replaceFile_cases fault file (save limits (queue.seen ++ [event.identity])
    ((queue.pending ++ [event]).map HeyEvent.toDict)) true with ⟨e, refused⟩ | ⟨encoded, saved, written⟩
  · left
    exact ⟨.error e, refused, .inr ⟨e, rfl, authorized⟩⟩
  · right
    have valid : event.Valid := saved_valid saved (by simp)
    have all : ∀ held ∈ queue.pending ++ [event], held.Valid :=
      List.forall_mem_append.mpr ⟨holds.valid, by simpa using valid⟩
    have fresh : queue.Fresh HeyEvent.identity (.accept event) := known
    obtain ⟨identities, distinct, recorded⟩ := holds.accepting valid known
    have reached := holds_replaced holds fresh rfl all (by simp; omega) identities distinct recorded saved
    refine ⟨authorized, valid, ?_⟩
    rcases written with ⟨running, same⟩ | ⟨failing, same⟩ <;> rw [same]
    · exact ⟨rfl, fresh, reached, .inl ⟨running, rfl⟩⟩
    · exact ⟨rfl, fresh, reached, .inr ⟨failing, rfl⟩⟩

/-- `complete` either leaves the file alone and raises, or removes the identity. -/
theorem complete_cases (holds : Holds limits file queue) (identity : Text) (fault : Fault) :
    (∃ e, complete limits identity fault file = .untouched (.error e) file) ∨
      Took limits queue (.complete identity) fault () (complete limits identity fault file) := by
  by_cases readable : fault = .read
  · left
    exact ⟨.storage, by simp [complete, openState, readable]⟩
  have spelled : complete limits identity fault file = replaceFile fault file
      (save limits queue.seen
        ((queue.pending.filter (HeyEvent.identity · ≠ identity)).map HeyEvent.toDict)) () := by
    simp [complete, openState_holds holds readable, without_toDict holds.valid]
  rw [spelled]
  rcases replaceFile_cases fault file (save limits queue.seen
    ((queue.pending.filter (HeyEvent.identity · ≠ identity)).map HeyEvent.toDict)) () with
    ⟨e, refused⟩ | ⟨encoded, saved, written⟩
  · exact .inl ⟨e, refused⟩
  · right
    have kept : (queue.pending.filter (HeyEvent.identity · ≠ identity)).Sublist queue.pending :=
      List.filter_sublist
    have fresh : queue.Fresh HeyEvent.identity (.complete identity) := trivial
    have recorded : (queue.pending.filter (HeyEvent.identity · ≠ identity)).map HeyEvent.identity ⊆
        queue.seen := fun _ held => holds.sound.recorded ((kept.map HeyEvent.identity).subset held)
    have reached := holds_replaced holds fresh rfl (fun event held => holds.valid event (kept.subset held))
      (kept.length_le.trans holds.capacity) holds.identities holds.sound.seen recorded saved
    rcases written with ⟨running, same⟩ | ⟨failing, same⟩ <;> rw [same]
    · exact ⟨rfl, fresh, reached, .inl ⟨running, rfl⟩⟩
    · exact ⟨rfl, fresh, reached, .inr ⟨failing, rfl⟩⟩

/-- Nothing but a full queue, an event that cannot be written, or the file
system keeps `ingest` from accepting. -/
theorem ingest_accepts (holds : Holds limits file queue) (authorized : authorize event = true)
    (unseen : event.identity ∉ queue.seen) (room : queue.pending.length < limits.maxPending)
    (saved : save limits (queue.seen ++ [event.identity])
      ((queue.pending ++ [event]).map HeyEvent.toDict) = .ok encoded) :
    ingest limits event authorize .none file = ⟨.ok true, some encoded, true⟩ := by
  have opened := openState_holds holds (show Fault.none ≠ .read by decide)
  have notFull : ¬ limits.maxPending ≤ queue.pending.length := not_le.mpr room
  have spelled : ingest limits event authorize .none file = replaceFile .none file
      (save limits (queue.seen ++ [event.identity]) ((queue.pending ++ [event]).map HeyEvent.toDict))
      true := by
    simp [ingest, authorized, opened, unseen, notFull]
  rw [spelled, saved]
  rfl

/-- Nothing but a state that cannot be written, or the file system keeps `complete` from removing. -/
theorem complete_removes (holds : Holds limits file queue) (saved : save limits queue.seen
      ((queue.pending.filter (HeyEvent.identity · ≠ identity)).map HeyEvent.toDict) = .ok encoded) :
    complete limits identity .none file = ⟨.ok (), some encoded, true⟩ := by
  have opened := openState_holds holds (show Fault.none ≠ .read by decide)
  have spelled : complete limits identity .none file = replaceFile .none file (save limits queue.seen
      ((queue.pending.filter (HeyEvent.identity · ≠ identity)).map HeyEvent.toDict)) () := by
    simp [complete, opened, without_toDict holds.valid]
  rw [spelled, saved]
  rfl

/-- A file that was written with given events holds them. -/
theorem holds_saved {events : List HeyEvent} (valid : ∀ event ∈ events, event.Valid)
    (distinct : (events.map HeyEvent.identity).Nodup) (capacity : events.length ≤ limits.maxPending)
    (saved : save limits (events.map HeyEvent.identity) (events.map HeyEvent.toDict) = .ok encoded) :
    Holds limits (some encoded) { seen := events.map HeyEvent.identity, pending := events } := by
  have identities : ∀ identity ∈ events.map HeyEvent.identity, isEventIdentity identity = true := by
    intro identity held
    obtain ⟨event, inside, rfl⟩ := List.mem_map.mp held
    exact isEventIdentity_identity (valid event inside)
  have loaded := load_save valid capacity identities distinct distinct (List.Subset.refl _) saved
  rw [Fifo.remember_self] at loaded
  exact ⟨loaded, valid, capacity, identities, distinct, distinct, List.Subset.refl _⟩

/-- There is such a file, if the events can be written. -/
theorem exists_holds {events : List HeyEvent} (valid : ∀ event ∈ events, event.Valid)
    (distinct : (events.map HeyEvent.identity).Nodup) (capacity : events.length ≤ limits.maxPending)
    (checked : writable limits (events.map HeyEvent.identity) events = true) :
    ∃ file, Holds limits file { seen := events.map HeyEvent.identity, pending := events } := by
  obtain ⟨encoded, saved⟩ := save_of_writable valid checked
  exact ⟨some encoded, holds_saved valid distinct capacity saved⟩

/-! ## The pending events of any file, whether or not it can be loaded -/

/-- The events `pending` would return; none from a file that `_load` refuses. -/
def pendingEvents (limits : Limits) (file : File) : List HeyEvent :=
  match pending limits .none file with
  | .ok events => events
  | .error _ => []

/-- `pending` returns the pending events of the queue that the file holds. -/
theorem pendingEvents_holds (holds : Holds limits file queue) :
    pendingEvents limits file = queue.pending := by
  rw [pendingEvents, pending_holds holds (by decide)]

/-- Either a queue is held, or every call raises and leaves the file as it is. -/
theorem holds_or_refused (limits : Limits) (file : File) :
    (∃ queue, Holds limits file queue) ∨ ∃ e, load limits file = .error e := by
  cases loaded : load limits file with
  | ok state =>
    obtain ⟨queue, _, holds, _⟩ := holds_of_load loaded
    exact .inl ⟨queue, holds⟩
  | error e => exact .inr ⟨e, rfl⟩

/-- A file that is refused cannot be read. -/
theorem openState_refused (refused : load limits file = .error e) (fault : Fault) :
    ∃ e, openState limits fault file = .error e := by
  by_cases unreadable : fault = .read
  · exact ⟨.storage, by rw [openState, if_pos unreadable]⟩
  · exact ⟨e, by rw [openState, if_neg unreadable, refused]⟩

/-- A call of `pending` that returns, returns the pending events. -/
theorem pending_eq_ok (listed : pending limits fault file = .ok events) :
    events = pendingEvents limits file := by
  rcases holds_or_refused limits file with ⟨queue, holds⟩ | ⟨e, refused⟩
  · by_cases unreadable : fault = .read
    · rw [unreadable, pending_fault] at listed
      cases listed
    · rw [pending_holds holds unreadable] at listed
      cases listed
      exact (pendingEvents_holds holds).symm
  · obtain ⟨e, failed⟩ := openState_refused refused fault
    rw [pending, failed] at listed
    cases listed

/-- Pending events are valid. -/
theorem pendingEvents_valid (held : event ∈ pendingEvents limits file) : event.Valid := by
  rcases holds_or_refused limits file with ⟨queue, holds⟩ | ⟨e, refused⟩
  · rw [pendingEvents_holds holds] at held
    exact holds.valid event held
  · obtain ⟨e, failed⟩ := openState_refused refused .none
    rw [pendingEvents, pending, failed] at held
    cases held

/-- `ingest` appends the event or leaves the pending events as they are. -/
theorem ingest_pendingEvents (limits : Limits) (event : HeyEvent) (authorize : HeyEvent → Bool)
    (fault : Fault) (file : File) :
    pendingEvents limits (ingest limits event authorize fault file).file = pendingEvents limits file ∨
      authorize event = true ∧ event.Valid ∧ (ingest limits event authorize fault file).replaced = true ∧
        event.identity ∉ (pendingEvents limits file).map HeyEvent.identity ∧
        pendingEvents limits (ingest limits event authorize fault file).file =
          pendingEvents limits file ++ [event] := by
  rcases holds_or_refused limits file with ⟨queue, holds⟩ | ⟨e, refused⟩
  · rcases ingest_cases holds event authorize fault with ⟨_, same, _⟩ | ⟨authorized, valid, took⟩
    · left
      rw [same, Answer.untouched]
    · right
      rw [pendingEvents_holds took.holds, pendingEvents_holds holds]
      exact ⟨authorized, valid, took.replaced, fun held => took.fresh (holds.sound.recorded held), rfl⟩
  · obtain ⟨e, failed⟩ := openState_refused refused fault
    left
    by_cases authorized : authorize event = true <;> simp [ingest, authorized, failed, Answer.untouched]

/-- An event the file remembers is not stored again. -/
theorem ingest_remembered (loaded : load limits file = .ok state) (known : event.identity ∈ state.seen)
    (authorize : HeyEvent → Bool) (fault : Fault) :
    pendingEvents limits (ingest limits event authorize fault file).file = pendingEvents limits file := by
  obtain ⟨queue, _, holds, same⟩ := holds_of_load loaded
  rcases ingest_cases holds event authorize fault with ⟨_, untouched, _⟩ | ⟨_, _, took⟩
  · rw [untouched, Answer.untouched]
  · exact absurd (same ▸ known) took.fresh

/-- When `ingest` returns, the file remembers an authorized event. -/
theorem ingest_records (authorized : authorize event = true)
    (returned : (ingest limits event authorize fault file).result = .ok accepted) :
    ∃ state, load limits (ingest limits event authorize fault file).file = .ok state ∧
      event.identity ∈ state.seen := by
  rcases holds_or_refused limits file with ⟨queue, holds⟩ | ⟨e, refused⟩
  · rcases ingest_cases holds event authorize fault with ⟨result, untouched, known⟩ | ⟨_, _, took⟩
    · rw [untouched] at returned ⊢
      refine ⟨_, holds.loaded, ?_⟩
      rcases known with ⟨_, known⟩ | ⟨e, failed, _⟩
      · by_contra unseen
        exact known ⟨authorized, unseen⟩
      · rw [failed] at returned
        cases returned
    · refine ⟨_, took.holds.loaded, ?_⟩
      apply took.holds.sound.recorded
      apply List.mem_map.mpr
      exact ⟨event, List.mem_append_right _ (List.mem_singleton_self event), rfl⟩
  · obtain ⟨e, failed⟩ := openState_refused refused fault
    simp [ingest, authorized, failed, Answer.untouched] at returned

/-- `complete` removes the identity or leaves the pending events as they are; it
leaves nothing of the identity when it returns. -/
theorem complete_pendingEvents (limits : Limits) (identity : Text) (fault : Fault) (file : File) :
    (pendingEvents limits (complete limits identity fault file).file = pendingEvents limits file ∧
        ∃ e, (complete limits identity fault file).result = .error e) ∨
      pendingEvents limits (complete limits identity fault file).file =
        (pendingEvents limits file).filter (HeyEvent.identity · ≠ identity) := by
  rcases holds_or_refused limits file with ⟨queue, holds⟩ | ⟨e, refused⟩
  · rcases complete_cases holds identity fault with ⟨e, same⟩ | took
    · left
      rw [same]
      exact ⟨rfl, e, rfl⟩
    · right
      rw [pendingEvents_holds took.holds, pendingEvents_holds holds]
      rfl
  · obtain ⟨e, failed⟩ := openState_refused refused fault
    left
    simp [complete, failed, Answer.untouched]

/-! ## Runs of calls -/

/-- A call on the file, by any instance in any process. -/
inductive Call where
  | ingest (event : HeyEvent) (authorize : HeyEvent → Bool) (fault : Fault)
  | pending (fault : Fault)
  | complete (identity : Text) (fault : Fault)

inductive Reply where
  | accepted (answer : Bool)
  | listed (events : List HeyEvent)
  | completed

/-- One call with what it returned or raised, and whether it replaced the file. -/
structure Entry where
  call : Call
  result : Except PyError Reply
  replaced : Bool

def Answer.map (f : α → β) (answer : Answer α) : Answer β :=
  ⟨f <$> answer.result, answer.file, answer.replaced⟩

def Call.run (limits : Limits) (file : File) : Call → Answer Reply
  | .ingest event authorize fault => (DurableQueue.ingest limits event authorize fault file).map .accepted
  | .pending fault => .untouched (.listed <$> DurableQueue.pending limits fault file) file
  | .complete identity fault => (DurableQueue.complete limits identity fault file).map fun _ => .completed

/-- One call takes the file to the next. -/
def Step (limits : Limits) (file : File) (entry : Entry) (next : File) : Prop :=
  entry.call.run limits file = ⟨entry.result, next, entry.replaced⟩

/-- What a call does to the abstract queue: nothing, unless it replaced the file. -/
def Entry.effect (entry : Entry) : Fifo.Effect Text HeyEvent :=
  match entry.call with
  | .ingest event _ _ => if entry.replaced then .accept event else .none
  | .pending _ => .none
  | .complete identity _ => if entry.replaced then .complete identity else .none

/-- Every list of calls has a run. -/
theorem exists_run (limits : Limits) (file : File) (calls : List Call) :
    ∃ entries next, Run (Step limits) file entries next ∧ entries.map Entry.call = calls := by
  induction calls generalizing file with
  | nil => exact ⟨[], file, .nil, rfl⟩
  | cons call rest ih =>
    let answer := call.run limits file
    obtain ⟨entries, next, ran, same⟩ := ih answer.file
    refine ⟨⟨call, answer.result, answer.replaced⟩ :: entries, next, .cons rfl ran, ?_⟩
    rw [List.map_cons, same]

/-- The abstract queue after the calls of a run. -/
def Queue.after (limits : Limits) (start : Queue) (entries : List Entry) : Queue :=
  start.play HeyEvent.identity limits.maxSeen (entries.map Entry.effect)

/-- What a call answers, told from the abstract queue it found. -/
structure Correct (queue : Queue) (file : File) (entry : Entry) (next : File) : Prop where
  /-- `ingest` returns whether it accepted: the event is authorized and not recorded. -/
  ingest : ∀ event authorize fault answer, entry.call = .ingest event authorize fault →
    entry.result = .ok (.accepted answer) →
      (answer = true ↔ authorize event = true ∧ event.identity ∉ queue.seen) ∧ entry.replaced = answer
  /-- `pending` returns the pending events, in the order of their acceptance. -/
  pending : ∀ fault, entry.call = .pending fault → fault ≠ .read →
    entry.result = .ok (.listed queue.pending)
  /-- `complete` takes effect when it returns. -/
  complete : ∀ identity fault reply, entry.call = .complete identity fault →
    entry.result = .ok reply → entry.replaced = true
  /-- A call that raises takes no effect, unless the file system failed after the rename. -/
  raised : ∀ e, entry.result = .error e → entry.replaced = true → e = .storage
  untouched : entry.replaced = false → next = file

/-- One call on a file that holds a queue: the file then holds the queue after
the call's effect, and the answer is the abstract one. -/
theorem step_refines (holds : Holds limits file queue) (taken : Step limits file entry next) :
    Holds limits next (queue.apply HeyEvent.identity limits.maxSeen entry.effect) ∧
      queue.Fresh HeyEvent.identity entry.effect ∧ Correct queue file entry next := by
  obtain ⟨call, result, replaced⟩ := entry
  cases call with
  | ingest event authorize fault =>
    rcases ingest_cases holds event authorize fault with
      ⟨result', same, answered⟩ | ⟨authorized, _, took⟩
    · simp only [Step, Call.run, same, Answer.map, Answer.untouched, Answer.mk.injEq] at taken
      obtain ⟨rfl, rfl, rfl⟩ := taken
      refine ⟨holds, trivial, ?_, ?_, ?_, ?_, fun _ => rfl⟩
      · rintro _ _ _ answer ⟨⟩ returned
        rcases answered with ⟨rfl, refused⟩ | ⟨e, rfl, _⟩
        · cases returned
          exact ⟨⟨fun impossible => (by cases impossible), fun both => absurd both refused⟩, rfl⟩
        · cases returned
      · rintro _ ⟨⟩
      · rintro _ _ _ ⟨⟩
      · rintro _ _ ⟨⟩
    · obtain ⟨wrote, fresh, reached, outcome⟩ := took
      simp only [Step, Call.run, Answer.map, Answer.mk.injEq] at taken
      obtain ⟨rfl, rfl, rfl⟩ := taken
      have effect : Entry.effect ⟨.ingest event authorize fault, .accepted <$> (DurableQueue.ingest limits
          event authorize fault file).result, (DurableQueue.ingest limits event authorize fault
          file).replaced⟩ = .accept event := by
        simp [Entry.effect, wrote]
      rw [effect]
      refine ⟨reached, fresh, ?_, ?_, ?_, ?_, ?_⟩
      · rintro _ _ _ answer ⟨⟩ returned
        rcases outcome with ⟨_, same⟩ | ⟨_, same⟩ <;> rw [same] at returned <;> cases returned
        exact ⟨⟨fun _ => ⟨authorized, fresh⟩, fun _ => rfl⟩, wrote⟩
      · rintro _ ⟨⟩
      · rintro _ _ _ ⟨⟩
      · intro e failed _
        rcases outcome with ⟨_, same⟩ | ⟨_, same⟩ <;> rw [same] at failed <;> cases failed
        rfl
      · intro kept
        rw [wrote] at kept
        cases kept
  | pending fault =>
    simp only [Step, Call.run, Answer.untouched, Answer.mk.injEq] at taken
    obtain ⟨rfl, rfl, rfl⟩ := taken
    refine ⟨holds, trivial, ?_, ?_, ?_, ?_, fun _ => rfl⟩
    · rintro _ _ _ _ ⟨⟩
    · rintro _ ⟨⟩ readable
      rw [pending_holds holds readable]
      rfl
    · rintro _ _ _ ⟨⟩
    · rintro _ _ ⟨⟩
  | complete identity fault =>
    rcases complete_cases holds identity fault with ⟨e, same⟩ | took
    · simp only [Step, Call.run, same, Answer.map, Answer.untouched, Answer.mk.injEq] at taken
      obtain ⟨rfl, rfl, rfl⟩ := taken
      refine ⟨holds, trivial, ?_, ?_, ?_, ?_, fun _ => rfl⟩
      · rintro _ _ _ _ ⟨⟩
      · rintro _ ⟨⟩
      · rintro _ _ _ _ ⟨⟩
      · rintro _ _ ⟨⟩
    · obtain ⟨wrote, fresh, reached, outcome⟩ := took
      simp only [Step, Call.run, Answer.map, Answer.mk.injEq] at taken
      obtain ⟨rfl, rfl, rfl⟩ := taken
      have effect : Entry.effect ⟨.complete identity fault, (fun _ => .completed) <$>
          (DurableQueue.complete limits identity fault file).result,
          (DurableQueue.complete limits identity fault file).replaced⟩ = .complete identity := by
        simp [Entry.effect, wrote]
      rw [effect]
      refine ⟨reached, fresh, ?_, ?_, fun _ _ _ _ _ => wrote, ?_, ?_⟩
      · rintro _ _ _ _ ⟨⟩
      · rintro _ ⟨⟩
      · intro e failed _
        rcases outcome with ⟨_, same⟩ | ⟨_, same⟩ <;> rw [same] at failed <;> cases failed
        rfl
      · intro kept
        rw [wrote] at kept
        cases kept

/-- Over a run the file keeps holding the queue that the effects of its calls make. -/
theorem run_refines (holds : Holds limits file queue) (ran : Run (Step limits) file entries next) :
    Holds limits next (Queue.after limits queue entries) ∧
      queue.Legal HeyEvent.identity limits.maxSeen (entries.map Entry.effect) := by
  induction ran generalizing queue with
  | nil => exact ⟨holds, trivial⟩
  | cons taken rest ih =>
    obtain ⟨reached, fresh, _⟩ := step_refines holds taken
    obtain ⟨last, legal⟩ := ih reached
    exact ⟨last, fresh, legal⟩

/-- From any file `_load` accepts, in any run of calls: every call answers as
the abstract queue does, and the file holds what was accepted and not completed. -/
theorem queue_refines_fifo (limits : Limits) (file : File) (state : State)
    (accepted : load limits file = .ok state) :
    ∃ start : Queue, Recorded limits file start ∧ start.seen = state.seen ∧
      ∀ entries last, Run (Step limits) file entries last →
        pending limits .none last = .ok (Queue.after limits start entries).pending ∧
          ∀ before entry after, entries = before ++ entry :: after →
            ∃ found left, Run (Step limits) file before found ∧ Step limits found entry left ∧
              load limits found = .ok
                { seen := (Queue.after limits start before).seen,
                  pending := (Queue.after limits start before).pending.map HeyEvent.toDict } ∧
              Correct (Queue.after limits start before) found entry left := by
  obtain ⟨start, recorded, holds, same⟩ := holds_of_load accepted
  refine ⟨start, recorded, same, fun entries last ran => ⟨?_, ?_⟩⟩
  · exact pending_holds (run_refines holds ran).1 (by decide)
  · rintro before entry after rfl
    obtain ⟨found, left, first, taken, _⟩ := ran.at_label
    have reached := (run_refines holds first).1
    exact ⟨found, left, first, taken, reached.loaded, (step_refines reached taken).2.2⟩

/-- The first run of an adapter starts without a file. -/
theorem queue_refines_fifo_absent :
    ∃ start : Queue, Recorded .default none start ∧ start.seen = [] ∧
      ∀ entries last, Run (Step .default) none entries last →
        pending .default .none last = .ok (Queue.after .default start entries).pending ∧
          ∀ before entry after, entries = before ++ entry :: after →
            ∃ found left, Run (Step .default) none before found ∧ Step .default found entry left ∧
              load .default found = .ok
                { seen := (Queue.after .default start before).seen,
                  pending := (Queue.after .default start before).pending.map HeyEvent.toDict } ∧
              Correct (Queue.after .default start before) found entry left :=
  queue_refines_fifo .default none { seen := [], pending := [] } rfl

end HermesHey.DurableQueue
