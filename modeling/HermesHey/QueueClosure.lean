import HermesHey.QueueRefinement

/-! The state file under the queue's own operations: what a call writes is what
`_load` accepts, in the current format and within every limit. -/
namespace HermesHey.DurableQueue
open Library Library.Json HermesHey.Core

/-- An item of the file is a dictionary of all fourteen fields of a valid event. -/
def Whole (item : Value) (event : HeyEvent) : Prop :=
  ∃ members, item = .obj members ∧ event.Valid ∧ (members.map Prod.fst).Perm eventKeys ∧
    ∀ member ∈ event.toDict, members.lookup member.1 = some member.2

/-- The bytes hold the two lists and nothing else. -/
def Spells (encoded : ByteArray) (seen : List Text) (events : List HeyEvent) : Prop :=
  ∃ raw members items, Text.decode encoded = some raw ∧ loads plainHook raw = .ok (.obj members) ∧
    (∀ key, key ∈ members.map Prod.fst ↔ key ∈ [text "seen", text "pending"]) ∧
      members.lookup (text "seen") = some (.arr (seen.map .str)) ∧
        members.lookup (text "pending") = some (.arr items) ∧ List.Forall₂ Whole items events

/-- What every file written by the queue satisfies. -/
structure WellFormed (limits : Limits) (encoded : ByteArray) (seen : List Text) (events : List HeyEvent) : Prop where
  spelled : Spells encoded seen events
  /-- `_load` accepts the file. -/
  accepted : load limits (some encoded) = .ok { seen, pending := events.map HeyEvent.toDict }
  seenDistinct : seen.Nodup
  pendingDistinct : (events.map HeyEvent.identity).Nodup
  /-- The pending identities are the tail of the recorded ones, after a bounded number of completed ones. -/
  tail : ∃ completed, seen = completed ++ events.map HeyEvent.identity ∧ completed.length ≤ limits.maxSeen
  capacity : events.length ≤ limits.maxPending
  size : encoded.size ≤ limits.maxStateBytes

private theorem whole_sorted {event : HeyEvent} (valid : event.Valid) :
    Whole (sortKeys (.obj event.toDict)) event := by
  obtain ⟨sorted, spelled, looked, keys⟩ := sortKeys_obj event.toDict HeyEvent.eventKeys_distinct
  refine ⟨sorted, spelled, valid, keys, fun member held => ?_⟩
  rw [looked, HeyEvent.lookup_toDict.mpr held]
  exact congrArg some (sortKeys_field held)

private theorem spells_dumps {seen : List Text} {events : List HeyEvent}
    (valid : ∀ event ∈ events, event.Valid)
    (dumped : dumps (document seen (events.map HeyEvent.toDict)) = some serialized)
    (written : serialized.encode = some encoded) : Spells encoded seen events := by
  have names : ([text "seen", text "pending"] : List Text).Nodup := by decide
  have other : (text "pending" == text "seen") = false := by decide
  obtain ⟨members, spelled, looked, keys⟩ := sortKeys_obj [(text "seen", .arr (seen.map .str)),
    (text "pending", .arr ((events.map HeyEvent.toDict).map .obj))] names
  have loaded := loads_dumps plain_document dumped
  rw [document, spelled] at loaded
  refine ⟨serialized, members, ((events.map HeyEvent.toDict).map .obj).map sortKeys,
    Text.decode_of_encode written, loaded, fun key => keys.mem_iff, ?_, ?_, ?_⟩
  · rw [looked, List.lookup_cons_self, Option.map_some, sortKeys, sortElements_eq_map, List.map_map]
    rfl
  · rw [looked, List.lookup_cons, other, List.lookup_cons_self, Option.map_some, sortKeys, sortElements_eq_map]
  · rw [List.map_map, List.map_map, List.forall₂_map_left_iff, List.forall₂_same]
    exact fun event held => whole_sorted (valid event held)

private theorem formed_of_save {seen : List Text} {events : List HeyEvent}
    (valid : ∀ event ∈ events, event.Valid) (capacity : events.length ≤ limits.maxPending)
    (identities : ∀ identity ∈ seen, isEventIdentity identity = true) (distinct : seen.Nodup)
    (apart : (events.map HeyEvent.identity).Nodup) (recorded : events.map HeyEvent.identity ⊆ seen)
    (saved : save limits seen (events.map HeyEvent.toDict) = .ok encoded) :
    WellFormed limits encoded (Fifo.remember limits.maxSeen seen (events.map HeyEvent.identity)) events := by
  obtain ⟨serialized, dumped, written, small⟩ := (save_eq_ok valid).mp saved
  rw [durableSeen_eq distinct apart] at dumped
  refine ⟨spells_dumps valid dumped written,
    load_save valid capacity identities distinct apart recorded saved,
    Fifo.remember_nodup distinct apart, apart, ?_, capacity, small⟩
  refine ⟨_, rfl, ?_⟩
  rw [List.rtake, List.length_drop]
  omega

private theorem saved_of_replaced (replaced : (replaceFile fault file saved result).replaced = true) :
    ∃ encoded, saved = .ok encoded ∧ (replaceFile fault file saved result).file = some encoded := by
  cases saved with
  | error e => cases replaced
  | ok encoded =>
    cases fault with
    | none => exact ⟨encoded, rfl, rfl⟩
    | sync => exact ⟨encoded, rfl, rfl⟩
    | read => cases replaced
    | write => cases replaced

/-- A file that was left alone by a call that raised or accepted nothing, or one that was replaced. -/
inductive Closed (limits : Limits) (file : File) (refused : Except PyError α → Prop) (answer : Answer α) : Prop where
  | unchanged (kept : answer.file = file) (unwritten : answer.replaced = false) (outcome : refused answer.result)
  | written (file : answer.file = some encoded) (formed : WellFormed limits encoded seen events)

/-- The call raised. -/
def Raised (result : Except PyError α) : Prop := ∃ e, result = .error e

private theorem ingest_closed (holds : Holds limits file queue) (event : HeyEvent) (authorize : HeyEvent → Bool)
    (fault : Fault) : Closed limits file (fun result => Raised result ∨ result = .ok false)
      (ingest limits event authorize fault file) := by
  rcases ingest_cases holds event authorize fault with ⟨result, same, outcome⟩ | ⟨authorized, valid, took⟩
  · rw [same]
    refine .unchanged rfl rfl ?_
    rcases outcome with ⟨refused, _⟩ | ⟨e, raised, _⟩
    · exact .inr refused
    · exact .inl ⟨e, raised⟩
  · have capacity : (queue.pending ++ [event]).length ≤ limits.maxPending := took.holds.capacity
    have apart : ((queue.pending ++ [event]).map HeyEvent.identity).Nodup := took.holds.sound.pending
    obtain ⟨identities, distinct, recorded⟩ := holds.accepting valid took.fresh
    have readable : fault ≠ .read := by
      rintro rfl
      have unreplaced := took.replaced
      simp [ingest, authorized, openState, Answer.untouched] at unreplaced
    have unseen : event.identity ∉ queue.seen := took.fresh
    have notFull : ¬ limits.maxPending ≤ queue.pending.length := by
      simp only [List.length_append, List.length_singleton] at capacity
      omega
    have spelled : ingest limits event authorize fault file = replaceFile fault file
        (save limits (queue.seen ++ [event.identity]) ((queue.pending ++ [event]).map HeyEvent.toDict)) true := by
      simp [ingest, authorized, openState_holds holds readable, unseen, notFull]
    have replaced := took.replaced
    rw [spelled] at replaced ⊢
    obtain ⟨encoded, saved, left⟩ := saved_of_replaced replaced
    exact .written left (formed_of_save took.holds.valid capacity identities distinct apart recorded saved)

private theorem complete_closed (holds : Holds limits file queue) (identity : Text) (fault : Fault) :
    Closed limits file Raised (complete limits identity fault file) := by
  rcases complete_cases holds identity fault with ⟨e, same⟩ | took
  · rw [same]
    exact .unchanged rfl rfl ⟨e, rfl⟩
  · let kept := queue.pending.filter (HeyEvent.identity · ≠ identity)
    have valid : ∀ event ∈ kept, event.Valid := took.holds.valid
    have capacity : kept.length ≤ limits.maxPending := took.holds.capacity
    have apart : (kept.map HeyEvent.identity).Nodup := took.holds.sound.pending
    have recorded : kept.map HeyEvent.identity ⊆ queue.seen := fun _ held =>
      holds.sound.recorded ((List.filter_sublist.map HeyEvent.identity).subset held)
    have readable : fault ≠ .read := by
      rintro rfl
      have unreplaced := took.replaced
      simp [complete, openState, Answer.untouched] at unreplaced
    have spelled : complete limits identity fault file =
        replaceFile fault file (save limits queue.seen (kept.map HeyEvent.toDict)) () := by
      simp [complete, openState_holds holds readable, without_toDict holds.valid, kept]
    have replaced := took.replaced
    rw [spelled] at replaced ⊢
    obtain ⟨encoded, saved, left⟩ := saved_of_replaced replaced
    exact .written left (formed_of_save valid capacity holds.identities holds.sound.seen apart recorded saved)

/-- A call that raised and left the file alone. -/
def Refused (file : File) (answer : Answer α) : Prop :=
  answer.file = file ∧ answer.replaced = false ∧ Raised answer.result

/-- On every file: the queue's operations either leave the bytes as they are or write bytes that
`_load` accepts again, within every limit; and what `_load` refuses is never written over. -/
theorem file_closed (limits : Limits) (file : File) :
    (∀ state, load limits file = .ok state →
      (∀ event authorize fault, Closed limits file (fun result => Raised result ∨ result = .ok false)
        (ingest limits event authorize fault file)) ∧
        ∀ identity fault, Closed limits file Raised (complete limits identity fault file)) ∧
      ∀ e, load limits file = .error e →
        (∀ event authorize fault, authorize event = true → Refused file (ingest limits event authorize fault file)) ∧
          (∀ identity fault, Refused file (complete limits identity fault file)) ∧
            ∀ fault, Raised (pending limits fault file) := by
  constructor
  · intro state accepted
    obtain ⟨queue, _, holds, _⟩ := holds_of_load accepted
    exact ⟨ingest_closed holds, complete_closed holds⟩
  · intro e refused
    refine ⟨?_, ?_, ?_⟩
    · intro event authorize fault authorized
      obtain ⟨e, failed⟩ := openState_refused refused fault
      simp [Refused, Raised, ingest, authorized, failed, Answer.untouched]
    · intro identity fault
      obtain ⟨e, failed⟩ := openState_refused refused fault
      simp [Refused, Raised, complete, failed, Answer.untouched]
    · intro fault
      obtain ⟨e, failed⟩ := openState_refused refused fault
      exact ⟨e, by simp [pending, failed, bind, Except.bind]⟩

/-- The first event of an adapter without a file. -/
theorem file_closed_absent : Closed .default none (fun result => Raised result ∨ result = .ok false)
    (ingest .default (greeting 1 1) (fun _ => true) .none none) :=
  ((file_closed .default none).1 _ rfl).1 (greeting 1 1) (fun _ => true) .none

end HermesHey.DurableQueue
