import HermesHey.DurableQueue
import HermesHey.Library.Fifo
import HermesHey.Library.JsonWritable

/-! The state file read back: what `_load` accepts, and that it reads what
`_save` wrote. -/
namespace HermesHey.DurableQueue
open Library Library.Json HermesHey.Core

/-! ## What a loaded state satisfies -/

/-- The keys of a legacy message are all but the kind. -/
theorem mem_legacy : key ∈ legacyMessageEventKeys ↔ key ∈ eventKeys ∧ key ≠ text "kind" := by
  simp [legacyMessageEventKeys, List.mem_filter]

private theorem mem_eventKeys : key ∈ legacyMessageEventKeys ∨ key = text "kind" ↔ key ∈ eventKeys := by
  have known : text "kind" ∈ eventKeys := by decide
  rw [mem_legacy]
  constructor
  · rintro (held | rfl)
    · exact held.1
    · exact known
  · intro held
    by_cases same : key = text "kind"
    · exact .inr same
    · exact .inl ⟨held, same⟩

/-- A persisted item holds the event: its own dictionary, or the dictionary of
a message without the kind. -/
def Persisted (item : Value) (event : HeyEvent) : Prop :=
  ∃ members, item = .obj members ∧ event.Valid ∧
    ((∀ key, key ∈ members.map Prod.fst ↔ key ∈ eventKeys) ∧
        (∀ member ∈ event.toDict, members.lookup member.1 = some member.2) ∨
      (∀ key, key ∈ members.map Prod.fst ↔ key ∈ legacyMessageEventKeys) ∧
        event.kind = text "message" ∧
        ∀ member ∈ event.toDict, member.1 ≠ text "kind" → members.lookup member.1 = some member.2)

private theorem parseSeen_eq_ok :
    parseSeen value = .ok identity ↔ value = .str identity ∧ isEventIdentity identity = true := by
  cases value with
  | str s =>
    rw [parseSeen]
    split
    · rename_i accepted
      simp only [Except.ok.injEq, Value.str.injEq]
      constructor
      · rintro rfl
        exact ⟨rfl, accepted⟩
      · exact fun same => same.1
    · rename_i refused
      simp only [reduceCtorEq, Value.str.injEq, false_iff, not_and]
      rintro rfl
      exact refused
  | _ => simp [parseSeen]

private theorem refuseSchema_eq_ok {x : Except PyError α} : refuseSchema x = .ok a ↔ x = .ok a := by
  cases x with
  | ok a => simp [refuseSchema]
  | error e => cases e <;> simp [refuseSchema]

private theorem fromDict_legacy {members : Members}
    (legacy : ∀ key, key ∈ members.map Prod.fst ↔ key ∈ legacyMessageEventKeys) :
    HeyEvent.fromDict (dictSet members (text "kind") (.str (text "message"))) = .ok event ↔
      event.Valid ∧ event.kind = text "message" ∧
        ∀ member ∈ event.toDict, member.1 ≠ text "kind" → members.lookup member.1 = some member.2 := by
  have kindHeld : (text "kind", Value.str event.kind) ∈ event.toDict := by simp [HeyEvent.toDict]
  have onlyKind : ∀ member ∈ event.toDict, member.1 = text "kind" → member.2 = .str event.kind := by
    intro member held same
    have found := HeyEvent.lookup_toDict.mpr held
    rw [same, HeyEvent.lookup_toDict.mpr kindHeld] at found
    exact (Option.some.inj found).symm
  rw [HeyEvent.fromDict_eq_ok]
  simp only [lookup_dictSet, dictSet_keys, legacy, mem_eventKeys, implies_true, true_and]
  constructor
  · rintro ⟨looked, valid⟩
    refine ⟨valid, ?_, ?_⟩
    · simpa using (looked _ kindHeld).symm
    · intro member held other
      simpa [other] using looked member held
  · rintro ⟨valid, message, looked⟩
    refine ⟨?_, valid⟩
    intro member held
    split
    · rename_i same
      rw [onlyKind member held same, message]
    · rename_i other
      exact looked member held other

/-- A persisted item is accepted exactly when it holds the event. -/
theorem parsePersistedEvent_eq_ok {persisted : Value} :
    parsePersistedEvent persisted = .ok event ↔ Persisted persisted event := by
  cases persisted with
  | obj members =>
    have coerced : ∀ {normalized : Members}, (∃ parsed, HeyEvent.fromDict normalized = .ok parsed ∧
        sameDict parsed.toDict normalized = true ∧ parsed = event) ↔
        HeyEvent.fromDict normalized = .ok event := by
      intro normalized
      constructor
      · rintro ⟨parsed, ran, _, rfl⟩
        exact ran
      · exact fun ran => ⟨event, ran, sameDict_of_fromDict ran, rfl⟩
    simp only [parsePersistedEvent, bind_eq_ok, ite_error_eq_ok, pure_eq_ok, not_not, coerced, normalize]
    by_cases legacy : sameKeys (members.map Prod.fst) legacyMessageEventKeys = true
    · have keys := sameKeys_iff.mp legacy
      simp only [legacy, ↓reduceIte, Except.ok.injEq, exists_eq_left', fromDict_legacy keys, Persisted]
      constructor
      · rintro ⟨valid, message, looked⟩
        exact ⟨members, rfl, valid, .inr ⟨keys, message, looked⟩⟩
      · rintro ⟨_, same, valid, (⟨current, _⟩ | ⟨_, message, looked⟩)⟩ <;> cases same
        · have known := (current (text "kind")).mpr (by decide)
          exact absurd ((keys _).mp known) (by decide)
        · exact ⟨valid, message, looked⟩
    · simp only [legacy, Bool.false_eq_true, ↓reduceIte, ite_error_eq_ok, not_not, Except.ok.injEq,
        HeyEvent.fromDict_eq_ok, Persisted]
      constructor
      · rintro ⟨_, ⟨_, rfl⟩, keys, looked, valid⟩
        exact ⟨members, rfl, valid, .inl ⟨keys, looked⟩⟩
      · rintro ⟨_, same, valid, (⟨keys, looked⟩ | ⟨keys, _⟩)⟩ <;> cases same
        · exact ⟨members, ⟨sameKeys_iff.mpr keys, rfl⟩, keys, looked, valid⟩
        · exact absurd (sameKeys_iff.mpr keys) legacy
  | _ => simp [parsePersistedEvent, Persisted]

/-- The document of a state: its two lists, within the limits. -/
structure Describes (limits : Limits) (members : Members) (seen : List Text) (events : List HeyEvent) :
    Prop where
  keys : ∀ key, key ∈ members.map Prod.fst ↔ key ∈ [text "seen", text "pending"]
  seenHeld : members.lookup (text "seen") = some (.arr (seen.map .str))
  pendingHeld : ∃ items, members.lookup (text "pending") = some (.arr items) ∧
    List.Forall₂ Persisted items events
  capacity : events.length ≤ limits.maxPending
  identities : ∀ identity ∈ seen, isEventIdentity identity = true
  seenDistinct : seen.Nodup
  pendingDistinct : (events.map HeyEvent.identity).Nodup
  recorded : events.map HeyEvent.identity ⊆ seen

private theorem mapM_parseSeen {values : List Value} : values.mapM parseSeen = .ok identities ↔
    values = identities.map .str ∧ ∀ identity ∈ identities, isEventIdentity identity = true := by
  rw [mapM_eq_ok]
  constructor
  · intro parsed
    induction parsed with
    | nil => simp
    | cons first rest ih =>
      obtain ⟨rfl, accepted⟩ := parseSeen_eq_ok.mp first
      obtain ⟨rfl, others⟩ := ih
      exact ⟨rfl, List.forall_mem_cons.mpr ⟨accepted, others⟩⟩
  · rintro ⟨rfl, accepted⟩
    rw [List.forall₂_map_left_iff, List.forall₂_same]
    exact fun identity held => parseSeen_eq_ok.mpr ⟨rfl, accepted identity held⟩

private theorem parseState_eq_ok {seen items : List Value} : parseState seen items = .ok state ↔
    seen = state.seen.map .str ∧ (∀ identity ∈ state.seen, isEventIdentity identity = true) ∧
      state.seen.Nodup ∧ ∃ events, List.Forall₂ Persisted items events ∧
        (events.map HeyEvent.identity).Nodup ∧ events.map HeyEvent.identity ⊆ state.seen ∧
          state.pending = events.map HeyEvent.toDict := by
  simp only [parseState, bind_eq_ok, ite_error_eq_ok, not_not, pure_eq_ok, mapM_parseSeen]
  simp only [mapM_eq_ok, parsePersistedEvent_eq_ok]
  constructor
  · rintro ⟨identities, ⟨same, accepted⟩, distinct, events, parsed, apart, recorded, rfl⟩
    exact ⟨same, accepted, distinct, events, parsed, apart, recorded, rfl⟩
  · rintro ⟨same, accepted, distinct, events, parsed, apart, recorded, pending⟩
    refine ⟨state.seen, ⟨same, accepted⟩, distinct, events, parsed, apart, recorded, ?_⟩
    rw [← pending]

/-- `_load` accepts exactly the bytes of a document that describes a state. -/
theorem load_eq_ok : load limits (some encoded) = .ok state ↔
    encoded.size ≤ limits.maxStateBytes ∧ ∃ raw members events, Text.decode encoded = some raw ∧
      loads plainHook raw = .ok (.obj members) ∧ Describes limits members state.seen events ∧
        state.pending = events.map HeyEvent.toDict := by
  rw [load, ite_error_eq_ok, not_lt]
  refine and_congr_right fun _ => ?_
  constructor
  · intro ran
    cases decoded : Text.decode encoded with
    | none => simp [decoded] at ran
    | some raw =>
      cases loaded : loads plainHook raw with
      | error e => cases e <;> simp [decoded, loaded] at ran
      | ok value =>
        cases value with
        | obj members =>
          simp only [decoded, loaded] at ran
          split at ran
          · rename_i values items seenHeld pendingHeld
            simp only [ite_error_eq_ok, not_not, not_lt, refuseSchema_eq_ok, parseState_eq_ok] at ran
            obtain ⟨keys, capacity, rfl, identities, distinct, events, parsed, apart, recorded, pending⟩ :=
              ran
            exact ⟨raw, members, events, rfl, loaded, ⟨sameKeys_iff.mp keys, seenHeld,
              ⟨items, pendingHeld, parsed⟩, parsed.length_eq ▸ capacity, identities, distinct, apart,
              recorded⟩, pending⟩
          · cases ran
        | _ => simp [decoded, loaded] at ran
  · rintro ⟨raw, members, events, decoded, loaded, describes, pending⟩
    obtain ⟨items, pendingHeld, parsed⟩ := describes.pendingHeld
    have enough : ¬ limits.maxPending < items.length := by
      rw [parsed.length_eq]
      exact not_lt.mpr describes.capacity
    have keys : sameKeys (members.map Prod.fst) [text "seen", text "pending"] = true :=
      sameKeys_iff.mpr describes.keys
    simp only [decoded, loaded, describes.seenHeld, pendingHeld, keys, not_true, ↓reduceIte, enough]
    rw [refuseSchema_eq_ok, parseState_eq_ok]
    exact ⟨rfl, describes.identities, describes.seenDistinct, events, parsed, describes.pendingDistinct,
      describes.recorded, pending⟩

/-! ## Reading back what was written -/

private theorem keepLast_distinct {values : List Text} (distinct : values.Nodup) :
    keepLast values = values := by
  have collected : ∀ rest result : List Text, (result ++ rest).Nodup →
      rest.foldl (fun result value => if value ∈ result then result else result ++ [value]) result =
        result ++ rest := by
    intro rest
    induction rest with
    | nil => simp
    | cons value rest ih =>
      intro result apart
      have fresh : value ∉ result := by
        intro held
        exact (List.nodup_append'.mp apart).2.2 held List.mem_cons_self
      rw [List.foldl_cons, if_neg fresh, ih (result ++ [value]) (by simpa using apart)]
      simp
  rw [keepLast, collected values.reverse [] (by simpa using distinct)]
  simp

/-- Trimming distinct identities keeps the last ones. -/
theorem trim_distinct {values : List Text} (distinct : values.Nodup) (positive : 0 < cap) :
    trim values cap = values.rtake cap := by
  rw [trim, keepLast_distinct distinct, lastOf, if_neg (by omega)]

private theorem trim_all {values : List Text} (distinct : values.Nodup) :
    trim values values.length = values := by
  cases values with
  | nil => rfl
  | cons value rest =>
    rw [trim_distinct distinct (by simp), List.rtake, Nat.sub_self, List.drop_zero]

/-- What `_save` records is the memory of a first-in first-out queue. -/
theorem durableSeen_eq {seen pendingIds : List Text} (distinct : seen.Nodup) (apart : pendingIds.Nodup) :
    durableSeen limits seen pendingIds = Fifo.remember limits.maxSeen seen pendingIds := by
  have positive : 0 < limits.maxSeen := by
    have floor := limits.seenFloor
    omega
  rw [durableSeen, trim_distinct (distinct.filter _) positive, trim_all apart, Fifo.remember]
  congr 2
  exact List.filter_congr fun identity _ => decide_eq_decide.mpr Iff.rfl

private theorem keepLast_subset (values : List Text) : keepLast values ⊆ values := by
  have loop : ∀ rest kept : List Text,
      rest.foldl (fun result value => if value ∈ result then result else result ++ [value]) kept ⊆ kept ++ rest := by
    intro rest
    induction rest with
    | nil => simp
    | cons value rest ih =>
      intro kept identity held
      rw [List.foldl_cons] at held
      split at held
      · rcases List.mem_append.mp (ih _ held) with early | later
        · exact List.mem_append_left _ early
        · exact List.mem_append_right _ (List.mem_cons_of_mem _ later)
      · simpa using ih _ held
  intro identity held
  simpa using loop values.reverse [] (List.mem_reverse.mp held)

/-- Nothing becomes seen but what was seen or is pending. -/
theorem durableSeen_subset (limits : Limits) (seen ids : List Text) : durableSeen limits seen ids ⊆ seen ++ ids := by
  have trimmed : ∀ (values : List Text) cap, trim values cap ⊆ values := by
    intro values cap
    unfold trim lastOf
    split
    · exact keepLast_subset values
    · exact fun identity held => keepLast_subset values ((List.drop_sublist _ _).subset held)
  unfold durableSeen
  apply List.append_subset.mpr
  exact ⟨fun identity held => List.mem_append_left _ (List.mem_filter.mp (trimmed _ _ held)).1,
    fun identity held => List.mem_append_right _ (trimmed _ _ held)⟩

/-- A list of valid events survives the way into dictionaries and back. -/
theorem mapM_fromDict {events : List HeyEvent} (valid : ∀ event ∈ events, event.Valid) :
    (events.map HeyEvent.toDict).mapM HeyEvent.fromDict = .ok events := by
  rw [mapM_eq_ok, List.forall₂_map_left_iff, List.forall₂_same]
  exact fun event held => HeyEvent.fromDict_toDict (valid event held)

/-- `_save` succeeds exactly when the state can be written as bytes within the limit. -/
theorem save_eq_ok {events : List HeyEvent} (valid : ∀ event ∈ events, event.Valid) :
    save limits seen (events.map HeyEvent.toDict) = .ok encoded ↔
      ∃ serialized, dumps (document (durableSeen limits seen (events.map HeyEvent.identity))
          (events.map HeyEvent.toDict)) = some serialized ∧
        serialized.encode = some encoded ∧ encoded.size ≤ limits.maxStateBytes := by
  simp only [save, bind_eq_ok, mapM_fromDict valid, Except.ok.injEq, exists_eq_left']
  cases dumps (document (durableSeen limits seen (events.map HeyEvent.identity))
      (events.map HeyEvent.toDict)) with
  | none => simp
  | some serialized =>
    simp only [Option.some.injEq, exists_eq_left']
    cases serialized.encode with
    | none => simp
    | some bytes =>
      simp only [ite_error_eq_ok, not_lt, pure_eq_ok, Option.some.injEq]
      constructor
      · rintro ⟨small, rfl⟩
        exact ⟨rfl, small⟩
      · rintro ⟨rfl, small⟩
        exact ⟨small, rfl⟩

/-- What the parts of a document of a state need. -/
theorem writable_document {seen : List Text} {items : List Members} :
    Writable (document seen items) ↔ (∀ identity ∈ seen, Scalars identity) ∧ ∀ item ∈ items, Writable (.obj item) := by
  simp only [document, Writable, WritableMembers, writableElements_iff, List.forall_mem_map, scalars_text, true_and,
    and_true]

/-- The integers of a state are those of its items. -/
theorem intsFit_document {seen : List Text} {items : List Members} :
    intsFit (document seen items) = true ↔ ∀ item ∈ items, intsFit (.obj item) = true := by
  simp [document, intsFit, membersFit, elementsFit_iff]

/-- The dictionary of an event is plain JSON. -/
theorem plain_toDict (event : HeyEvent) : Plain (.obj event.toDict) := by
  refine ⟨HeyEvent.eventKeys_distinct, ?_⟩
  simp [HeyEvent.toDict, PlainMembers, Plain]

/-- So is a state of events. -/
theorem plain_document {seen : List Text} {events : List HeyEvent} :
    Plain (document seen (events.map HeyEvent.toDict)) := by
  have distinct : ([text "seen", text "pending"] : List Text).Nodup := by decide
  refine ⟨distinct, ?_, ?_, trivial⟩
  · rw [Plain, plainElements_iff]
    intro value held
    obtain ⟨identity, _, rfl⟩ := List.mem_map.mp held
    trivial
  · rw [Plain, plainElements_iff]
    intro value held
    obtain ⟨_, written, rfl⟩ := List.mem_map.mp held
    obtain ⟨event, _, rfl⟩ := List.mem_map.mp written
    exact plain_toDict event

/-- No field of an event has keys to sort. -/
theorem sortKeys_field {event : HeyEvent} (held : member ∈ event.toDict) :
    sortKeys member.2 = member.2 := by
  revert member
  simp only [HeyEvent.toDict, List.forall_mem_cons]
  simp [sortKeys]

private theorem persisted_sorted {event : HeyEvent} (valid : event.Valid) :
    Persisted (sortKeys (.obj event.toDict)) event := by
  obtain ⟨sorted, spelled, looked, keys⟩ := sortKeys_obj event.toDict HeyEvent.eventKeys_distinct
  refine ⟨sorted, spelled, valid, .inl ⟨fun key => keys.mem_iff, fun member held => ?_⟩⟩
  rw [looked, HeyEvent.lookup_toDict.mpr held]
  exact congrArg some (sortKeys_field held)

/-- The document of a state, with its keys sorted, describes the state. -/
theorem describes_document {seen : List Text} {events : List HeyEvent}
    (valid : ∀ event ∈ events, event.Valid) (capacity : events.length ≤ limits.maxPending)
    (identities : ∀ identity ∈ seen, isEventIdentity identity = true) (distinct : seen.Nodup)
    (apart : (events.map HeyEvent.identity).Nodup) (recorded : events.map HeyEvent.identity ⊆ seen) :
    ∃ members, sortKeys (document seen (events.map HeyEvent.toDict)) = .obj members ∧
      Describes limits members seen events := by
  have names : ([text "seen", text "pending"] : List Text).Nodup := by decide
  obtain ⟨members, spelled, looked, keys⟩ := sortKeys_obj [(text "seen", .arr (seen.map .str)),
    (text "pending", .arr ((events.map HeyEvent.toDict).map .obj))] names
  have other : (text "pending" == text "seen") = false := by decide
  refine ⟨members, spelled, fun key => keys.mem_iff, ?_, ?_, capacity, identities, distinct, apart, recorded⟩
  · rw [looked, List.lookup_cons_self, Option.map_some, sortKeys, sortElements_eq_map, List.map_map]
    rfl
  · refine ⟨((events.map HeyEvent.toDict).map .obj).map sortKeys, ?_, ?_⟩
    · rw [looked, List.lookup_cons, other, List.lookup_cons_self, Option.map_some, sortKeys,
        sortElements_eq_map]
    · rw [List.map_map, List.map_map, List.forall₂_map_left_iff, List.forall₂_same]
      exact fun event held => persisted_sorted (valid event held)

/-- `_load` reads back what `_save` wrote. -/
theorem load_save {seen : List Text} {events : List HeyEvent}
    (valid : ∀ event ∈ events, event.Valid) (capacity : events.length ≤ limits.maxPending)
    (identities : ∀ identity ∈ seen, isEventIdentity identity = true) (distinct : seen.Nodup)
    (apart : (events.map HeyEvent.identity).Nodup) (recorded : events.map HeyEvent.identity ⊆ seen)
    (saved : save limits seen (events.map HeyEvent.toDict) = .ok encoded) :
    load limits (some encoded) = .ok
      { seen := Fifo.remember limits.maxSeen seen (events.map HeyEvent.identity),
        pending := events.map HeyEvent.toDict } := by
  obtain ⟨serialized, dumped, bytes, small⟩ := (save_eq_ok valid).mp saved
  rw [durableSeen_eq distinct apart] at dumped
  have remembered : Fifo.remember limits.maxSeen seen (events.map HeyEvent.identity) ⊆ seen :=
    Fifo.remember_subset recorded
  have written : (Fifo.remember limits.maxSeen seen (events.map HeyEvent.identity)).Nodup :=
    Fifo.remember_nodup distinct apart
  obtain ⟨members, spelled, describes⟩ := describes_document valid capacity
    (fun identity held => identities identity (remembered held)) written apart
    (List.subset_append_right _ _)
  have loaded := loads_dumps plain_document dumped
  rw [spelled] at loaded
  exact load_eq_ok.mpr ⟨small, serialized, members, events, Text.decode_of_encode bytes, loaded,
    describes, rfl⟩

/-- A check that a state can be written: every integer converts, every string
encodes, and four bytes a code point fit the limit. -/
def writable (limits : Limits) (seen : List Text) (events : List HeyEvent) : Bool :=
  match dumps (document (durableSeen limits seen (events.map HeyEvent.identity))
    (events.map HeyEvent.toDict)) with
  | some serialized =>
    (serialized.mapM CodePoint.scalar?).isSome && decide (4 * serialized.length ≤ limits.maxStateBytes)
  | none => false

/-- What is writable is saved. -/
theorem save_of_writable {events : List HeyEvent} (valid : ∀ event ∈ events, event.Valid)
    (checked : writable limits seen events = true) :
    ∃ encoded, save limits seen (events.map HeyEvent.toDict) = .ok encoded := by
  rw [writable] at checked
  split at checked
  · rename_i serialized dumped
    simp only [Bool.and_eq_true, decide_eq_true_eq] at checked
    obtain ⟨encoded, written, small⟩ := Text.encode_of_scalars checked.1
    exact ⟨encoded, (save_eq_ok valid).mpr ⟨serialized, dumped, written, small.trans checked.2⟩⟩
  · cases checked

end HermesHey.DurableQueue
