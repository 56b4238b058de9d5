import HermesHey.Library.JsonWidth
import HermesHey.QueueRefinement

/-! The space that completing an event needs. A file that the queue wrote itself
only shrinks; one with pending events from before there were kinds grows by what
their migration adds, and may no longer be writable. -/
namespace HermesHey.DurableQueue
open Library Library.Json HermesHey.Core

/-! ## Files in either format -/

/-- A pending event as a file stores it, with its kind or, from before there were kinds, without. -/
structure StoredEvent where
  event : HeyEvent
  legacy : Bool
  message : legacy = true → event.kind = text "message"

namespace StoredEvent

def identity (item : StoredEvent) : Text := item.event.identity

def dict (item : StoredEvent) : Members :=
  if item.legacy then item.event.toDict.filter (·.1 ≠ text "kind") else item.event.toDict

/-- The size of the event in the file. -/
def width (item : StoredEvent) : Nat := (render (.obj item.dict)).width

private theorem dict_sublist (item : StoredEvent) : item.dict.Sublist item.event.toDict := by
  unfold dict
  split
  · exact List.filter_sublist
  · exact List.Sublist.refl _

private theorem dict_distinct (item : StoredEvent) : (item.dict.map Prod.fst).Nodup :=
  HeyEvent.eventKeys_distinct.sublist (item.dict_sublist.map Prod.fst)

private theorem dict_lookup {item : StoredEvent} (looked : item.dict.lookup key = some value) :
    item.event.toDict.lookup key = some value := by
  rw [lookup_eq_some_iff_mem item.dict_distinct] at looked
  exact HeyEvent.lookup_toDict.mpr (item.dict_sublist.subset looked)

private theorem plain_dict (item : StoredEvent) : Plain (.obj item.dict) :=
  ⟨item.dict_distinct, plainMembers_iff.mpr fun member held =>
    plainMembers_iff.mp (plain_toDict item.event).2 member (item.dict_sublist.subset held)⟩

private theorem filter_kind (event : HeyEvent) : ∃ rest, rest ≠ [] ∧
    event.toDict.Perm ((text "kind", .str event.kind) :: rest) ∧ event.toDict.filter (·.1 ≠ text "kind") = rest := by
  refine ⟨event.toDict.filter (·.1 ≠ text "kind"), ?_, ?_, rfl⟩
  · exact List.ne_nil_of_mem (List.mem_filter.mpr ⟨List.mem_cons_self, by simp [text_inj]⟩)
  · have named : event.toDict.filter (·.1 = text "kind") = [(text "kind", .str event.kind)] := by
      simp [HeyEvent.toDict, text_inj]
    have split := List.filter_append_perm (fun member : Text × Value => member.1 = text "kind") event.toDict
    rw [named] at split
    simpa using split.symm

/-- What migration adds: the kind and a separator. -/
theorem width_toDict (item : StoredEvent) :
    (render (.obj item.event.toDict)).width = item.width + if item.legacy then 19 else 0 := by
  unfold width dict
  cases legacy : item.legacy with
  | false => rw [if_neg (by decide), if_neg (by decide), Nat.add_zero]
  | true =>
    obtain ⟨rest, more, perm, filtered⟩ := filter_kind item.event
    have kind : memberWidth (text "kind", .str item.event.kind) = 17 := by
      rw [item.message legacy]
      decide
    rw [if_pos rfl, if_pos rfl, filtered, width_obj, width_obj, joined_perm (perm.map memberWidth), List.map_cons,
      joined_cons _ (by simpa using more), kind]
    omega

end StoredEvent

/-- The bytes that `_save` would write for these two lists. -/
def Encodes (encoded : ByteArray) (seen : List Text) (items : List StoredEvent) : Prop :=
  ∃ serialized, dumps (document seen (items.map StoredEvent.dict)) = some serialized ∧
    serialized.encode = some encoded

private theorem plain_stored {seen : List Text} {items : List StoredEvent} :
    Plain (document seen (items.map StoredEvent.dict)) := by
  have distinct : ([text "seen", text "pending"] : List Text).Nodup := by decide
  refine ⟨distinct, ?_, ?_, trivial⟩
  · rw [Plain, plainElements_iff]
    intro value held
    obtain ⟨identity, _, rfl⟩ := List.mem_map.mp held
    trivial
  · rw [Plain, plainElements_iff]
    intro value held
    obtain ⟨_, written, rfl⟩ := List.mem_map.mp held
    obtain ⟨item, _, rfl⟩ := List.mem_map.mp written
    exact item.plain_dict

private theorem lookup_kind (event : HeyEvent) : event.toDict.lookup (text "kind") = some (.str event.kind) :=
  HeyEvent.lookup_toDict.mpr (by simp [HeyEvent.toDict])

private theorem persisted_stored (item : StoredEvent) (persisted : Persisted (sortKeys (.obj item.dict)) event) :
    event = item.event := by
  obtain ⟨sorted, spelled, looked, keys⟩ := sortKeys_obj item.dict item.dict_distinct
  obtain ⟨members, same, valid, form⟩ := persisted
  obtain rfl : sorted = members := by simpa [spelled] using same
  have found : ∀ member ∈ event.toDict, sorted.lookup member.1 = some member.2 →
      item.event.toDict.lookup member.1 = some member.2 := by
    intro member _ held
    rw [looked, Option.map_eq_some_iff] at held
    obtain ⟨value, inside, sorts⟩ := held
    have stored := StoredEvent.dict_lookup inside
    rw [sortKeys_field (HeyEvent.lookup_toDict.mp stored)] at sorts
    rw [stored]
    exact congrArg some sorts
  apply HeyEvent.eq_of_fromDict_toDict
  refine HeyEvent.fromDict_eq_ok.mpr ⟨fun _ => by rw [HeyEvent.toDict_keys], ?_, valid⟩
  rcases form with ⟨_, held⟩ | ⟨names, message, held⟩
  · exact fun member inside => found member inside (held member inside)
  · intro member inside
    by_cases kind : member.1 = text "kind"
    · have absent : text "kind" ∉ item.dict.map Prod.fst := by
        intro present
        have listed := (names _).mp (keys.mem_iff.mpr present)
        exact (mem_legacy.mp listed).2 rfl
      have legacy : item.legacy = true := by
        by_contra current
        rw [StoredEvent.dict, if_neg current, HeyEvent.toDict_keys] at absent
        exact absent (by decide)
      have looked := HeyEvent.lookup_toDict.mpr inside
      rw [kind, lookup_kind] at looked ⊢
      rw [← looked, message, item.message legacy]
    · exact found member inside (held member inside kind)

private theorem stored_persisted {item : StoredEvent} (valid : item.event.Valid) :
    Persisted (sortKeys (.obj item.dict)) item.event := by
  obtain ⟨sorted, spelled, looked, keys⟩ := sortKeys_obj item.dict item.dict_distinct
  have found : ∀ member ∈ item.dict, sorted.lookup member.1 = some member.2 := by
    intro member held
    have inside := item.dict_sublist.subset held
    rw [looked, (lookup_eq_some_iff_mem item.dict_distinct).mpr held, Option.map_some, sortKeys_field inside]
  refine ⟨sorted, spelled, valid, ?_⟩
  cases legacy : item.legacy with
  | false =>
    have same : item.dict = item.event.toDict := by rw [StoredEvent.dict, legacy]; rfl
    rw [same] at found keys
    exact .inl ⟨fun key => keys.mem_iff, found⟩
  | true =>
    have same : item.dict = item.event.toDict.filter (·.1 ≠ text "kind") := by rw [StoredEvent.dict, legacy]; rfl
    have names : item.dict.map Prod.fst = legacyMessageEventKeys := by rw [same]; rfl
    refine .inr ⟨fun key => keys.mem_iff.trans (by rw [names]), item.message legacy, fun member inside other => ?_⟩
    exact found member (same ▸ List.mem_filter.mpr ⟨inside, decide_eq_true other⟩)

private theorem load_of_encodes (encodes : Encodes encoded seen items) (valid : ∀ item ∈ items, item.event.Valid)
    (capacity : items.length ≤ limits.maxPending) (identities : ∀ identity ∈ seen, isEventIdentity identity = true)
    (distinct : seen.Nodup) (apart : (items.map StoredEvent.identity).Nodup)
    (recorded : items.map StoredEvent.identity ⊆ seen) (small : encoded.size ≤ limits.maxStateBytes) :
    ∃ state, load limits (some encoded) = .ok state := by
  obtain ⟨serialized, dumped, written⟩ := encodes
  have names : ([text "seen", text "pending"] : List Text).Nodup := by decide
  have other : (text "pending" == text "seen") = false := by decide
  obtain ⟨members, spelled, looked, keys⟩ := sortKeys_obj [(text "seen", .arr (seen.map .str)),
    (text "pending", .arr ((items.map StoredEvent.dict).map .obj))] names
  have loaded := loads_dumps plain_stored dumped
  rw [document, spelled] at loaded
  have describes : Describes limits members seen (items.map StoredEvent.event) := by
    refine ⟨fun key => keys.mem_iff, ?_, ⟨((items.map StoredEvent.dict).map .obj).map sortKeys, ?_, ?_⟩, ?_, identities,
      distinct, ?_, ?_⟩
    · rw [looked, List.lookup_cons_self, Option.map_some, sortKeys, sortElements_eq_map, List.map_map]
      rfl
    · rw [looked, List.lookup_cons, other, List.lookup_cons_self, Option.map_some, sortKeys, sortElements_eq_map]
    · rw [List.map_map, List.map_map, List.forall₂_map_left_iff, List.forall₂_map_right_iff, List.forall₂_same]
      exact fun item held => stored_persisted (valid item held)
    · rwa [List.length_map]
    · rwa [List.map_map]
    · rwa [List.map_map]
  exact ⟨{ seen, pending := (items.map StoredEvent.event).map HeyEvent.toDict }, load_eq_ok.mpr
    ⟨small, serialized, members, _, Text.decode_of_encode written, loaded, describes, rfl⟩⟩

private theorem holds_of_encodes (encodes : Encodes encoded seen items)
    (accepted : load limits (some encoded) = .ok state) :
    Holds limits (some encoded) { seen, pending := items.map StoredEvent.event } := by
  obtain ⟨serialized, dumped, written⟩ := encodes
  obtain ⟨queue, recorded, holds, _⟩ := holds_of_load accepted
  obtain ⟨raw, members, decoded, loaded, describes⟩ := recorded
  have names : ([text "seen", text "pending"] : List Text).Nodup := by decide
  have other : (text "pending" == text "seen") = false := by decide
  cases decoded.symm.trans (Text.decode_of_encode written)
  obtain ⟨sorted, spelled, looked, _⟩ := sortKeys_obj [(text "seen", .arr (seen.map .str)),
    (text "pending", .arr ((items.map StoredEvent.dict).map .obj))] names
  have same := loaded.symm.trans (loads_dumps plain_stored dumped)
  rw [document, spelled, Except.ok.injEq, Value.obj.injEq] at same
  subst same
  have seenSame : queue.seen = seen := by
    have found := describes.seenHeld
    rw [looked, List.lookup_cons_self, Option.map_some, sortKeys, sortElements_eq_map, List.map_map,
      Option.some.injEq, Value.arr.injEq] at found
    have strings : Function.Injective Value.str := fun _ _ same => Value.str.inj same
    exact (strings.list_map found).symm
  have pendingSame : queue.pending = items.map StoredEvent.event := by
    obtain ⟨listed, found, persisted⟩ := describes.pendingHeld
    rw [looked, List.lookup_cons, other, List.lookup_cons_self, Option.map_some, sortKeys, sortElements_eq_map,
      List.map_map, Option.some.injEq, Value.arr.injEq] at found
    subst found
    rw [List.map_map, List.forall₂_map_left_iff] at persisted
    have read : List.Forall₂ (· = ·) (items.map StoredEvent.event) queue.pending := by
      rw [List.forall₂_map_left_iff]
      exact persisted.imp fun item event held => (persisted_stored item held).symm
    exact (List.forall₂_eq_eq_eq ▸ read : items.map StoredEvent.event = queue.pending).symm
  have whole : queue = { seen, pending := items.map StoredEvent.event } := by
    rw [← seenSame, ← pendingSame]
  exact whole ▸ holds

/-! ## The size of a state -/

/-- The size of the identities in the file. -/
def seenWidth (seen : List Text) : Nat := joined (seen.map fun identity => (quote identity).width)

private theorem width_document (seen : List Text) (pending : List Members) :
    (render (document seen pending)).width =
      27 + seenWidth seen + joined (pending.map fun item => (render (.obj item)).width) := by
  have seenKey : (quote (text "seen")).width = 6 := by decide
  have pendingKey : (quote (text "pending")).width = 9 := by decide
  rw [document, width_obj, List.map_cons, List.map_singleton, joined_cons _ (by simp), joined_singleton, memberWidth,
    memberWidth, seenKey, pendingKey, width_arr, width_arr, List.map_map, List.map_map, seenWidth]
  simp only [Function.comp_def, render]
  omega

/-- The pending events that stay when one is completed. -/
def others (items : List StoredEvent) (item : StoredEvent) : List StoredEvent :=
  items.filter (StoredEvent.identity · ≠ item.identity)

/-- The completed identities that a save forgets: all but the last `max_seen`. -/
def forgotten (limits : Limits) (seen : List Text) (left : List StoredEvent) : List Text :=
  Fifo.forget limits.maxSeen seen (left.map StoredEvent.identity)

/-- What the file loses: the entry, its separator if it is not the only one, and the forgotten identities. -/
def freed (limits : Limits) (seen : List Text) (items : List StoredEvent) (item : StoredEvent) : Nat :=
  item.width + (if others items item = [] then 0 else 2) +
    ((forgotten limits seen (others items item)).map fun identity => (quote identity).width + 2).sum

/-- The migration of the pending events that stay fits into the limit and what the file loses. -/
def Room (limits : Limits) (seen : List Text) (items : List StoredEvent) (item : StoredEvent) (size : Nat) : Prop :=
  size + 19 * (others items item).countP StoredEvent.legacy ≤ limits.maxStateBytes + freed limits seen items item

private theorem joined_others {items : List StoredEvent} {item : StoredEvent} (held : item ∈ items)
    (apart : (items.map StoredEvent.identity).Nodup) : joined (items.map StoredEvent.width) =
      item.width + (if others items item = [] then 0 else 2) + joined ((others items item).map StoredEvent.width) := by
  have alone : items.filter (StoredEvent.identity · = item.identity) = [item] := by
    obtain ⟨front, back, rfl⟩ := List.append_of_mem held
    rw [List.map_append, List.map_cons, List.nodup_middle, List.nodup_cons, List.mem_append, not_or] at apart
    have before : front.filter (StoredEvent.identity · = item.identity) = [] := by
      refine List.filter_eq_nil_iff.mpr fun other inside same => apart.1.1 ?_
      rw [← of_decide_eq_true same]
      exact List.mem_map_of_mem inside
    have after : back.filter (StoredEvent.identity · = item.identity) = [] := by
      refine List.filter_eq_nil_iff.mpr fun other inside same => apart.1.2 ?_
      rw [← of_decide_eq_true same]
      exact List.mem_map_of_mem inside
    rw [List.filter_append, before, List.filter_cons_of_pos (by simp), after]
    rfl
  have split := List.filter_append_perm (fun other => StoredEvent.identity other = item.identity) items
  rw [alone] at split
  have same : [item] ++ others items item = item :: others items item := rfl
  have perm : (item :: others items item).Perm items := by
    rw [others]
    simpa using split
  rw [← joined_perm (perm.map StoredEvent.width), List.map_cons]
  split
  · rename_i none
    rw [none, List.map_nil, joined_singleton]
    rfl
  · rename_i more
    rw [joined_cons _ (by simpa using more)]

private theorem joined_migrated (items : List StoredEvent) :
    joined ((items.map (HeyEvent.toDict ∘ StoredEvent.event)).map fun item => (render (.obj item)).width) =
      joined (items.map StoredEvent.width) + 19 * items.countP StoredEvent.legacy := by
  rw [List.map_map]
  simp only [joined, List.length_map]
  have sums : (items.map ((fun item => (render (.obj item)).width) ∘ HeyEvent.toDict ∘ StoredEvent.event)).sum =
      (items.map StoredEvent.width).sum + 19 * items.countP StoredEvent.legacy := by
    induction items with
    | nil => rfl
    | cons item rest ih =>
      rw [List.map_cons, List.sum_cons, ih, List.map_cons, List.sum_cons, List.countP_cons]
      have one := item.width_toDict
      simp only [Function.comp_apply] at one ⊢
      rw [one]
      split <;> simp_all <;> omega
  omega

private theorem seenWidth_remember {seen : List Text} {left : List StoredEvent} (distinct : seen.Nodup)
    (apart : (left.map StoredEvent.identity).Nodup) (recorded : left.map StoredEvent.identity ⊆ seen)
    (known : identity ∈ seen) (done : identity ∉ left.map StoredEvent.identity) :
    seenWidth seen = seenWidth (Fifo.remember limits.maxSeen seen (left.map StoredEvent.identity)) +
      ((forgotten limits seen left).map fun identity => (quote identity).width + 2).sum := by
  have floor := limits.seenFloor
  have perm : (forgotten limits seen left ++ Fifo.remember limits.maxSeen seen
      (left.map StoredEvent.identity)).Perm seen := Fifo.forget_remember distinct apart recorded
  have more := Fifo.remember_ne_nil known done (show 0 < limits.maxSeen by omega)
  rw [seenWidth, seenWidth, ← joined_perm (perm.map fun identity => (quote identity).width), List.map_append,
    joined_append _ (by simpa using more), List.length_map]
  have sums (ids : List Text) : (ids.map fun identity => (quote identity).width + 2).sum =
      (ids.map fun identity => (quote identity).width).sum + 2 * ids.length := by
    rw [List.sum_map_add, List.map_const', List.sum_replicate, Nat.nsmul_eq_mul, Nat.mul_comm]
  rw [sums]
  omega

private theorem map_identity (items : List StoredEvent) :
    (items.map StoredEvent.event).map HeyEvent.identity = items.map StoredEvent.identity := by
  rw [List.map_map]
  rfl

private theorem others_sublist (items : List StoredEvent) (item : StoredEvent) : (others items item).Sublist items :=
  List.filter_sublist

private theorem identity_not_mem_others (items : List StoredEvent) (item : StoredEvent) :
    item.identity ∉ (others items item).map StoredEvent.identity := by
  rintro listed
  obtain ⟨other, inside, same⟩ := List.mem_map.mp listed
  exact of_decide_eq_true (List.mem_filter.mp inside).2 same

/-- The state that completing an event saves. -/
def completed (limits : Limits) (seen : List Text) (items : List StoredEvent) (item : StoredEvent) : Value :=
  document (Fifo.remember limits.maxSeen seen ((others items item).map StoredEvent.identity))
    ((others items item).map (HeyEvent.toDict ∘ StoredEvent.event))

private theorem width_completed {seen : List Text} {items : List StoredEvent} {item : StoredEvent}
    (holds : Holds limits (some encoded) { seen, pending := items.map StoredEvent.event }) (held : item ∈ items) :
    (render (completed limits seen items item)).width + freed limits seen items item =
      (render (document seen (items.map StoredEvent.dict))).width +
        19 * (others items item).countP StoredEvent.legacy := by
  have distinct : seen.Nodup := holds.sound.seen
  have apart : (items.map StoredEvent.identity).Nodup := map_identity items ▸ holds.sound.pending
  have recorded : items.map StoredEvent.identity ⊆ seen := map_identity items ▸ holds.sound.recorded
  have kept := (others_sublist items item).map StoredEvent.identity
  have entries := joined_others held apart
  have migrated := joined_migrated (others items item)
  have identities : seenWidth seen = seenWidth (Fifo.remember limits.maxSeen seen
      ((others items item).map StoredEvent.identity)) +
        ((forgotten limits seen (others items item)).map fun identity => (quote identity).width + 2).sum :=
    seenWidth_remember distinct (apart.sublist kept) (fun _ inside => recorded (kept.subset inside))
      (recorded (List.mem_map_of_mem held)) (identity_not_mem_others items item)
  have stored : (items.map StoredEvent.dict).map (fun item => (render (.obj item)).width) =
      items.map StoredEvent.width := by
    rw [List.map_map]
    rfl
  rw [completed, width_document, width_document, migrated, stored, entries, identities, freed]
  omega

/-! ## Completing an event -/

private theorem mem_toDict {item : StoredEvent} (held : member ∈ item.event.toDict) :
    member ∈ item.dict ∨ member = (text "kind", .str (text "message")) := by
  unfold StoredEvent.dict
  cases legacy : item.legacy with
  | false => exact .inl held
  | true =>
    rw [if_pos rfl]
    by_cases kind : member.1 = text "kind"
    · right
      have looked := HeyEvent.lookup_toDict.mpr held
      rw [kind, lookup_kind, item.message legacy] at looked
      exact Prod.ext kind (Option.some.inj looked).symm
    · exact .inl (List.mem_filter.mpr ⟨held, decide_eq_true kind⟩)

private theorem completed_encodes {seen : List Text} {items : List StoredEvent} (encodes : Encodes encoded seen items)
    (recorded : items.map StoredEvent.identity ⊆ seen) (item : StoredEvent) :
    ∃ serialized bytes, dumps (completed limits seen items item) = some serialized ∧
      serialized.encode = some bytes := by
  obtain ⟨serialized, dumped, written⟩ := encodes
  obtain ⟨fits, writable⟩ := writable_of_encodes dumped written
  rw [intsFit_document, List.forall_mem_map] at fits
  rw [writable_document, List.forall_mem_map] at writable
  have kept := others_sublist items item
  apply dumps_encodes
  · refine intsFit_document.mpr (List.forall_mem_map.mpr fun left inside => ?_)
    have stored := membersFit_iff.mp (fits left (kept.subset inside))
    exact membersFit_iff.mpr fun member held => by
      rcases mem_toDict held with held | rfl
      · exact stored member held
      · rfl
  · refine writable_document.mpr ⟨fun identity held => writable.1 identity ?_, List.forall_mem_map.mpr fun left inside => ?_⟩
    · exact Fifo.remember_subset (fun _ known => recorded ((kept.map StoredEvent.identity).subset known)) held
    · have stored := writableMembers_iff.mp (writable.2 left (kept.subset inside))
      exact writableMembers_iff.mpr fun member held => by
        rcases mem_toDict held with held | rfl
        · exact stored member held
        · exact ⟨scalars_text _, scalars_text _⟩

private theorem complete_saves {seen : List Text} {items : List StoredEvent} {item : StoredEvent}
    (holds : Holds limits (some encoded) { seen, pending := items.map StoredEvent.event })
    (dumped : dumps (completed limits seen items item) = some serialized) (written : serialized.encode = some bytes) :
    (complete limits item.identity .none (some encoded)).result =
      if limits.maxStateBytes < bytes.size then
        .error (.runtime "HEY state exceeds capacity; refusing write")
      else .ok () := by
  have kept : (items.map StoredEvent.event).filter (HeyEvent.identity · ≠ item.identity) =
      (others items item).map StoredEvent.event := by
    rw [List.filter_map]
    rfl
  have apart : (items.map StoredEvent.identity).Nodup := map_identity items ▸ holds.sound.pending
  have valid : ∀ event ∈ (others items item).map StoredEvent.event, event.Valid := fun event inside =>
    holds.valid event (((others_sublist items item).map StoredEvent.event).subset inside)
  have left : ((others items item).map StoredEvent.event).map HeyEvent.identity =
      (others items item).map StoredEvent.identity := map_identity _
  have trimmed : durableSeen limits seen ((others items item).map StoredEvent.identity) =
      Fifo.remember limits.maxSeen seen ((others items item).map StoredEvent.identity) :=
    durableSeen_eq holds.sound.seen (apart.sublist ((others_sublist items item).map StoredEvent.identity))
  have opened := openState_holds holds (show Fault.none ≠ .read by decide)
  have saved : save limits seen (((others items item).map StoredEvent.event).map HeyEvent.toDict) =
      if limits.maxStateBytes < bytes.size then
        .error (.runtime "HEY state exceeds capacity; refusing write")
      else .ok bytes := by
    rw [completed, ← List.map_map] at dumped
    rw [save, mapM_fromDict valid, ok_bind]
    simp only [left, trimmed, dumped, written]
    rfl
  rw [complete, opened]
  simp only [without_toDict holds.valid, kept, saved]
  split <;> rfl

private theorem complete_pending {seen : List Text} {items : List StoredEvent} {item : StoredEvent}
    (accepted : load limits (some encoded) = .ok state) (encodes : Encodes encoded seen items) (held : item ∈ items) :
    Room limits seen items item encoded.size ∧ (complete limits item.identity .none (some encoded)).result = .ok () ∨
    ¬ Room limits seen items item encoded.size ∧ (complete limits item.identity .none (some encoded)).result =
      .error (.runtime "HEY state exceeds capacity; refusing write") := by
  have holds := holds_of_encodes encodes accepted
  have recorded : items.map StoredEvent.identity ⊆ seen := map_identity items ▸ holds.sound.recorded
  obtain ⟨serialized, bytes, dumped, written⟩ := completed_encodes encodes recorded item
  obtain ⟨_, before, stored⟩ := encodes
  have grown := width_completed holds held
  rw [← encode_dumps_size dumped written, ← encode_dumps_size before stored] at grown
  have saved := complete_saves holds dumped written
  unfold Room
  split at saved
  · exact .inr ⟨by omega, saved⟩
  · exact .inl ⟨by omega, saved⟩

/-! ## A full backlog -/

/-- A small legacy message. -/
def legacyGreeting (threadId entryId : Int) (content : Text) : StoredEvent where
  event := { greeting threadId entryId with content }
  legacy := true
  message _ := rfl

/-- Eighteen legacy messages, the last one with a text of `n` letters. -/
def backlog (n : Nat) : List StoredEvent :=
  ((List.range 17).map fun i : Nat => legacyGreeting (i / 9 + 1 : Nat) (i % 9 + 1 : Nat) []) ++
    [legacyGreeting 9 9 (List.replicate n (ch 'x'))]

private theorem width_letters (t e : Int) (n : Nat) :
    (legacyGreeting t e (List.replicate n (ch 'x'))).width = (legacyGreeting t e []).width + n := by
  have letters : (quote (List.replicate n (ch 'x'))).width = n + 2 := by
    have plain : (List.replicate n (ch 'x')).flatMap escape = List.replicate n (ch 'x') := by
      induction n with
      | zero => rfl
      | succ n ih => rw [List.replicate_succ, List.flatMap_cons, ih]; rfl
    have one : (ch 'x').width = 1 := rfl
    have edge : (ch '"').width = 1 := rfl
    rw [quote, plain, Text.width_append, Text.width_cons, Text.width_cons, Text.width_nil, edge, Text.width,
      List.map_replicate, one, List.sum_replicate, Nat.nsmul_eq_mul]
    omega
  have none : (quote []).width = 2 := rfl
  rw [StoredEvent.width, StoredEvent.width, width_obj, width_obj]
  simp [StoredEvent.dict, legacyGreeting, greeting, HeyEvent.toDict, memberWidth, joined, render, letters, none, text_inj]
  omega

private theorem width_backlog (n : Nat) : (render (document ((backlog n).map StoredEvent.identity)
    ((backlog n).map StoredEvent.dict))).width = 5945 + n := by
  have small : 27 + seenWidth ((backlog 0).map StoredEvent.identity) +
      joined ((backlog 0).map StoredEvent.width) = 5945 := by
    decide +kernel
  have same : (backlog n).map StoredEvent.identity = (backlog 0).map StoredEvent.identity := rfl
  have last := width_letters 9 9 n
  have stored : ((backlog n).map StoredEvent.dict).map (fun item => (render (.obj item)).width) =
      (backlog n).map StoredEvent.width := by
    rw [List.map_map]
    rfl
  have grown : joined ((backlog n).map StoredEvent.width) = joined ((backlog 0).map StoredEvent.width) + n := by
    rw [backlog, backlog, List.map_append, List.map_append, List.map_singleton, List.map_singleton,
      joined_append _ (by simp), joined_append _ (by simp), joined_singleton, joined_singleton, last,
      List.replicate_zero, ← Nat.add_assoc]
  rw [width_document, stored, grown, same]
  omega

private theorem legacyGreeting_valid (thread : 0 < t) (entry : 0 < e) (threadSmall : t < 10) (entrySmall : e < 10) :
    (legacyGreeting t e content).event.Valid := by
  obtain ⟨kind, threadId, entryId, threadFits, entryFits, identity, url, posting, account, sender⟩ :=
    greeting_valid thread entry threadSmall entrySmall
  exact ⟨kind, threadId, entryId, threadFits, entryFits, identity, url, posting, account, sender⟩

private theorem legacyGreeting_writable (valid : (legacyGreeting t e content).event.Valid)
    (scalars : Scalars content) :
    intsFit (.obj (legacyGreeting t e content).dict) = true ∧ Writable (.obj (legacyGreeting t e content).dict) := by
  have wide : 10 ^ 1 ≤ 10 ^ digitLimit := Nat.pow_le_pow_right (by decide) digitLimit_pos
  have thread : t.natAbs < 10 ^ digitLimit := valid.threadFits
  have entry : e.natAbs < 10 ^ digitLimit := valid.entryFits
  have fits : ∀ member ∈ (legacyGreeting t e content).event.toDict, intsFit member.2 = true := by
    simp [legacyGreeting, greeting, HeyEvent.toDict, intsFit, thread, entry]
    omega
  have strings : ∀ member ∈ (legacyGreeting t e content).event.toDict, Scalars member.1 ∧ Writable member.2 := by
    simp [legacyGreeting, greeting, HeyEvent.toDict, Writable, identityOf, topicUrl, scalars]
  have kept := (legacyGreeting t e content).dict_sublist
  exact ⟨membersFit_iff.mpr fun member held => fits member (kept.subset held),
    writableMembers_iff.mpr fun member held => strings member (kept.subset held)⟩

private theorem exists_backlog (n : Nat) (small : 5945 + n ≤ 2 ^ 24) : ∃ encoded state,
    load .default (some encoded) = .ok state ∧
      Encodes encoded ((backlog n).map StoredEvent.identity) (backlog n) ∧ encoded.size = 5945 + n := by
  have listed : ∀ item ∈ backlog n, item.event.Valid ∧ intsFit (.obj item.dict) = true ∧ Writable (.obj item.dict) := by
    rw [backlog, List.forall_mem_append, List.forall_mem_map, List.forall_mem_singleton]
    have each (t e : Int) (n : Nat) (bounds : 0 < t ∧ 0 < e ∧ t < 10 ∧ e < 10) :
        let item := legacyGreeting t e (List.replicate n (ch 'x'))
        item.event.Valid ∧ intsFit (.obj item.dict) = true ∧ Writable (.obj item.dict) := by
      have valid : (legacyGreeting t e (List.replicate n (ch 'x'))).event.Valid :=
        legacyGreeting_valid bounds.1 bounds.2.1 bounds.2.2.1 bounds.2.2.2
      have scalars : Scalars (List.replicate n (ch 'x')) := fun point held => ⟨'x', List.eq_of_mem_replicate held⟩
      exact ⟨valid, legacyGreeting_writable valid scalars⟩
    refine ⟨fun i held => each _ _ 0 ?_, each 9 9 n (by decide)⟩
    have below := List.mem_range.mp held
    omega
  have distinct : ((backlog n).map StoredEvent.identity).Nodup := by
    have same : (backlog n).map StoredEvent.identity = (backlog 0).map StoredEvent.identity := rfl
    rw [same]
    decide +kernel
  have identities : ∀ identity ∈ (backlog n).map StoredEvent.identity, isEventIdentity identity = true :=
    List.forall_mem_map.mpr fun item held => isEventIdentity_identity (listed item held).1
  have fits : intsFit (document ((backlog n).map StoredEvent.identity) ((backlog n).map StoredEvent.dict)) = true :=
    intsFit_document.mpr (List.forall_mem_map.mpr fun item held => (listed item held).2.1)
  have strings : Writable (document ((backlog n).map StoredEvent.identity) ((backlog n).map StoredEvent.dict)) := by
    refine writable_document.mpr ⟨?_, List.forall_mem_map.mpr fun item held => (listed item held).2.2⟩
    refine List.forall_mem_map.mpr fun item held => ?_
    rw [StoredEvent.identity, HeyEvent.identity, (listed item held).1.identity, identityOf]
    simp
  obtain ⟨serialized, encoded, dumped, written⟩ := dumps_encodes fits strings
  have size : encoded.size = 5945 + n := by
    rw [encode_dumps_size dumped written, width_backlog]
  have encodes : Encodes encoded ((backlog n).map StoredEvent.identity) (backlog n) := ⟨serialized, dumped, written⟩
  have few : (backlog n).length ≤ Limits.default.maxPending := by
    simp [backlog, Limits.default, Limits.of]
  obtain ⟨state, accepted⟩ := load_of_encodes encodes (fun item held => (listed item held).1) few identities
    distinct distinct (List.Subset.refl _) (size.le.trans small)
  exact ⟨encoded, state, accepted, encodes, size⟩

private theorem exists_full : ∃ n encoded state, load .default (some encoded) = .ok state ∧
    Encodes encoded ((backlog n).map StoredEvent.identity) (backlog n) ∧
      encoded.size = Limits.default.maxStateBytes ∧ 5945 + n = Limits.default.maxStateBytes := by
  have bound : Limits.default.maxStateBytes = 2 ^ 24 := rfl
  obtain ⟨n, full⟩ : ∃ n, 5945 + n = 2 ^ 24 := ⟨16771271, rfl⟩
  obtain ⟨encoded, state, accepted, encodes, size⟩ := exists_backlog n full.le
  exact ⟨n, encoded, state, accepted, encodes, by omega, by omega⟩

/-- Completing a pending event passes the capacity check exactly when there is room for the migration of the others. -/
theorem completion_room_iff {seen : List Text} {items : List StoredEvent} {item : StoredEvent}
    (accepted : load limits (some encoded) = .ok state) (encodes : Encodes encoded seen items) (held : item ∈ items) :
    ((complete limits item.identity .none (some encoded)).result = .ok () ↔
      Room limits seen items item encoded.size) ∧
    ((complete limits item.identity .none (some encoded)).result =
      .error (.runtime "HEY state exceeds capacity; refusing write") ↔ ¬ Room limits seen items item encoded.size) := by
  rcases complete_pending accepted encodes held with ⟨room, result⟩ | ⟨full, result⟩
  · exact ⟨iff_of_true result room, iff_of_false (by rw [result]; simp) (not_not.mpr room)⟩
  · exact ⟨iff_of_false (by rw [result]; simp) full, iff_of_true result full⟩

/-- In a full file of an adapter, the long message can be completed. -/
theorem completion_room_iff_sample : ∃ encoded : ByteArray, encoded.size = Limits.default.maxStateBytes ∧
    (complete .default (identityOf 9 9) .none (some encoded)).result = .ok () := by
  obtain ⟨n, encoded, state, accepted, encodes, size, full⟩ := exists_full
  have held : legacyGreeting 9 9 (List.replicate n (ch 'x')) ∈ backlog n :=
    List.mem_append_right _ List.mem_cons_self
  refine ⟨encoded, size, (completion_room_iff accepted encodes held).1.mpr ?_⟩
  have short := (others_sublist (backlog n) (legacyGreeting 9 9 (List.replicate n (ch 'x')))).length_le
  have counted : _ ≤ (others (backlog n) (legacyGreeting 9 9 (List.replicate n (ch 'x')))).length :=
    List.countP_le_length (p := StoredEvent.legacy)
  have eighteen : (backlog n).length = 18 := rfl
  have bound : Limits.default.maxStateBytes = 2 ^ 24 := rfl
  rw [Room, freed, width_letters]
  omega

/-- It is the small ones that cannot: the first needs more for the migration of the others than it leaves. -/
theorem completion_out_of_space : ∃ encoded state, ∃ seen items, ∃ item ∈ items,
    load .default (some encoded) = .ok state ∧ Encodes encoded seen items ∧
      encoded.size ≤ Limits.default.maxStateBytes ∧
      (complete .default item.identity .none (some encoded)).result =
        .error (.runtime "HEY state exceeds capacity; refusing write") := by
  obtain ⟨n, encoded, state, accepted, encodes, size, full⟩ := exists_full
  have held : legacyGreeting 1 1 [] ∈ backlog n := List.mem_cons_self
  refine ⟨encoded, state, _, _, legacyGreeting 1 1 [], held, accepted, encodes, size.le, ?_⟩
  have migrated : (others (backlog n) (legacyGreeting 1 1 [])).countP StoredEvent.legacy = 17 := rfl
  have entry : (legacyGreeting 1 1 []).width = 307 := by decide +kernel
  have more : others (backlog n) (legacyGreeting 1 1 []) ≠ [] := fun none => by simp [none] at migrated
  have kept : forgotten .default ((backlog n).map StoredEvent.identity) (others (backlog n) (legacyGreeting 1 1 [])) = [] :=
    Fifo.forget_short (show 18 ≤ 10000 by decide)
  rcases complete_pending accepted encodes held with ⟨room, _⟩ | ⟨_, result⟩
  · rw [Room, freed, migrated, entry, if_neg more, kept, List.map_nil, List.sum_nil] at room
    omega
  · exact result

/-! ## One small event at a time -/

/-- The event can be written, and takes little space. -/
structure SmallEvent (event : HeyEvent) : Prop where
  valid : event.Valid
  fits : intsFit (.obj event.toDict) = true
  writable : Writable (.obj event.toDict)
  width : (render (.obj event.toDict)).width ≤ 1000

def ShortIdentity (identity : Text) : Prop := Scalars identity ∧ identity.length ≤ 20

/-- All identities that an adapter's queue remembers, and one event, are far from its size limit. -/
theorem save_small {seen : List Text} {events : List HeyEvent} (short : ∀ identity ∈ seen, ShortIdentity identity)
    (distinct : seen.Nodup) (apart : (events.map HeyEvent.identity).Nodup) (small : ∀ event ∈ events, SmallEvent event)
    (few : events.length ≤ 1) (recorded : events.map HeyEvent.identity ⊆ seen) :
    ∃ encoded, save .default seen (events.map HeyEvent.toDict) = .ok encoded := by
  have valid : ∀ event ∈ events, event.Valid := fun event held => (small event held).valid
  have space : Limits.default.maxStateBytes = 2 ^ 24 := rfl
  have durable : durableSeen .default seen (events.map HeyEvent.identity) =
      Fifo.remember 10000 seen (events.map HeyEvent.identity) := durableSeen_eq distinct apart
  have kept : ∀ identity ∈ Fifo.remember 10000 seen (events.map HeyEvent.identity), ShortIdentity identity :=
    fun identity held => short identity (Fifo.remember_subset recorded held)
  have fits : intsFit (document (durableSeen .default seen (events.map HeyEvent.identity)) (events.map HeyEvent.toDict)) =
      true := intsFit_document.mpr (List.forall_mem_map.mpr fun event held => (small event held).fits)
  have strings : Writable (document (durableSeen .default seen (events.map HeyEvent.identity))
      (events.map HeyEvent.toDict)) := by
    refine writable_document.mpr ⟨?_, List.forall_mem_map.mpr fun event held => (small event held).writable⟩
    rw [durable]
    exact fun identity held => (kept identity held).1
  obtain ⟨serialized, encoded, dumped, written⟩ := dumps_encodes fits strings
  refine ⟨encoded, (save_eq_ok valid).mpr ⟨serialized, dumped, written, ?_⟩⟩
  have identities : seenWidth (Fifo.remember 10000 seen (events.map HeyEvent.identity)) ≤ 10001 * (122 + 2) := by
    have each : ∀ width ∈ (Fifo.remember 10000 seen (events.map HeyEvent.identity)).map fun identity =>
        (quote identity).width, width ≤ 122 := by
      refine List.forall_mem_map.mpr fun identity held => (width_quote_le identity).trans ?_
      have length := (kept identity held).2
      omega
    have number : (Fifo.remember 10000 seen (events.map HeyEvent.identity)).length ≤ 10001 := by
      rw [Fifo.remember, List.length_append, List.length_map, List.rtake, List.length_drop]
      omega
    refine (joined_le each).trans (Nat.mul_le_mul_right _ ?_)
    rw [List.length_map]
    exact number
  have items : joined ((events.map HeyEvent.toDict).map fun item => (render (.obj item)).width) ≤ 1 * (1000 + 2) := by
    have each : ∀ width ∈ (events.map HeyEvent.toDict).map fun item => (render (.obj item)).width, width ≤ 1000 := by
      rw [List.map_map]
      exact List.forall_mem_map.mpr fun event held => (small event held).width
    refine (joined_le each).trans (Nat.mul_le_mul_right _ ?_)
    rw [List.length_map, List.length_map]
    exact few
  rw [encode_dumps_size dumped written, width_document, durable, space]
  omega

/-- An event can be completed when at most one small event is left. -/
theorem complete_small {queue : Queue} (holds : Holds .default file queue)
    (short : ∀ identity ∈ queue.seen, ShortIdentity identity)
    (left : queue.pending.filter (HeyEvent.identity · ≠ identity) = events) (small : ∀ event ∈ events, SmallEvent event)
    (few : events.length ≤ 1) :
    ∃ encoded, complete .default identity .none file = ⟨.ok (), some encoded, true⟩ ∧
      Holds .default (some encoded) (queue.apply HeyEvent.identity 10000 (.complete identity)) := by
  have others : events.Sublist queue.pending := left ▸ List.filter_sublist
  have apart : (events.map HeyEvent.identity).Nodup := holds.sound.pending.sublist (others.map _)
  have recorded : events.map HeyEvent.identity ⊆ queue.seen :=
    List.Subset.trans (others.map _).subset holds.sound.recorded
  obtain ⟨encoded, saved⟩ := save_small short holds.sound.seen apart small few recorded
  have removed : complete .default identity .none file = ⟨.ok (), some encoded, true⟩ :=
    complete_removes holds (by rw [left]; exact saved)
  refine ⟨encoded, removed, ?_⟩
  rcases complete_cases holds identity .none with ⟨e, same⟩ | took
  · rw [removed] at same
    cases same
  · have reached := took.holds
    rw [removed] at reached
    exact reached

/-- A new small event can be stored when nothing is pending. -/
theorem ingest_small {queue : Queue} (holds : Holds .default file queue)
    (short : ∀ identity ∈ queue.seen, ShortIdentity identity) (empty : queue.pending = []) (small : SmallEvent event)
    (named : ShortIdentity event.identity) (unseen : event.identity ∉ queue.seen) (permitted : authorize event = true) :
    Holds .default (ingest .default event authorize .none file).file
      (queue.apply HeyEvent.identity 10000 (.accept event)) := by
  obtain ⟨_, distinct, recorded⟩ := holds.accepting small.valid unseen
  have known : ∀ identity ∈ queue.seen ++ [event.identity], ShortIdentity identity :=
    List.forall_mem_append.mpr ⟨short, List.forall_mem_singleton.mpr named⟩
  have pending : queue.pending ++ [event] = [event] := by rw [empty, List.nil_append]
  have one : ([event].map HeyEvent.identity).Nodup := List.nodup_singleton _
  rw [pending] at recorded
  obtain ⟨encoded, saved⟩ := save_small known distinct one (List.forall_mem_singleton.mpr small) (Nat.le_refl 1)
    recorded
  have room : queue.pending.length < Limits.default.maxPending := by
    rw [empty]
    exact (show 0 < 10000 by decide)
  have stored := ingest_accepts holds permitted unseen room (pending ▸ saved)
  rcases ingest_cases holds event authorize .none with ⟨_, same, _⟩ | ⟨_, _, took⟩
  · rw [stored] at same
    cases same
  · exact took.holds

end HermesHey.DurableQueue
