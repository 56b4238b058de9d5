import HermesHey.Watch

/-! What the calls of the watch leave in their history, and what `poll` has
gathered from it before its first write. -/
namespace HermesHey.Sidecar
open Library Library.Json

/-! ## Reading a history -/

/-- The cursors that were loaded; there are none without a file. -/
def loads (history : History) : List Cursors := history.filterMap fun
  | ⟨.loadCursors, answer⟩ =>
    match answer with
    | Except.ok (some state) => state.boxes
    | Except.ok none => some ∅
    | Except.error _ => none
  | _ => none

/-- The successor that the changes of each box named. -/
def successors (history : History) : List (Text × Option Cursor) := history.filterMap fun
  | ⟨.allChanges box _, answer⟩ =>
    match answer with
    | Except.ok (some changes) => some (decimalInt box, changes.nextCursor)
    | _ => none
  | _ => none

/-- The events that were hydrated, each with its box. -/
def hydratedEvents (history : History) : List (Text × Event) := history.filterMap fun
  | ⟨.hydrated box event, _⟩ => some (box, event)
  | _ => none

/-- The events whose acknowledgement was read, in their order. -/
def acknowledged (history : History) : List Text := history.filterMap fun
  | ⟨.readAck eventID, answer⟩ =>
    match answer with
    | Except.ok (some ack) => if ack = eventID then some eventID else none
    | _ => none
  | _ => none

@[simp] theorem loads_append : loads (first ++ later) = loads first ++ loads later := List.filterMap_append

@[simp] theorem successors_append : successors (first ++ later) = successors first ++ successors later :=
  List.filterMap_append

@[simp] theorem hydratedEvents_append :
    hydratedEvents (first ++ later) = hydratedEvents first ++ hydratedEvents later := List.filterMap_append

@[simp] theorem acknowledged_append : acknowledged (first ++ later) = acknowledged first ++ acknowledged later :=
  List.filterMap_append

/-! ## The contract of the watch -/

/-- Every event hydrated for the box, but those from the own address, is among the given ones. -/
def Complete (lib : GoLib) (ownEmail : Text) (history : History) (events : List Text) (key : Text) : Prop :=
  ∀ event, (key, event) ∈ hydratedEvents history → isOwn lib ownEmail event = false → event.eventID ∈ events

/-- The box moves to its successor, with all of its events acknowledged. -/
def Advanced (lib : GoLib) (ownEmail : Text) (history : History) (boxes : Cursors) (key : Text) : Prop :=
  ∃ next, (key, some next) ∈ successors history ∧ boxes.lookup key = some next ∧
    Complete lib ownEmail history (acknowledged history) key

/-- Every loaded cursor is kept or advanced. -/
def Keeps (lib : GoLib) (ownEmail : Text) (history : History) (boxes : Cursors) : Prop :=
  ∃ cursors, loads history = [cursors] ∧ ∀ key cursor, cursors.lookup key = some cursor →
    boxes.lookup key = some cursor ∨ Advanced lib ownEmail history boxes key

/-- `ListBoxes` returns distinct ids. Changes are read from the loaded cursor, and
a saved state keeps every loaded cursor or advances it. -/
def watchContract (lib : GoLib) (ownEmail : Text) : Program.Contract Answer where
  may _ request answer := match request, answer with
    | .listBoxes, answer => ∀ boxes, answer = Except.ok (some boxes) → (boxes.map Box.id).Nodup
    | _, _ => True
  must history request := match request with
    | .allChanges box cursor =>
      ∃ cursors, loads history = [cursors] ∧ cursors.lookup (decimalInt box) = some cursor
    | .saveCursors boxes => Keeps lib ownEmail history boxes
    | _ => True

/-- The calls that leave nothing behind that counts. -/
def isSilent : Call → Prop
  | .entriesPage _ _ | .message _ | .listBoxes | .write _ => True
  | _ => False

/-- Silent calls leave nothing in the history that counts. -/
theorem silent_trace (inside : ∀ event ∈ trace, isSilent event.1) :
    loads trace = [] ∧ successors trace = [] ∧ hydratedEvents trace = [] ∧ acknowledged trace = [] := by
  induction trace with
  | nil => exact ⟨rfl, rfl, rfl, rfl⟩
  | cons event trace ih =>
    obtain ⟨first, others⟩ := List.forall_mem_cons.mp inside
    obtain ⟨noLoads, noSuccessors, noEvents, noAcks⟩ := ih others
    obtain ⟨request, answer⟩ := event
    cases request with
    | entriesPage | message | listBoxes | write => exact ⟨noLoads, noSuccessors, noEvents, noAcks⟩
    | _ => exact absurd first id

/-- The contract asks nothing of silent calls. -/
theorem silent_must (lib : GoLib) (ownEmail : Text) (history : History) (request : Call) (silent : isSilent request) :
    (watchContract lib ownEmail).must history request := by
  cases request with
  | entriesPage | message | listBoxes | write => exact trivial
  | _ => exact absurd silent id

/-! ## Hydration only reads -/

/-- The calls that read a topic. -/
def isRead : Call → Prop
  | .entriesPage _ _ | .message _ => True
  | _ => False

private theorem read_silent (request : Call) (read : isRead request) : isSilent request := by
  cases request with
  | entriesPage | message => exact trivial
  | _ => exact absurd read id

private theorem topicPages_within (topic : Int) (left : Nat) (page : Text) (entries : List Entry) :
    Program.Within isRead (topicPages topic left page entries) := by
  induction left generalizing page entries with
  | zero => exact Program.within_fail _
  | succ left ih =>
    unfold topicPages
    apply Program.Within.bind (Program.within_ask trivial)
    intro outcome
    apply (within_pass outcome).bind
    intro found
    cases found with
    | none => exact Program.within_fail _
    | some result =>
      simp only
      split
      · exact Program.within_pure _
      · exact ih _ _

private theorem topicEntries_within (topic : Int) : Program.Within isRead (topicEntries topic) :=
  (within_require _ _).bind fun _ => topicPages_within topic _ _ _

private theorem hydrateEntry_within (lib : GoLib) (posting : Posting) (threadID : Int) (entry : Entry)
    (boxKind : Text) :
    Program.Within isRead (hydrateEntry lib posting threadID entry boxKind) := by
  unfold hydrateEntry
  split
  · have fetched : Program.Within isRead (fetchMessage entry.id) := by
      apply (within_require _ _).bind
      intro _
      apply Program.Within.bind (Program.within_ask trivial)
      exact fun outcome => within_pass outcome
    apply fetched.bind
    intro found
    have validated : Program.Within isRead (validateHydratedMessage entry.id found) := by
      cases found with
      | none => exact Program.within_fail _
      | some message => exact (within_require _ _).bind fun _ => Program.within_pure _
    exact validated.bind fun _ => Program.within_pure _
  split
  · exact (within_require _ _).bind fun _ => Program.within_pure _
  · exact Program.within_fail _

private theorem hydrateEntriesSince_within (lib : GoLib) (posting : Posting) (threadID : Int) (boxKind : Text)
    (since : Instant) (entries : List Entry) (events : List Event) :
    Program.Within isRead (hydrateEntriesSince lib posting threadID boxKind since entries events) := by
  induction entries generalizing events with
  | nil => exact Program.within_pure _
  | cons entry rest ih =>
    unfold hydrateEntriesSince
    split
    · exact ih events
    · apply (hydrateEntry_within lib posting threadID entry boxKind).bind
      rintro ⟨event, createdAt⟩
      simp only
      split
      · exact Program.within_pure _
      · exact ih _

/-- The hydration of a posting only reads. -/
theorem hydratePostingSince_reads (lib : GoLib) (posting : Posting) (boxKind : Text) (since : Instant) :
    Program.Within isRead (hydratePostingSince lib posting boxKind since) := by
  apply (Program.within_lift _).bind
  intro threadID
  apply (topicEntries_within threadID).bind
  intro entries
  exact (hydrateEntriesSince_within lib posting threadID boxKind since entries []).bind
    fun _ => Program.within_pure _

private theorem hydratePostingSince_within (lib : GoLib) (posting : Posting) (boxKind : Text) (since : Instant) :
    Program.Within isSilent (hydratePostingSince lib posting boxKind since) :=
  (hydratePostingSince_reads lib posting boxKind since).mono read_silent

/-! ## The pending events -/

/-- How many of the events are pending for a box. -/
def outstanding (items : List PendingEvent) (key : Text) : Nat := items.countP fun item => key ∈ item.boxes

/-- The pending events are those hydrated and not own, each once, with the boxes it was hydrated for. -/
structure Marked (lib : GoLib) (ownEmail : Text) (events : List (Text × Event)) (items : List PendingEvent) :
    Prop where
  distinct : (items.map (·.event.eventID)).Nodup
  boxes : ∀ item ∈ items, item.boxes.Nodup
  held : ∀ key eventID, (∃ event, (key, event) ∈ events ∧ isOwn lib ownEmail event = false ∧
    event.eventID = eventID) ↔ ∃ item ∈ items, item.event.eventID = eventID ∧ key ∈ item.boxes

private theorem marked_nil : Marked lib ownEmail [] [] := ⟨List.nodup_nil, by simp, by simp⟩

/-- The order of the pending events does not matter to what is marked. -/
theorem Marked.perm (marked : Marked lib ownEmail events items) (same : items.Perm items') :
    Marked lib ownEmail events items' where
  distinct := (same.map _).nodup_iff.mp marked.distinct
  boxes item held := marked.boxes item (same.mem_iff.mpr held)
  held key eventID := by simpa only [← same.mem_iff] using marked.held key eventID

/-- An own event changes nothing. -/
theorem Marked.own (marked : Marked lib ownEmail events items) (own : isOwn lib ownEmail event = true) :
    Marked lib ownEmail (events ++ [(key, event)]) items where
  distinct := marked.distinct
  boxes := marked.boxes
  held key' eventID := by
    rw [← marked.held]
    constructor
    · rintro ⟨found, listed, foreign, same⟩
      rcases List.mem_append.mp listed with old | new
      · exact ⟨found, old, foreign, same⟩
      · cases List.mem_singleton.mp new
        rw [own] at foreign
        cases foreign
    · rintro ⟨found, listed, foreign, same⟩
      exact ⟨found, List.mem_append_left _ listed, foreign, same⟩

private theorem mem_marks (foreign : isOwn lib ownEmail event = false) :
    (∃ found, (key', found) ∈ events ++ [(key, event)] ∧ isOwn lib ownEmail found = false ∧ found.eventID = eventID) ↔
      (∃ found, (key', found) ∈ events ∧ isOwn lib ownEmail found = false ∧ found.eventID = eventID) ∨
        key' = key ∧ event.eventID = eventID := by
  constructor
  · rintro ⟨found, listed, other, same⟩
    rcases List.mem_append.mp listed with old | new
    · exact .inl ⟨found, old, other, same⟩
    · cases List.mem_singleton.mp new
      exact .inr ⟨rfl, same⟩
  · rintro (⟨found, listed, other, same⟩ | ⟨rfl, same⟩)
    · exact ⟨found, List.mem_append_left _ listed, other, same⟩
    · exact ⟨event, List.mem_append_right _ (List.mem_singleton_self _), foreign, same⟩

/-- Another box of an event that is pending already. -/
theorem Marked.known (marked : Marked lib ownEmail events items) (foreign : isOwn lib ownEmail event = false)
    (pending : items.any (·.event.eventID = event.eventID) = true) :
    Marked lib ownEmail (events ++ [(key, event)]) (items.map fun item =>
      if item.event.eventID = event.eventID then { item with boxes := item.boxes.insert key } else item) where
  distinct := by
    have same : (items.map fun item => if item.event.eventID = event.eventID then
        { item with boxes := item.boxes.insert key } else item).map (·.event.eventID) =
        items.map (·.event.eventID) := by
      rw [List.map_map]
      apply List.map_congr_left
      intro item _
      simp only [Function.comp_apply]
      split <;> rfl
    rw [same]
    exact marked.distinct
  boxes := by
    intro item listed
    obtain ⟨old, held, rfl⟩ := List.mem_map.mp listed
    split
    · exact (marked.boxes old held).insert
    · exact marked.boxes old held
  held := by
    intro key' eventID
    rw [mem_marks foreign, marked.held]
    constructor
    · rintro (⟨item, held, same, inside⟩ | ⟨rfl, same⟩)
      · refine ⟨_, List.mem_map.mpr ⟨item, held, rfl⟩, ?_⟩
        split
        · exact ⟨same, List.mem_insert_of_mem inside⟩
        · exact ⟨same, inside⟩
      · obtain ⟨item, held, known⟩ := List.any_eq_true.mp pending
        have known := of_decide_eq_true known
        refine ⟨_, List.mem_map.mpr ⟨item, held, rfl⟩, ?_⟩
        rw [if_pos known]
        exact ⟨known.trans same, List.mem_insert_self⟩
    · rintro ⟨item, listed, same, inside⟩
      obtain ⟨old, held, rfl⟩ := List.mem_map.mp listed
      by_cases known : old.event.eventID = event.eventID
      · rw [if_pos known] at same inside
        rcases List.mem_insert_iff.mp inside with rfl | inside
        · exact .inr ⟨rfl, known.symm.trans same⟩
        · exact .inl ⟨old, held, same, inside⟩
      · rw [if_neg known] at same inside
        exact .inl ⟨old, held, same, inside⟩

/-- An event that was not pending. -/
theorem Marked.fresh (marked : Marked lib ownEmail events items) (foreign : isOwn lib ownEmail event = false)
    (absent : items.any (·.event.eventID = event.eventID) = false) (created : Instant) :
    Marked lib ownEmail (events ++ [(key, event)]) (items ++ [{ event, created, boxes := [key] }]) where
  distinct := by
    rw [List.map_append, List.nodup_append]
    refine ⟨marked.distinct, List.nodup_singleton _, ?_⟩
    intro known listed other fresh same
    obtain ⟨item, held, rfl⟩ := List.mem_map.mp listed
    have differs := List.any_eq_false.mp absent item held
    rw [List.map_singleton, List.mem_singleton] at fresh
    exact differs (decide_eq_true (same.trans fresh))
  boxes := by
    intro item listed
    rcases List.mem_append.mp listed with old | new
    · exact marked.boxes item old
    · rw [List.mem_singleton.mp new]
      exact List.nodup_singleton key
  held := by
    intro key' eventID
    rw [mem_marks foreign, marked.held]
    constructor
    · rintro (⟨item, held, same, inside⟩ | ⟨rfl, same⟩)
      · exact ⟨item, List.mem_append_left _ held, same, inside⟩
      · exact ⟨_, List.mem_append_right _ (List.mem_singleton_self _), same, List.mem_singleton_self _⟩
    · rintro ⟨item, listed, same, inside⟩
      rcases List.mem_append.mp listed with old | new
      · exact .inl ⟨item, old, same, inside⟩
      · rw [List.mem_singleton.mp new] at same inside
        exact .inr ⟨List.mem_singleton.mp inside, same⟩

/-- Counting keeps the boxes. -/
theorem keys_adjust (increments : List Increment) (key : Text) (amount : Int) :
    (adjust increments key amount).map Increment.key = increments.map Increment.key := by
  induction increments with
  | nil => rfl
  | cons increment rest ih =>
    rw [adjust]
    split
    · rw [List.map_cons, List.map_cons, ih]
    · split <;> rfl

/-- Adjusting changes a counter and nothing else. -/
theorem adjust_origin {increments : List Increment} (held : increment ∈ adjust increments key amount) :
    ∃ old ∈ increments, ∃ pending, increment = { old with pending := pending } := by
  induction increments with
  | nil => cases held
  | cons first rest ih =>
    have kept : ∀ {increment}, increment ∈ rest → ∃ old ∈ first :: rest, ∃ pending,
        increment = { old with pending := pending } :=
      fun {increment} held => ⟨increment, List.mem_cons_of_mem _ held, increment.pending, rfl⟩
    rw [adjust] at held
    split at held
    · rcases List.mem_cons.mp held with rfl | held
      · exact ⟨increment, List.mem_cons_self, increment.pending, rfl⟩
      · obtain ⟨old, inside, changed⟩ := ih held
        exact ⟨old, List.mem_cons_of_mem _ inside, changed⟩
    split at held
    · rcases List.mem_cons.mp held with rfl | held
      · exact ⟨first, List.mem_cons_self, _, rfl⟩
      · exact kept held
    · rcases List.mem_cons.mp held with rfl | held
      · exact ⟨increment, List.mem_cons_self, increment.pending, rfl⟩
      · exact kept held

/-- Counting the pending events changes nothing else about an increment. -/
theorem countPending_origin (held : increment ∈ countPending increments items) :
    ∃ old ∈ increments, ∃ pending, increment = { old with pending := pending } := by
  have counted : ∀ (boxes : List Text) (start : List Increment), ∀ increment ∈ boxes.foldl (adjust · · 1) start,
      ∃ old ∈ start, ∃ pending, increment = { old with pending := pending } := by
    intro boxes
    induction boxes with
    | nil => exact fun start increment held => ⟨increment, held, increment.pending, rfl⟩
    | cons key boxes ih =>
      intro start increment held
      obtain ⟨middle, later, pending, rfl⟩ := ih _ increment held
      obtain ⟨old, inside, _, rfl⟩ := adjust_origin later
      exact ⟨old, inside, pending, rfl⟩
  unfold countPending at held
  induction items generalizing increments with
  | nil => exact ⟨increment, held, increment.pending, rfl⟩
  | cons item items ih =>
    obtain ⟨middle, later, pending, rfl⟩ := ih held
    obtain ⟨old, inside, _, rfl⟩ := counted item.boxes increments middle later
    exact ⟨old, inside, pending, rfl⟩

/-- Where no two increments share a key, the one of the key is adjusted. -/
theorem adjust_eq_map (distinct : (increments.map Increment.key).Nodup) (key : Text) (amount : Int) :
    adjust increments key amount = increments.map fun increment =>
      if increment.key = key then { increment with pending := increment.pending + amount } else increment := by
  induction increments with
  | nil => rfl
  | cons increment rest ih =>
    obtain ⟨alone, distinct⟩ := List.nodup_cons.mp distinct
    rw [adjust, List.map_cons]
    by_cases later : rest.any (·.key = key) = true
    · have other : increment.key ≠ key := by
        rintro rfl
        obtain ⟨found, held, same⟩ := List.any_eq_true.mp later
        exact alone (List.mem_map.mpr ⟨found, held, of_decide_eq_true same⟩)
      rw [if_pos later, if_neg other, ih distinct]
    · have others : (rest.map fun increment => if increment.key = key then
          { increment with pending := increment.pending + amount } else increment) = rest := by
        refine (List.map_congr_left ?_).trans (List.map_id rest)
        intro found held
        apply if_neg
        intro same
        exact later (List.any_eq_true.mpr ⟨found, held, decide_eq_true same⟩)
      rw [if_neg later, others]
      split <;> rfl

/-- Where no two increments share a key, the map of the keys finds the one of a key. -/
theorem find_reverse {increments : List Increment} (distinct : (increments.map Increment.key).Nodup) (key : Text) :
    increments.reverse.find? (·.key = key) = increments.find? (·.key = key) := by
  have found : ∀ increments : List Increment, (increments.map Increment.key).Nodup → ∀ increment,
      increments.find? (·.key = key) = some increment ↔ increment ∈ increments ∧ increment.key = key := by
    intro increments distinct increment
    constructor
    · intro found
      exact ⟨List.mem_of_find?_eq_some found, by simpa using List.find?_some found⟩
    · rintro ⟨held, same⟩
      cases search : increments.find? (·.key = key) with
      | none => exact absurd (decide_eq_true same) (List.find?_eq_none.mp search increment held)
      | some other =>
        have keyed : other.key = key := by simpa using List.find?_some search
        rw [List.inj_on_of_nodup_map distinct (List.mem_of_find?_eq_some search) held (keyed.trans same.symm)]
  apply Option.ext
  intro increment
  have backwards : (increments.reverse.map Increment.key).Nodup := by
    rwa [List.map_reverse, List.nodup_reverse]
  rw [found increments distinct, found _ backwards, List.mem_reverse]

/-- Adjusting once for each of some distinct boxes. -/
theorem foldl_adjust {boxes : List Text} (amount : Int) (distinct : boxes.Nodup)
    (keys : (increments.map Increment.key).Nodup) :
    boxes.foldl (adjust · · amount) increments = increments.map fun increment =>
      { increment with pending := increment.pending + if increment.key ∈ boxes then amount else 0 } := by
  induction boxes generalizing increments with
  | nil => simp
  | cons key boxes ih =>
    obtain ⟨absent, distinct⟩ := List.nodup_cons.mp distinct
    have same := keys_adjust increments key amount
    rw [List.foldl_cons, ih distinct (by rwa [same]), adjust_eq_map keys, List.map_map]
    apply List.map_congr_left
    intro increment _
    by_cases here : increment.key = key
    · simp [here, absent]
    · simp [here]

/-- The counters hold the outstanding events. -/
theorem countPending_eq (distinct : ∀ item ∈ items, item.boxes.Nodup) (keys : (increments.map Increment.key).Nodup) :
    countPending increments items = increments.map fun increment =>
      { increment with pending := increment.pending + outstanding items increment.key } := by
  induction items generalizing increments with
  | nil => simp [countPending, outstanding]
  | cons item items ih =>
    obtain ⟨first, others⟩ := List.forall_mem_cons.mp distinct
    rw [countPending, List.foldl_cons, foldl_adjust 1 first keys, ← countPending, ih others, List.map_map]
    · apply List.map_congr_left
      intro increment _
      by_cases here : increment.key ∈ item.boxes
      · simp only [Function.comp_apply, here, ↓reduceIte, outstanding, List.countP_cons, decide_true,
          Increment.mk.injEq, true_and]
        omega
      · simp [here, outstanding]
    · rw [List.map_map]
      exact keys

/-! ## What `poll` has gathered -/

/-- The state has been loaded, or there was none. -/
structure Loaded (loaded : Cursors × Bool) (history : History) : Prop where
  loads : loads history = [loaded.1]
  successors : successors history = []
  hydrated : hydratedEvents history = []
  acknowledged : acknowledged history = []

private theorem loadCursorState_meets :
    Program.Meets (watchContract lib ownEmail) (Program.Returns Loaded) [] loadCursorState := by
  apply Program.meets_ask trivial
  intro outcome _
  cases outcome with
  | error error => exact trivial
  | ok found =>
    change Program.Meets _ _ _ (checkState found)
    cases found with
    | none => exact ⟨rfl, rfl, rfl, rfl⟩
    | some state =>
      obtain ⟨version, _ | boxes⟩ := state
      · exact trivial
      · rw [checkState]
        split
        · exact ⟨rfl, rfl, rfl, rfl⟩
        · exact trivial

private theorem listBoxes_meets (history : History) :
    Program.Meets (watchContract lib ownEmail) (Program.Returns fun boxes later =>
      (boxes.map Box.id).Nodup ∧ ∃ trace, later = history ++ trace ∧ ∀ event ∈ trace, isSilent event.1)
      history listBoxes := by
  apply Program.Meets.mapFail_returns
  apply Program.meets_ask trivial
  intro outcome allowed
  cases outcome with
  | error error => exact trivial
  | ok found =>
    cases found with
    | none => exact trivial
    | some boxes => exact ⟨allowed boxes rfl, _, rfl, List.forall_mem_singleton.mpr trivial⟩

private theorem Loaded.silent (loaded : Loaded state history) (inside : ∀ event ∈ trace, isSilent event.1) :
    Loaded state (history ++ trace) := by
  obtain ⟨noLoads, noSuccessors, noEvents, noAcks⟩ := silent_trace inside
  constructor
  · rw [loads_append, noLoads, List.append_nil]
    exact loaded.loads
  · rw [successors_append, noSuccessors, List.append_nil]
    exact loaded.successors
  · rw [hydratedEvents_append, noEvents, List.append_nil]
    exact loaded.hydrated
  · rw [acknowledged_append, noAcks, List.append_nil]
    exact loaded.acknowledged

/-- The increments of some boxes have been read from the loaded cursors. -/
structure Read (cursors : Cursors) (boxes : List Box) (increments : List Increment) (history : History) :
    Prop where
  loads : loads history = [cursors]
  successors : successors history = increments.map fun increment => (increment.key, increment.next)
  keys : increments.map Increment.key = boxes.map Box.key
  idle : ∀ increment ∈ increments, increment.pending = 0
  hydrated : hydratedEvents history = []
  acknowledged : acknowledged history = []

private theorem readIncrement_meets (read : Read cursors done increments history) (box : Box) :
    Program.Meets (watchContract lib ownEmail) (Program.Returns fun increment later =>
      Read cursors (done ++ [box]) (increments ++ [increment]) later) history (readIncrement lib cursors box) := by
  unfold readIncrement
  split
  · exact trivial
  · rename_i cursor found
    split
    · exact trivial
    have current : ∃ loaded, loads history = [loaded] ∧ loaded.lookup (decimalInt box.id) = some cursor :=
      ⟨cursors, read.loads, found⟩
    apply Program.meets_ask current
    intro outcome _
    cases outcome with
    | error error => exact trivial
    | ok changes =>
      cases changes with
      | none => exact trivial
      | some changes =>
        apply meets_require _ trivial
        intro _
        apply meets_require _ trivial
        intro _
        apply meets_require _ trivial
        intro _
        exact {
          loads := by
            rw [loads_append, read.loads]
            rfl
          successors := by
            rw [successors_append, read.successors, List.map_append]
            rfl
          keys := by
            rw [List.map_append, List.map_append, read.keys]
            rfl
          idle := by
            intro increment held
            rcases List.mem_append.mp held with old | new
            · exact read.idle increment old
            · rw [List.mem_singleton.mp new]
          hydrated := by
            rw [hydratedEvents_append, read.hydrated]
            rfl
          acknowledged := by
            rw [acknowledged_append, read.acknowledged]
            rfl }

private theorem readIncrements_meets (loads : loads history = [cursors]) (successors : successors history = [])
    (hydrated : hydratedEvents history = []) (acknowledged : acknowledged history = []) (boxes : List Box) :
    Program.Meets (watchContract lib ownEmail) (Program.Returns (Read cursors boxes)) history
      (readIncrements lib cursors boxes) := by
  apply Program.meets_foldlM_returns (Read cursors)
  · intro done box rest increments history _ read
    apply (readIncrement_meets read box).bind_returns
    exact fun _ _ extended => extended
  · exact ⟨loads, successors, rfl, by simp, hydrated, acknowledged⟩

/-- Pending events have been collected since a history. -/
structure Collected (lib : GoLib) (ownEmail : Text) (before : History) (items : List PendingEvent)
    (history : History) : Prop where
  loads : loads history = loads before
  successors : successors history = successors before
  acknowledged : acknowledged history = acknowledged before
  marked : Marked lib ownEmail (hydratedEvents history) items

private theorem Collected.silent (collected : Collected lib ownEmail before items history)
    (inside : ∀ event ∈ trace, isSilent event.1) : Collected lib ownEmail before items (history ++ trace) := by
  obtain ⟨noLoads, noSuccessors, noEvents, noAcks⟩ := silent_trace inside
  constructor
  · rw [loads_append, noLoads, List.append_nil]
    exact collected.loads
  · rw [successors_append, noSuccessors, List.append_nil]
    exact collected.successors
  · rw [acknowledged_append, noAcks, List.append_nil]
    exact collected.acknowledged
  · rw [hydratedEvents_append, noEvents, List.append_nil]
    exact collected.marked

private theorem addEvent_meets (collected : Collected lib ownEmail before items history) (key : Text)
    (event : Event) :
    Program.Meets (watchContract lib ownEmail) (Program.Returns (Collected lib ownEmail before)) history
      (addEvent lib ownEmail key items event) := by
  have extended : ∀ {items'}, Marked lib ownEmail (hydratedEvents history ++ [(key, event)]) items' →
      Collected lib ownEmail before items' (history ++ [⟨.hydrated key event, ()⟩]) := by
    intro items' marked
    constructor
    · rw [loads_append, collected.loads]
      exact List.append_nil _
    · rw [successors_append, collected.successors]
      exact List.append_nil _
    · rw [acknowledged_append, collected.acknowledged]
      exact List.append_nil _
    · rw [hydratedEvents_append]
      exact marked
  unfold addEvent
  apply Program.meets_ask trivial
  intro _ _
  split
  · rename_i own
    exact extended (collected.marked.own own)
  rename_i foreign
  have foreign := Bool.eq_false_iff.mpr foreign
  split
  · rename_i pending
    exact extended (collected.marked.known foreign pending)
  rename_i absent
  split
  · exact trivial
  · rename_i created _
    exact extended (collected.marked.fresh foreign (Bool.eq_false_iff.mpr absent) created)

private theorem addPosting_meets (collected : Collected lib ownEmail before items history) (increment : Increment)
    (posting : Posting) :
    Program.Meets (watchContract lib ownEmail) (Program.Returns (Collected lib ownEmail before)) history
      (addPosting lib ownEmail increment items posting) := by
  unfold addPosting
  split
  · exact collected
  have hydrating : Program.Meets (watchContract lib ownEmail) (Program.Returns fun _ later =>
      Collected lib ownEmail before items later) history
      (hydratePostingSince lib posting increment.boxKind increment.since) := by
    apply ((hydratePostingSince_within lib posting increment.boxKind increment.since).meets (silent_must _ _)).returns
    rintro _ _ ⟨trace, rfl, inside⟩
    exact collected.silent inside
  apply (hydrating.mapFail_returns _).bind_returns
  intro events later collected
  apply Program.meets_foldlM_returns (fun _ => Collected lib ownEmail before)
  · intro _ event _ items history _ collected
    exact addEvent_meets collected increment.key event
  · exact collected

private theorem hydrateIncrements_meets (unmarked : hydratedEvents before = []) (increments : List Increment) :
    Program.Meets (watchContract lib ownEmail) (Program.Returns (Collected lib ownEmail before)) before
      (hydrateIncrements lib ownEmail increments) := by
  apply Program.meets_foldlM_returns (fun _ => Collected lib ownEmail before)
  · intro _ increment _ items history _ collected
    apply Program.meets_foldlM_returns (fun _ => Collected lib ownEmail before)
    · intro _ posting _ items history _ collected
      exact addPosting_meets collected increment posting
    · exact collected
  · refine ⟨rfl, rfl, rfl, ?_⟩
    rw [unmarked]
    exact marked_nil

/-- What the increments and the pending events say about the history. -/
structure Gathers (lib : GoLib) (ownEmail : Text) (gathered : Gathered) (history : History) : Prop where
  loads : loads history = [gathered.cursors]
  successors : successors history = gathered.increments.map fun increment => (increment.key, increment.next)
  keys : (gathered.increments.map Increment.key).Nodup
  counted : ∀ increment ∈ gathered.increments, increment.pending = outstanding gathered.pending increment.key
  marked : Marked lib ownEmail (hydratedEvents history) gathered.pending
  acknowledged : acknowledged history = []

/-- What `poll` has gathered before its first write. -/
theorem gather_meets (lib : GoLib) (ownEmail : Text) :
    Program.Meets (watchContract lib ownEmail) (Program.Returns (Gathers lib ownEmail)) [] (gather lib ownEmail) := by
  apply loadCursorState_meets.bind_returns
  rintro ⟨cursors, found⟩ history loaded
  apply meets_require _ trivial
  rintro rfl
  apply (listBoxes_meets history).bind_returns
  rintro listed _ ⟨distinct, trace, rfl, inside⟩
  have loaded := loaded.silent inside
  apply (readIncrements_meets loaded.loads loaded.successors loaded.hydrated loaded.acknowledged _).bind_returns
  intro increments history read
  apply (hydrateIncrements_meets read.hydrated increments).bind_returns
  intro items history collected
  have sorted := List.perm_insertionSort emittedBefore items
  have counts : ∀ key, outstanding (items.insertionSort emittedBefore) key = outstanding items key :=
    fun key => sorted.countP_eq _
  have keys : (increments.map Increment.key).Nodup := by
    rw [read.keys]
    have same := (List.perm_insertionSort (fun a b : Box => a.id ≤ b.id) listed).map Box.id
    have ids := same.nodup_iff.mpr distinct
    have named := ids.map decimalInt_injective
    rwa [List.map_map] at named
  have counted := countPending_eq collected.marked.boxes keys
  constructor
  · exact collected.loads.trans read.loads
  · rw [collected.successors, read.successors, counted, List.map_map]
    rfl
  · have same : (countPending increments items).map Increment.key = increments.map Increment.key := by
      rw [counted, List.map_map]
      rfl
    rwa [same]
  · intro increment held
    rw [counted] at held
    obtain ⟨old, inside, rfl⟩ := List.mem_map.mp held
    simp only [read.idle old inside, Int.zero_add, counts]
  · exact collected.marked.perm sorted.symm
  · exact collected.acknowledged.trans read.acknowledged

/-! ## What `initialize` saves -/

/-- The loaded cursors are still there. -/
structure Initialized (loaded cursors : Cursors) (history : History) : Prop where
  loads : loads history = [loaded]
  kept : ∀ key cursor, loaded.lookup key = some cursor → cursors.lookup key = some cursor

private theorem initializeBox_meets (initialized : Initialized loaded state.1 history) (box : Box) :
    Program.Meets (watchContract lib ownEmail) (Program.Returns fun next later =>
      Initialized loaded next.1 later) history (initializeBox lib state box) := by
  unfold initializeBox
  apply meets_require _ trivial
  intro _
  split
  · exact initialized
  rename_i absent
  split
  · exact trivial
  split
  · exact trivial
  refine ⟨initialized.loads, ?_⟩
  intro key cursor held
  have before := initialized.kept key cursor held
  have other : key ≠ box.key := by
    rintro rfl
    rw [before] at absent
    exact absent rfl
  rw [AList.lookup_insert_ne other]
  exact before

/-- A save happens only for a change, and is lost, kept, or kept without being known to be. -/
theorem saveIf_meets {contract : Program.Contract Answer} {post : Except GoError Unit → History → Prop}
    {boxes : Cursors} (unchanged : changed = false → post (.ok ()) history)
    (must : changed = true → contract.must history (.saveCursors boxes))
    (saved : changed = true → post (.ok ()) (history ++ [⟨.saveCursors boxes, .saved⟩]))
    (lost : changed = true → ∀ error,
      post (.error error) (history ++ [⟨.saveCursors boxes, .failedBefore error⟩]))
    (late : changed = true → ∀ error,
      post (.error error) (history ++ [⟨.saveCursors boxes, .failedAfter error⟩])) :
    Program.Meets contract post history (saveIf changed boxes) := by
  cases changed with
  | false => exact unchanged rfl
  | true =>
    apply Program.meets_ask (must rfl)
    intro answer _
    cases answer with
    | saved => exact saved rfl
    | failedBefore error => exact lost rfl error
    | failedAfter error => exact late rfl error

/-- Writing a record is silent. -/
theorem writeNDJSON_within (lib : GoLib) (value : Value) : Program.Within isSilent (writeNDJSON lib value) := by
  apply (within_require _ _).bind
  intro _
  apply Program.Within.bind (Program.within_ask trivial)
  rintro ⟨count, _ | error⟩
  · exact Program.within_pure _
  · exact Program.within_fail _

/-- `initialize` meets the contract of the watch. -/
theorem initializeWatch_meets (lib : GoLib) (ownEmail : Text) :
    Program.Meets (watchContract lib ownEmail) (Program.Returns fun _ _ => True) [] (initializeWatch lib) := by
  apply loadCursorState_meets.bind_returns
  rintro ⟨cursors, found⟩ history loaded
  apply (listBoxes_meets history).bind_returns
  rintro boxes _ ⟨_, trace, rfl, inside⟩
  have loaded := loaded.silent inside
  have looped : Program.Meets (watchContract lib ownEmail) (Program.Returns fun next later =>
      Initialized cursors next.1 later) (history ++ trace) (boxes.foldlM (initializeBox lib) (cursors, !found)) := by
    apply Program.meets_foldlM_returns fun _ (next : Cursors × Bool) later => Initialized cursors next.1 later
    · intro _ box _ state later _ initialized
      exact initializeBox_meets initialized box
    · exact ⟨loaded.loads, fun _ _ held => held⟩
  apply looped.bind_returns
  rintro ⟨next, changed⟩ later initialized
  have keeps : Keeps lib ownEmail later next :=
    ⟨cursors, initialized.loads, fun key cursor held => .inl (initialized.kept key cursor held)⟩
  have saving : Program.Meets (watchContract lib ownEmail) (Program.Returns fun _ _ => True) later
      (saveIf changed next) :=
    saveIf_meets (fun _ => trivial) (fun _ => keeps) (fun _ => trivial) (fun _ _ => trivial) fun _ _ => trivial
  apply saving.bind_returns
  intro _ last _
  apply ((writeNDJSON_within lib (.obj readyFrame)).meets (silent_must lib ownEmail)).returns
  exact fun _ _ _ => trivial

end HermesHey.Sidecar
