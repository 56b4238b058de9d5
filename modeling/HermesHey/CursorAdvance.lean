import Mathlib.Logic.Function.Basic
import HermesHey.WatchGather

/-! How far a poll moves the cursors: exactly the boxes whose events have all been
acknowledged stand at their successor, whatever the poll ends in. -/
namespace HermesHey.Sidecar
open Library Library.Json

/-! ## The counters -/

variable {gathered : Gathered} {left : Text → Nat}

/-- The successor of a box for which nothing is left. -/
def reachedAt (increments : List Increment) (left : Text → Nat) (key : Text) : Option Cursor :=
  (increments.find? (·.key = key)).bind fun increment => if left key = 0 then increment.next else none

/-- The cursor of a box, given how many events are left for each. -/
def expected (gathered : Gathered) (left : Text → Nat) (key : Text) : Option Cursor :=
  (reachedAt gathered.increments left key).or (gathered.cursors.lookup key)

/-- The counters hold what is left, and the cursors stand where that says. -/
structure Tracks (gathered : Gathered) (left : Text → Nat) (progress : Progress) : Prop where
  increments : progress.increments = gathered.increments.map fun increment =>
    { increment with pending := left increment.key }
  cursors : ∀ key, progress.cursors.lookup key = expected gathered left key

private theorem settle_increments (progress : Progress) (increment : Increment) :
    (settle progress increment).increments = progress.increments := by
  unfold settle
  split <;> rfl

private theorem settle_lookup (progress : Progress) (increment : Increment) (key : Text) :
    (settle progress increment).cursors.lookup key =
      if increment.key = key then increment.reached.or (progress.cursors.lookup key)
      else progress.cursors.lookup key := by
  unfold settle
  split
  · rename_i waiting
    rw [waiting, Option.none_or, ite_self]
  · rename_i next reached
    by_cases same : increment.key = key
    · rw [if_pos same, reached, Option.some_or, ← same]
      exact AList.lookup_insert _
    · rw [if_neg same]
      exact AList.lookup_insert_ne fun other => same other.symm

private theorem expected_update (other : key ≠ box) :
    expected gathered (Function.update left box n) key = expected gathered left key := by
  rw [expected, expected, reachedAt, reachedAt, Function.update_of_ne other]

/-- One event less is left for a box. -/
theorem tracks_finishBox (keys : (gathered.increments.map Increment.key).Nodup)
    (tracks : Tracks gathered left progress)
    (counted : 0 < left box) :
    Tracks gathered (Function.update left box (left box - 1)) (finishBox progress box) := by
  have distinct : (progress.increments.map Increment.key).Nodup := by
    rw [tracks.increments, List.map_map]
    exact keys
  have adjusted : adjust progress.increments box (-1) = gathered.increments.map fun increment =>
      { increment with pending := (Function.update left box (left box - 1) increment.key : Nat) } := by
    rw [adjust_eq_map distinct, tracks.increments, List.map_map]
    apply List.map_congr_left
    intro increment _
    by_cases here : increment.key = box
    · simp only [Function.comp_apply, here, ↓reduceIte, Function.update_self, Increment.mk.injEq, true_and]
      omega
    · simp [here]
  have searched : (adjust progress.increments box (-1)).reverse.find? (·.key = box) =
      (gathered.increments.find? (·.key = box)).map fun increment =>
        { increment with pending := (Function.update left box (left box - 1) increment.key : Nat) } := by
    rw [find_reverse (by rwa [keys_adjust]), adjusted, List.find?_map]
    rfl
  have before : reachedAt gathered.increments left box = none := by
    have waiting : left box ≠ 0 := by omega
    simp only [reachedAt, waiting, ↓reduceIte, Option.bind_fun_none]
  unfold finishBox
  simp only [searched]
  cases found : gathered.increments.find? (·.key = box) with
  | none =>
    refine ⟨adjusted, ?_⟩
    intro key
    change progress.cursors.lookup key = _
    rw [tracks.cursors]
    by_cases here : key = box
    · rw [here, expected, expected, before, reachedAt, found]
      rfl
    · rw [expected_update here]
  | some increment =>
    have keyed : increment.key = box := by simpa using List.find?_some found
    refine ⟨(settle_increments _ _).trans adjusted, ?_⟩
    intro key
    simp only [Option.map_some]
    rw [settle_lookup]
    by_cases here : key = box
    · rw [here, if_pos keyed]
      change Option.or _ (progress.cursors.lookup box) = _
      rw [tracks.cursors, expected, before, expected, reachedAt, found, Option.none_or, Option.bind_some,
        Increment.reached]
      simp only [keyed, Int.natCast_eq_zero]
    · rw [if_neg (fun same => here (same.symm.trans keyed)), expected_update here]
      exact tracks.cursors key

/-- One event less is left for each box of an item. -/
theorem tracks_finished {boxes : List Text} (keys : (gathered.increments.map Increment.key).Nodup)
    (distinct : boxes.Nodup) (tracks : Tracks gathered left progress)
    (counted : ∀ box ∈ boxes, 0 < left box) :
    Tracks gathered (fun key => left key - if key ∈ boxes then 1 else 0) (boxes.foldl finishBox progress) := by
  induction boxes generalizing left progress with
  | nil => simpa using tracks
  | cons box boxes ih =>
    obtain ⟨absent, distinct⟩ := List.nodup_cons.mp distinct
    obtain ⟨first, others⟩ := List.forall_mem_cons.mp counted
    have remaining : ∀ key ∈ boxes, 0 < Function.update left box (left box - 1) key := by
      intro key inside
      have other : key ≠ box := fun same => absent (same ▸ inside)
      rw [Function.update_of_ne other]
      exact others key inside
    have finished := ih distinct (tracks_finishBox keys tracks first) remaining
    rw [List.foldl_cons]
    convert finished using 2 with key
    by_cases here : key = box
    · simp [here, absent]
    · simp [here]

/-- The counters that `poll` starts with, and the boxes that move at once. -/
theorem tracks_settleIdle (keys : (gathered.increments.map Increment.key).Nodup)
    (counted : ∀ increment ∈ gathered.increments, increment.pending = left increment.key) :
    Tracks gathered left (settleIdle gathered) := by
  have held : ∀ increments : List Increment, ∀ progress,
      (increments.foldl settle progress).increments = progress.increments := by
    intro increments
    induction increments with
    | nil => exact fun _ => rfl
    | cons increment increments ih => exact fun progress => (ih _).trans (settle_increments _ _)
  have looked : ∀ increments : List Increment, (increments.map Increment.key).Nodup →
      (∀ increment ∈ increments, increment.pending = left increment.key) → ∀ progress key,
      (increments.foldl settle progress).cursors.lookup key =
        (reachedAt increments left key).or (progress.cursors.lookup key) := by
    intro increments distinct counted
    induction increments with
    | nil => exact fun _ _ => rfl
    | cons increment increments ih =>
      intro progress key
      obtain ⟨absent, distinct⟩ := List.nodup_cons.mp distinct
      obtain ⟨first, others⟩ := List.forall_mem_cons.mp counted
      rw [List.foldl_cons, ih distinct others, settle_lookup]
      by_cases here : increment.key = key
      · have alone : increments.find? (·.key = key) = none := by
          rw [List.find?_eq_none]
          intro other inside same
          exact absent (List.mem_map.mpr ⟨other, inside, (of_decide_eq_true same).trans here.symm⟩)
        have front : (increment :: increments).find? (·.key = key) = some increment :=
          List.find?_cons_of_pos (decide_eq_true here)
        rw [reachedAt, reachedAt, alone, front, if_pos here, Increment.reached, first, here]
        simp
      · have skipped : (increment :: increments).find? (·.key = key) = increments.find? (·.key = key) :=
          List.find?_cons_of_neg fun same => here (of_decide_eq_true same)
        rw [if_neg here, reachedAt, reachedAt, skipped]
  constructor
  · rw [settleIdle, held]
    have same : ∀ increment ∈ gathered.increments,
        { increment with pending := (left increment.key : Int) } = increment := by
      intro increment inside
      rw [← counted increment inside]
    exact ((List.map_congr_left same).trans (List.map_id _)).symm
  · exact looked gathered.increments keys counted _

/-- Without a change the cursors are as before. -/
theorem settle_unchanged {progress : Progress} (unchanged : (settle progress increment).stateChanged = false) :
    progress.stateChanged = false ∧ (settle progress increment).cursors = progress.cursors := by
  unfold settle at *
  split at unchanged
  · exact ⟨unchanged, rfl⟩
  · cases unchanged

private theorem settleIdle_unchanged (unchanged : (settleIdle gathered).stateChanged = false) :
    (settleIdle gathered).cursors = gathered.cursors := by
  have loop : ∀ increments : List Increment, ∀ progress,
      (increments.foldl settle progress).stateChanged = false →
        (increments.foldl settle progress).cursors = progress.cursors ∧ progress.stateChanged = false := by
    intro increments
    induction increments with
    | nil => exact fun _ unchanged => ⟨rfl, unchanged⟩
    | cons increment increments ih =>
      intro progress unchanged
      obtain ⟨later, first⟩ := ih _ unchanged
      obtain ⟨before, same⟩ := settle_unchanged first
      exact ⟨later.trans same, before⟩
  exact (loop _ _ unchanged).1

private theorem finished_unchanged (boxes : List Text) (progress : Progress)
    (unchanged : (boxes.foldl finishBox progress).stateChanged = false) :
    (boxes.foldl finishBox progress).cursors = progress.cursors ∧ progress.stateChanged = false := by
  induction boxes generalizing progress with
  | nil => exact ⟨rfl, unchanged⟩
  | cons box boxes ih =>
    obtain ⟨later, first⟩ := ih _ unchanged
    rw [List.foldl_cons, later]
    unfold finishBox at *
    simp only at *
    split at first
    · exact ⟨rfl, first⟩
    · obtain ⟨before, same⟩ := settle_unchanged first
      exact ⟨same, before⟩

/-! ## The file -/

/-- The cursor file after a call: a save that fails after the replacement has written it. -/
def afterCall (file : Option CursorState) : Sigma Answer → Option CursorState
  | ⟨.saveCursors boxes, answer⟩ =>
    match answer with
    | .saved | .failedAfter _ => some ⟨1, some boxes⟩
    | .failedBefore _ => file
  | _ => file

/-- The cursor file after some calls. -/
def persisted (file : Option CursorState) (history : History) : Option CursorState :=
  history.foldl afterCall file

/-- The cursor that a file holds for a box. -/
def cursorAt (file : Option CursorState) (key : Text) : Option Cursor := do
  let state ← file
  let boxes ← state.boxes
  boxes.lookup key

theorem persisted_append : persisted file (first ++ later) = persisted (persisted file first) later :=
  List.foldl_append

def isSave : Call → Prop
  | .saveCursors _ => True
  | _ => False

/-- Only a save changes the file. -/
theorem persisted_unsaved (unsaved : ∀ event ∈ history, ¬ isSave event.1) : persisted file history = file := by
  induction history with
  | nil => rfl
  | cons event history ih =>
    obtain ⟨first, others⟩ := List.forall_mem_cons.mp unsaved
    obtain ⟨request, answer⟩ := event
    cases request with
    | saveCursors boxes => exact absurd trivial first
    | _ => exact ih others

/-- The last call is a save that failed before the replacement. -/
def LostSave (history : History) : Prop :=
  ∃ earlier boxes error, history = earlier ++ [⟨.saveCursors boxes, .failedBefore error⟩]

private theorem not_lost_snoc (kept : ∀ boxes error, event ≠ ⟨.saveCursors boxes, .failedBefore error⟩) :
    ¬ LostSave (history ++ [event]) := by
  rintro ⟨earlier, boxes, error, same⟩
  exact kept boxes error (List.singleton_injective (List.append_inj' same rfl).2)

/-- Where the cursors stand when exactly the events `acked` are acknowledged: at the successor of
every box whose events are all among them, and elsewhere as before. -/
structure Exact (lib : GoLib) (ownEmail : Text) (history : History) (acked : List Text)
    (before after : Option CursorState) : Prop where
  moved : ∀ key next, (key, some next) ∈ successors history → Complete lib ownEmail history acked key →
    cursorAt after key = some next
  kept : ∀ key, (∀ next, (key, some next) ∈ successors history → ¬ Complete lib ownEmail history acked key) →
    cursorAt after key = cursorAt before key

/-- Only the successors and the hydrated events of the history count. -/
theorem Exact.congr (exactly : Exact lib ownEmail history acked before after)
    (named : successors history = successors later) (hydrated : hydratedEvents history = hydratedEvents later) :
    Exact lib ownEmail later acked before after where
  moved := by
    intro key next listed complete
    apply exactly.moved key next (named ▸ listed)
    intro event held
    exact complete event (hydrated ▸ held)
  kept := by
    intro key waiting
    apply exactly.kept key
    intro next listed complete
    apply waiting next (named ▸ listed)
    intro event held
    exact complete event (hydrated ▸ held)

/-! ## Acknowledged and outstanding events -/

private theorem reachedAt_eq_some (gathers : Gathers lib ownEmail gathered base) :
    reachedAt gathered.increments left key = some next ↔
      (key, some next) ∈ successors base ∧ left key = 0 := by
  rw [reachedAt, Option.bind_eq_some_iff, gathers.successors, List.mem_map]
  constructor
  · rintro ⟨increment, found, reached⟩
    have keyed : increment.key = key := by simpa using List.find?_some found
    split at reached
    · rename_i none
      exact ⟨⟨increment, List.mem_of_find?_eq_some found, by rw [keyed, reached]⟩, none⟩
    · cases reached
  · rintro ⟨⟨increment, held, same⟩, none⟩
    obtain ⟨rfl, reached⟩ := Prod.mk.inj same
    refine ⟨increment, ?_, by rw [if_pos none, reached]⟩
    have searched : (gathered.increments.find? (·.key = increment.key)).isSome := by
      rw [List.find?_isSome]
      exact ⟨increment, held, decide_eq_true rfl⟩
    obtain ⟨other, found⟩ := Option.isSome_iff_exists.mp searched
    have keyed : other.key = increment.key := by simpa using List.find?_some found
    rw [found, List.inj_on_of_nodup_map gathers.keys (List.mem_of_find?_eq_some found) held keyed]

/-- A box is complete exactly when nothing is left for it. -/
theorem complete_iff_outstanding (gathers : Gathers lib ownEmail gathered base)
    (split : gathered.pending = done ++ rest) (same : hydratedEvents history = hydratedEvents base) :
    Complete lib ownEmail history (done.map (·.event.eventID)) key ↔ outstanding rest key = 0 := by
  have distinct := gathers.marked.distinct
  rw [split, List.map_append, List.nodup_append] at distinct
  rw [outstanding, List.countP_eq_zero]
  constructor
  · intro complete item left inside
    have pending : item ∈ gathered.pending := by
      rw [split]
      exact List.mem_append_right _ left
    obtain ⟨event, hydrated, foreign, named⟩ :=
      (gathers.marked.held key item.event.eventID).mpr ⟨item, pending, rfl, of_decide_eq_true inside⟩
    have acked := complete event (same ▸ hydrated) foreign
    exact distinct.2.2 _ acked _ (List.mem_map.mpr ⟨item, left, rfl⟩) named
  · intro finished event hydrated foreign
    rw [same] at hydrated
    obtain ⟨item, pending, named, inside⟩ :=
      (gathers.marked.held key event.eventID).mp ⟨event, hydrated, foreign, rfl⟩
    rw [split] at pending
    rcases List.mem_append.mp pending with done | left
    · exact List.mem_map.mpr ⟨item, done, named⟩
    · exact absurd (decide_eq_true inside) (finished item left)

private theorem exact_of_tracks (gathers : Gathers lib ownEmail gathered base)
    (split : gathered.pending = done ++ rest)
    (named : successors history = successors base) (hydrated : hydratedEvents history = hydratedEvents base)
    (tracks : Tracks gathered (outstanding rest) progress)
    (start : ∀ key, cursorAt before key = gathered.cursors.lookup key)
    (saved : ∀ key, cursorAt after key = progress.cursors.lookup key) :
    Exact lib ownEmail history (done.map (·.event.eventID)) before after where
  moved := by
    intro key next listed complete
    have finished := (complete_iff_outstanding gathers split hydrated).mp complete
    have reached := (reachedAt_eq_some gathers).mpr ⟨named ▸ listed, finished⟩
    rw [saved, tracks.cursors, expected, reached]
    rfl
  kept := by
    intro key waiting
    have stuck : reachedAt gathered.increments (outstanding rest) key = none := by
      rw [Option.eq_none_iff_forall_ne_some]
      intro next reached
      obtain ⟨listed, finished⟩ := (reachedAt_eq_some gathers).mp reached
      exact waiting next (named ▸ listed) ((complete_iff_outstanding gathers split hydrated).mpr finished)
    rw [saved, tracks.cursors, expected, stuck, start, Option.none_or]

/-- What a history holds since the pending events were gathered: their acknowledgements. -/
structure Since (base : History) (gathered : Gathered) (acked : List Text) (history : History) : Prop where
  loads : loads history = [gathered.cursors]
  successors : successors history = successors base
  hydrated : hydratedEvents history = hydratedEvents base
  acknowledged : acknowledged history = acked

/-- Silent calls change nothing of what a poll has done so far. -/
theorem Since.silent (since : Since base gathered acked history) (inside : ∀ event ∈ trace, isSilent event.1) :
    Since base gathered acked (history ++ trace) := by
  obtain ⟨noLoads, noSuccessors, noEvents, noAcks⟩ := silent_trace inside
  constructor
  · rw [loads_append, noLoads, List.append_nil]
    exact since.loads
  · rw [successors_append, noSuccessors, List.append_nil]
    exact since.successors
  · rw [hydratedEvents_append, noEvents, List.append_nil]
    exact since.hydrated
  · rw [acknowledged_append, noAcks, List.append_nil]
    exact since.acknowledged

/-- One more call, with the acknowledgement that it may read. -/
theorem since_snoc (event : Sigma Answer) (since : Since base gathered acked history) (noLoads : loads [event] = [])
    (noSuccessors : successors [event] = []) (noEvents : hydratedEvents [event] = []) :
    Since base gathered (acked ++ acknowledged [event]) (history ++ [event]) := by
  constructor
  · rw [loads_append, noLoads, List.append_nil]
    exact since.loads
  · rw [successors_append, noSuccessors, List.append_nil]
    exact since.successors
  · rw [hydratedEvents_append, noEvents, List.append_nil]
    exact since.hydrated
  · rw [acknowledged_append, since.acknowledged]

private theorem since_save (since : Since base gathered acked history) (boxes : Cursors) (answer : Saved) :
    Since base gathered acked (history ++ [⟨.saveCursors boxes, answer⟩]) := by
  have extended := since_snoc ⟨.saveCursors boxes, answer⟩ since rfl rfl rfl
  have silent : acknowledged [⟨.saveCursors boxes, answer⟩] = [] := rfl
  rwa [silent, List.append_nil] at extended

/-- Whatever is saved along the way keeps the contract. -/
theorem keeps_of_tracks (gathers : Gathers lib ownEmail gathered base) (split : gathered.pending = done ++ rest)
    (since : Since base gathered (done.map (·.event.eventID)) history)
    (tracks : Tracks gathered (outstanding rest) progress) : Keeps lib ownEmail history progress.cursors := by
  refine ⟨gathered.cursors, since.loads, ?_⟩
  intro key cursor held
  cases reached : reachedAt gathered.increments (outstanding rest) key with
  | none =>
    left
    rw [tracks.cursors, expected, reached, held]
    rfl
  | some next =>
    right
    obtain ⟨listed, finished⟩ := (reachedAt_eq_some gathers).mp reached
    refine ⟨next, since.successors ▸ listed, ?_, ?_⟩
    · rw [tracks.cursors, expected, reached]
      rfl
    · rw [since.acknowledged]
      exact (complete_iff_outstanding gathers split since.hydrated).mpr finished

/-! ## The rest of a poll -/

/-- Between two events, everything is where the counters say. -/
structure Delivering (file : Option CursorState) (base : History) (gathered : Gathered)
    (done rest : List PendingEvent) (progress : Progress) (history : History) : Prop where
  since : Since base gathered (done.map (·.event.eventID)) history
  tracks : Tracks gathered (outstanding rest) progress
  saved : ∀ key, cursorAt (persisted file history) key = progress.cursors.lookup key
  kept : ¬ LostSave history

/-- What the file holds when a poll that has hydrated ends, however it ends. A save that was
lost leaves it where it stood before the event that it was for. -/
structure Delivered (lib : GoLib) (ownEmail : Text) (file : Option CursorState) (gathered : Gathered)
    (history : History) : Prop where
  emitted : acknowledged history <+: gathered.pending.map (·.event.eventID)
  kept : ¬ LostSave history →
    Exact lib ownEmail history (acknowledged history) file (persisted file history)
  lostFirst : LostSave history → acknowledged history = [] →
    ∀ key, cursorAt (persisted file history) key = cursorAt file key
  lostLater : LostSave history → acknowledged history ≠ [] →
    Exact lib ownEmail history (acknowledged history).dropLast file (persisted file history)

private theorem silent_unsaved {trace : History} (inside : ∀ event ∈ trace, isSilent event.1) :
    ∀ event ∈ trace, ¬ isSave event.1 := by
  intro event held save
  have silent := inside event held
  obtain ⟨request, answer⟩ := event
  cases request with
  | saveCursors => exact silent
  | _ => exact save

section
variable {lib : GoLib} {ownEmail : Text} {file : Option CursorState} {base history : History}
  {done rest : List PendingEvent} {item : PendingEvent} {progress : Progress}

private theorem delivered_of_delivering (gathers : Gathers lib ownEmail gathered base)
    (start : ∀ key, cursorAt file key = gathered.cursors.lookup key) (split : gathered.pending = done ++ rest)
    (delivering : Delivering file base gathered done rest progress history) :
    Delivered lib ownEmail file gathered history where
  emitted := by
    rw [delivering.since.acknowledged, split, List.map_append]
    exact ⟨_, rfl⟩
  kept := by
    intro _
    rw [delivering.since.acknowledged]
    exact exact_of_tracks gathers split delivering.since.successors delivering.since.hydrated delivering.tracks
      start delivering.saved
  lostFirst lost := absurd lost delivering.kept
  lostLater lost := absurd lost delivering.kept

/-- Reading and writing change nothing. -/
theorem Delivering.silent (delivering : Delivering file base gathered done rest progress history)
    (inside : ∀ event ∈ trace, isSilent event.1) :
    Delivering file base gathered done rest progress (history ++ trace) where
  since := delivering.since.silent inside
  tracks := delivering.tracks
  saved := by
    rw [persisted_append, persisted_unsaved (silent_unsaved inside)]
    exact delivering.saved
  kept := by
    rcases List.eq_nil_or_concat' trace with rfl | ⟨front, last, rfl⟩
    · rw [List.append_nil]
      exact delivering.kept
    · rw [← List.append_assoc]
      apply not_lost_snoc
      rintro boxes error rfl
      exact inside _ (List.mem_append_right _ (List.mem_singleton_self _))

/-- A line that does not acknowledge the event. -/
theorem Delivering.refused (delivering : Delivering file base gathered done rest progress history)
    (silent : acknowledged [⟨.readAck eventID, answer⟩] = []) :
    Delivering file base gathered done rest progress (history ++ [⟨.readAck eventID, answer⟩]) where
  since := by
    have extended := since_snoc ⟨.readAck eventID, answer⟩ delivering.since rfl rfl rfl
    rwa [silent, List.append_nil] at extended
  tracks := delivering.tracks
  saved := by
    rw [persisted_append]
    exact delivering.saved
  kept := by
    apply not_lost_snoc
    intro boxes error same
    cases same

private theorem tracks_emitted (gathers : Gathers lib ownEmail gathered base)
    (split : gathered.pending = done ++ item :: rest) (tracks : Tracks gathered (outstanding (item :: rest)) progress) :
    Tracks gathered (outstanding rest) (item.boxes.foldl finishBox { progress with stateChanged := false }) := by
  have pending : item ∈ gathered.pending := by
    rw [split]
    exact List.mem_append_right _ List.mem_cons_self
  have counted : ∀ box ∈ item.boxes, 0 < outstanding (item :: rest) box := by
    intro box inside
    rw [outstanding, List.countP_pos_iff]
    exact ⟨item, List.mem_cons_self, decide_eq_true inside⟩
  have restarted : Tracks gathered (outstanding (item :: rest)) { progress with stateChanged := false } :=
    ⟨tracks.increments, tracks.cursors⟩
  have finished := tracks_finished gathers.keys (gathers.marked.boxes item pending) restarted counted
  convert finished using 2 with key
  rw [outstanding, outstanding, List.countP_cons]
  split <;> simp_all

private theorem saveIf_delivers (gathers : Gathers lib ownEmail gathered base)
    (start : ∀ key, cursorAt file key = gathered.cursors.lookup key)
    (split : gathered.pending = (done ++ [item]) ++ rest)
    (since : Since base gathered ((done ++ [item]).map (·.event.eventID)) history)
    (tracks : Tracks gathered (outstanding rest) finished)
    (same : finished.stateChanged = false →
      ∀ key, cursorAt (persisted file history) key = finished.cursors.lookup key)
    (before : Exact lib ownEmail history (done.map (·.event.eventID)) file (persisted file history))
    (kept : ¬ LostSave history) :
    Program.Meets (watchContract lib ownEmail) (fun
      | .ok _, later => Delivering file base gathered (done ++ [item]) rest finished later
      | .error _, later => Delivered lib ownEmail file gathered later) history
      (saveIf finished.stateChanged finished.cursors) := by
  have written : ∀ {answer}, afterCall (persisted file history) ⟨.saveCursors finished.cursors, answer⟩ =
        some ⟨1, some finished.cursors⟩ → (∀ error, answer ≠ .failedBefore error) →
      Delivering file base gathered (done ++ [item]) rest finished
        (history ++ [⟨.saveCursors finished.cursors, answer⟩]) := by
    intro answer replaced effective
    refine ⟨since_save since _ _, tracks, ?_, ?_⟩
    · intro key
      rw [persisted_append]
      change cursorAt (afterCall (persisted file history) ⟨.saveCursors finished.cursors, answer⟩) key = _
      rw [replaced]
      rfl
    · apply not_lost_snoc
      intro boxes error lost
      cases lost
      exact effective error rfl
  apply saveIf_meets
  · intro unchanged
    exact ⟨since, tracks, same unchanged, kept⟩
  · intro _
    exact keeps_of_tracks gathers split since tracks
  · intro _
    exact written rfl fun _ lost => nomatch lost
  · intro _ error
    have later := since_save since finished.cursors (.failedBefore error)
    have unmoved : persisted file (history ++ [⟨.saveCursors finished.cursors, .failedBefore error⟩]) =
        persisted file history := persisted_append
    have lost : LostSave (history ++ [⟨.saveCursors finished.cursors, .failedBefore error⟩]) := ⟨_, _, _, rfl⟩
    constructor
    · have parts : (done ++ [item] ++ rest).map (·.event.eventID) =
          (done ++ [item]).map (·.event.eventID) ++ rest.map (·.event.eventID) := List.map_append
      rw [later.acknowledged, split, parts]
      exact ⟨_, rfl⟩
    · exact fun settled => absurd lost settled
    · intro _ none
      rw [later.acknowledged] at none
      simp at none
    · intro _ _
      rw [later.acknowledged, List.map_append, List.map_singleton, List.dropLast_concat, unmoved]
      exact before.congr (since.successors.trans later.successors.symm)
        (since.hydrated.trans later.hydrated.symm)
  · intro _ error
    exact delivered_of_delivering gathers start split (written rfl fun _ lost => nomatch lost)

private theorem waitForAck_meets (eventID : Text) :
    Program.Meets (watchContract lib ownEmail) (fun
      | .ok _, later => later = history ++ [⟨.readAck eventID, Except.ok (some eventID)⟩]
      | .error _, later => ∃ answer, later = history ++ [⟨.readAck eventID, answer⟩] ∧
          acknowledged [⟨.readAck eventID, answer⟩] = []) history (waitForAck eventID) := by
  apply Program.meets_ask trivial
  intro outcome _
  cases outcome with
  | error error => exact ⟨_, rfl, rfl⟩
  | ok line =>
    cases line with
    | none => exact ⟨_, rfl, rfl⟩
    | some ack =>
      change Program.Meets _ _ _ (require (decide (ack = eventID)) "invalid ack")
      by_cases same : ack = eventID
      · subst same
        rw [decide_eq_true rfl]
        exact rfl
      · rw [decide_eq_false same]
        refine ⟨_, rfl, ?_⟩
        simp [acknowledged, same]

private theorem emit_meets (gathers : Gathers lib ownEmail gathered base)
    (start : ∀ key, cursorAt file key = gathered.cursors.lookup key)
    (split : gathered.pending = done ++ item :: rest)
    (delivering : Delivering file base gathered done (item :: rest) progress history) :
    Program.Meets (watchContract lib ownEmail) (fun
      | .ok next, later => Delivering file base gathered (done ++ [item]) rest next later
      | .error _, later => Delivered lib ownEmail file gathered later) history (emit lib progress item) := by
  apply ((writeNDJSON_within lib _).meets (silent_must lib ownEmail)).bind
  · rintro _ _ ⟨trace, rfl, inside⟩
    have delivering := delivering.silent inside
    apply (waitForAck_meets item.event.eventID).bind
    · rintro _ _ rfl
      have since := since_snoc ⟨.readAck item.event.eventID, Except.ok (some item.event.eventID)⟩
        delivering.since rfl rfl rfl
      have acked : acknowledged [⟨.readAck item.event.eventID, Except.ok (some item.event.eventID)⟩] =
          [item.event.eventID] := by simp [acknowledged]
      have ids : done.map (·.event.eventID) ++ [item.event.eventID] =
          (done ++ [item]).map (·.event.eventID) := by rw [List.map_append, List.map_singleton]
      rw [acked, ids] at since
      have finished := tracks_emitted gathers split delivering.tracks
      have followed : gathered.pending = (done ++ [item]) ++ rest := by
        rw [split, List.append_assoc, List.singleton_append]
      have saved : ∀ key, cursorAt (persisted file (history ++ trace ++
          [⟨.readAck item.event.eventID, Except.ok (some item.event.eventID)⟩])) key =
            progress.cursors.lookup key := by
        intro key
        rw [persisted_append]
        exact delivering.saved key
      have before := exact_of_tracks gathers split since.successors since.hydrated delivering.tracks start saved
      apply (saveIf_delivers gathers start followed since finished ?_ before ?_).bind
      · intro _ later delivered
        exact delivered
      · exact fun _ _ failed => failed
      · intro unchanged key
        rw [(finished_unchanged item.boxes _ unchanged).1]
        exact saved key
      · apply not_lost_snoc
        intro boxes error same
        cases same
    · rintro _ _ ⟨answer, rfl, silent⟩
      exact delivered_of_delivering gathers start split (delivering.refused silent)
  · rintro _ _ ⟨trace, rfl, inside⟩
    exact delivered_of_delivering gathers start split (delivering.silent inside)

/-- From a history that holds what was gathered, the rest of the poll is exact. -/
theorem deliver_meets (gathers : Gathers lib ownEmail gathered history)
    (start : ∀ key, cursorAt file key = gathered.cursors.lookup key)
    (unsaved : ∀ event ∈ history, ¬ isSave event.1) :
    Program.Meets (watchContract lib ownEmail) (fun _ later => Delivered lib ownEmail file gathered later) history
      (deliver lib gathered) := by
  have kept : ¬ LostSave history := by
    rintro ⟨earlier, boxes, error, rfl⟩
    exact unsaved _ (List.mem_append_right _ (List.mem_singleton_self _)) trivial
  have since : Since history gathered [] history := ⟨gathers.loads, rfl, rfl, gathers.acknowledged⟩
  have tracks := tracks_settleIdle gathers.keys gathers.counted
  have unmoved : ∀ key, cursorAt (persisted file history) key = gathered.cursors.lookup key := by
    rw [persisted_unsaved unsaved]
    exact start
  have written : ∀ answer, (∀ error, answer ≠ .failedBefore error) →
      Delivering file history gathered [] gathered.pending (settleIdle gathered)
        (history ++ [⟨.saveCursors (settleIdle gathered).cursors, answer⟩]) := by
    intro answer effective
    refine ⟨since_save since _ _, tracks, ?_, ?_⟩
    · intro key
      rw [persisted_append]
      cases answer with
      | saved => rfl
      | failedAfter error => rfl
      | failedBefore error => exact absurd rfl (effective error)
    · apply not_lost_snoc
      intro boxes error lost
      cases lost
      exact effective error rfl
  have first : Program.Meets (watchContract lib ownEmail) (fun
      | .ok _, later => Delivering file history gathered [] gathered.pending (settleIdle gathered) later
      | .error _, later => Delivered lib ownEmail file gathered later) history
      (saveIf (settleIdle gathered).stateChanged (settleIdle gathered).cursors) := by
    apply saveIf_meets
    · intro unchanged
      refine ⟨since, tracks, ?_, kept⟩
      rw [settleIdle_unchanged unchanged]
      exact unmoved
    · intro _
      exact keeps_of_tracks gathers (List.nil_append _).symm since tracks
    · intro _
      exact written _ fun _ lost => nomatch lost
    · intro _ error
      have later := since_save since (settleIdle gathered).cursors (.failedBefore error)
      have lost : LostSave (history ++ [⟨.saveCursors (settleIdle gathered).cursors, .failedBefore error⟩]) :=
        ⟨_, _, _, rfl⟩
      constructor
      · rw [later.acknowledged]
        exact ⟨_, rfl⟩
      · exact fun settled => absurd lost settled
      · intro _ _ key
        rw [persisted_append]
        exact (unmoved key).trans (start key).symm
      · exact fun _ acked => absurd later.acknowledged acked
    · intro _ error
      exact delivered_of_delivering gathers start (List.nil_append _).symm (written _ fun _ lost => nomatch lost)
  apply first.bind
  · intro _ later delivering
    have loop : Program.Meets (watchContract lib ownEmail) (fun
        | .ok _, later => Delivered lib ownEmail file gathered later
        | .error _, later => Delivered lib ownEmail file gathered later) later
        (gathered.pending.foldlM (emit lib) (settleIdle gathered)) := by
      apply Program.meets_foldlM (fun done progress later =>
        ∀ rest, gathered.pending = done ++ rest → Delivering file history gathered done rest progress later)
      · intro done item rest progress later split held
        apply (emit_meets gathers start split (held _ split)).mono
        intro outcome last reached
        cases outcome with
        | error error => exact reached
        | ok next =>
          intro others followed
          rw [split, List.append_cons] at followed
          rw [← List.append_cancel_left followed]
          exact reached
      · intro progress later held
        exact delivered_of_delivering gathers start (List.append_nil _).symm (held [] (List.append_nil _).symm)
      · intro rest split
        rw [List.nil_append] at split
        rw [← split]
        exact delivering
    apply loop.bind
    · exact fun _ _ delivered => delivered
    · exact fun _ _ delivered => delivered
  · exact fun _ _ delivered => delivered

end

/-! ## A whole poll -/

/-- `loadCursorState` makes one call. -/
theorem loadCursorState_within {calls : Call → Prop} (loading : calls .loadCursors) :
    Program.Within calls loadCursorState := by
  apply Program.Within.bind (Program.within_ask loading)
  intro outcome
  apply (Program.within_lift outcome).bind
  intro found
  unfold checkState
  split
  · exact Program.within_pure _
  · exact Program.within_fail _
  · split
    · exact Program.within_pure _
    · exact Program.within_fail _

/-- So does the listing of the boxes. -/
theorem listBoxes_within {calls : Call → Prop} (listing : calls .listBoxes) :
    Program.Within calls listBoxes := by
  apply Program.Within.mapFail
  apply Program.Within.bind (Program.within_ask listing)
  intro outcome
  apply (within_pass outcome).bind
  rintro (_ | boxes)
  · exact Program.within_fail _
  · exact Program.within_pure _

/-- An increment is read from the cursor of its box. -/
theorem readIncrement_within {calls : Call → Prop}
    (changes : ∀ cursor, cursors.lookup box.key = some cursor → calls (.allChanges box.id cursor)) (lib : GoLib) :
    Program.Within calls (readIncrement lib cursors box) := by
  unfold readIncrement
  split
  · exact Program.within_fail _
  rename_i cursor held
  split
  · exact Program.within_fail _
  apply Program.Within.bind (Program.within_ask (changes cursor held))
  intro outcome
  apply ((within_pass outcome).mapFail _).bind
  rintro (_ | changes)
  · exact Program.within_fail _
  apply (within_require _ _).bind
  intro _
  apply (within_require _ _).bind
  intro _
  apply (within_require _ _).bind
  intro _
  exact Program.within_pure _

/-- The hydrations read, and note what they find. -/
theorem hydrateIncrements_within {calls : Call → Prop} (reads : ∀ request, isRead request → calls request)
    (marks : ∀ box event, calls (.hydrated box event)) (lib : GoLib) (ownEmail : Text) (increments : List Increment) :
    Program.Within calls (hydrateIncrements lib ownEmail increments) := by
  apply Program.within_foldlM
  intro items increment
  apply Program.within_foldlM
  intro items posting
  unfold addPosting
  split
  · exact Program.within_pure _
  have reading := (hydratePostingSince_reads lib posting increment.boxKind increment.since).mono reads
  apply (reading.mapFail _).bind
  intro events
  apply Program.within_foldlM
  intro items event
  apply Program.Within.bind (Program.within_ask (marks increment.key event))
  intro _
  split
  · exact Program.within_pure _
  split
  · exact Program.within_pure _
  split
  · exact Program.within_fail _
  · exact Program.within_pure _

/-- The calls before the first write. -/
def isGathering : Call → Prop
  | .loadCursors | .listBoxes | .allChanges _ _ | .entriesPage _ _ | .message _ | .hydrated _ _ => True
  | _ => False

theorem read_gathering (request : Call) (read : isRead request) : isGathering request := by
  cases request with
  | entriesPage | message => exact trivial
  | _ => exact absurd read id

/-- Up to its first write, `poll` reads. -/
theorem gather_gathering (lib : GoLib) (ownEmail : Text) : Program.Within isGathering (gather lib ownEmail) := by
  apply (loadCursorState_within trivial).bind
  rintro ⟨cursors, found⟩
  apply (within_require _ _).bind
  intro _
  apply (listBoxes_within trivial).bind
  intro listed
  have increments : Program.Within isGathering
      (readIncrements lib cursors (listed.insertionSort fun a b => a.id ≤ b.id)) := by
    apply Program.within_foldlM
    intro increments box
    exact (readIncrement_within (fun _ _ => trivial) lib).bind fun _ => Program.within_pure _
  apply increments.bind
  intro increments
  apply (hydrateIncrements_within read_gathering (fun _ _ => trivial) lib ownEmail increments).bind
  exact fun _ => Program.within_pure _

/-- Before the first write, nothing is saved. -/
theorem gather_within (lib : GoLib) (ownEmail : Text) :
    Program.Within (fun request => ¬ isSave request) (gather lib ownEmail) := by
  apply (gather_gathering lib ownEmail).mono
  intro request gathering
  cases request with
  | saveCursors => exact fun _ => gathering
  | _ => exact id

/-- Every call of a poll keeps the contract. -/
theorem poll_meets (lib : GoLib) (ownEmail : Text) :
    Program.Meets (watchContract lib ownEmail) (Program.Returns fun _ _ => True) [] (poll lib ownEmail) := by
  apply ((gather_meets lib ownEmail).within (gather_within lib ownEmail)).bind
  · rintro gathered _ ⟨gathers, trace, rfl, unsaved⟩
    have start : ∀ key, cursorAt (some ⟨1, some gathered.cursors⟩) key = gathered.cursors.lookup key :=
      fun _ => rfl
    exact (deliver_meets gathers start unsaved).returns fun _ _ _ => trivial
  · exact fun _ _ _ => trivial

end HermesHey.Sidecar
