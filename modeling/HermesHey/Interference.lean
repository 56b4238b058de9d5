import HermesHey.Dispatch
import HermesHey.WatchStream

/-! Watches beside the dispatch of pending events, and two runs of them compared:
with the frames of senders that the policy refuses, and without. -/
namespace HermesHey.Interference
open Library Library.Json HermesHey.Core Adapter DurableQueue
open Dispatch (Setup)

/-- Where `_watch_supervisor` is with one run of its watch. -/
inductive Phase where
  /-- About to call `_drain_pending`, after the ready frame or an accepted event. -/
  | toDrain
  | draining (drain : Nat)
  | reading
  /-- In `process_watch_line`, before the acknowledgement. -/
  | ingested (event : HeyEvent) (accepted : Bool)
  /-- An exception has ended the run. -/
  | over
  deriving DecidableEq

/-- A run of a watch, and the frames it has not read. -/
structure Watch where
  adapter : Nat
  ahead : List Members
  phase : Phase

structure World where
  process : Dispatch.State
  watches : List Watch
  /-- What was passed to `handle_message`, oldest first, and by which adapter. -/
  handed : List (Nat × HeyEvent)
  /-- The mutations as they were called, oldest first. -/
  called : List Dispatch.Mutation
  /-- The acknowledged events, oldest first. -/
  acked : List (Nat × HeyEvent)

/-- Watches with these frames ahead have just read their ready frame, beside a process in any state. -/
def World.start (process : Dispatch.State) (streams : List (Nat × List Members)) : World where
  process
  watches := streams.map fun stream => ⟨stream.1, stream.2, .toDrain⟩
  handed := []
  called := []
  acked := []

/-- Every watch has read all its frames, or has ended before. -/
def World.Finished (w : World) : Prop :=
  ∀ watch ∈ w.watches, watch.phase = .over ∨ watch.phase = .reading ∧ watch.ahead = []

/-- A watch whose drain has ended goes on or ends with it: the loop of
`_drain_pending` ends where nothing is ahead, and otherwise an exception ends it. -/
def Phase.after (before after : Dispatch.State) : Phase → Phase
  | .draining d =>
    match before.drains d, after.drains d with
    | some drain, none => if drain.phase = .walking ∧ drain.ahead = [] then .reading else .over
    | _, _ => .draining d
  | phase => phase

def Watch.after (before after : Dispatch.State) (watch : Watch) : Watch :=
  { watch with phase := watch.phase.after before after }

/-- The event that an action passes to `handle_message`. -/
def handedBy (after : Dispatch.State) : Dispatch.Action → List (Nat × HeyEvent)
  | .drainTurn d _ =>
    match after.drains d with
    | some ⟨adapter, _, .handling event⟩ => [(adapter, event)]
    | _ => []
  | _ => []

/-- The mutation that an action calls. -/
def calledBy (before after : Dispatch.State) : Dispatch.Action → List Dispatch.Mutation
  | .sendAttempt _ m _ =>
    match before.mutations m, after.mutations m with
    | none, some mutation => [mutation]
    | _, _ => []
  | _ => []

inductive Label where
  | frame (watch : Nat) (fault : Fault)
  | acknowledge (watch : Nat)
  | drain (watch drain : Nat) (fault : Fault)
  /-- The watch ends by itself: its process, an acknowledgement, or `disconnect`. -/
  | breaks (watch : Nat)
  | process (action : Dispatch.Action)

def World.setWatch (w : World) (i : Nat) (watch : Watch) : World := { w with watches := w.watches.set i watch }

/-- The world after a step of the process. -/
def World.settled (w : World) (process : Dispatch.State) (action : Dispatch.Action) : World :=
  { w with
    process
    watches := w.watches.map (Watch.after w.process process)
    handed := w.handed ++ handedBy process action
    called := w.called ++ calledBy w.process process action }

section
variable (setup : Setup)

/-- `self.queue.ingest(event, self._authorized)` -/
def ingestion (s : Dispatch.State) (adapter : Nat) (event : HeyEvent) (fault : Fault) : Except PyError Bool :=
  (ingest setup.limits event (authorized setup.py (setup.adapters adapter)) fault s.file).result

inductive Step (w : World) : Label → World → Prop where
  | frame (here : w.watches[i]? = some watch) (reading : watch.phase = .reading) (next : watch.ahead = raw :: rest)
      (checked : checkWatchLine (setup.adapters watch.adapter) raw = .ok event)
      (taken : Dispatch.Step setup w.process (.ingest watch.adapter event fault) process)
      (returned : ingestion setup w.process watch.adapter event fault = .ok accepted) :
      Step w (.frame i fault)
        (World.setWatch { w with process } i { watch with ahead := rest, phase := .ingested event accepted })
  | ingestRaises (here : w.watches[i]? = some watch) (reading : watch.phase = .reading)
      (next : watch.ahead = raw :: rest) (checked : checkWatchLine (setup.adapters watch.adapter) raw = .ok event)
      (taken : Dispatch.Step setup w.process (.ingest watch.adapter event fault) process)
      (raised : ingestion setup w.process watch.adapter event fault = .error e) :
      Step w (.frame i fault) (World.setWatch { w with process } i { watch with ahead := rest, phase := .over })
  | frameRefused (here : w.watches[i]? = some watch) (reading : watch.phase = .reading)
      (next : watch.ahead = raw :: rest) (refused : checkWatchLine (setup.adapters watch.adapter) raw = .error e) :
      Step w (.frame i fault) (w.setWatch i { watch with ahead := rest, phase := .over })
  | acknowledges (here : w.watches[i]? = some watch) (ingested : watch.phase = .ingested event accepted) :
      Step w (.acknowledge i) (World.setWatch { w with acked := w.acked ++ [(watch.adapter, event)] } i
        { watch with phase := if accepted then .toDrain else .reading })
  /-- `_drain_pending` lists the pending events, or raises. -/
  | drains (here : w.watches[i]? = some watch) (due : watch.phase = .toDrain) (fresh : w.process.drains d = none)
      (taken : Dispatch.Step setup w.process (.drainStart d watch.adapter fault) process) :
      Step w (.drain i d fault) (World.setWatch { w with process } i
        { watch with phase := if (process.drains d).isSome then .draining d else .over })
  | breaks (here : w.watches[i]? = some watch) :
      Step w (.breaks i) (w.setWatch i { watch with phase := .over })
  /-- Any other step of the process, with the watches that wait for its end. -/
  | process (other : ∀ a event fault, action ≠ .ingest a event fault)
      (taken : Dispatch.Step setup w.process action process) :
      Step w (.process action) (w.settled process action)

/-! ## Deleting frames -/

/-- Not a frame with an event of a sender that the policy refuses. -/
def kept (adapter : Nat) (raw : Members) : Bool :=
  match checkWatchLine (setup.adapters adapter) raw with
  | .ok event => authorized setup.py (setup.adapters adapter) event
  | .error _ => true

/-- A stream without the frames of refused senders. -/
def deleteRefused (stream : Nat × List Members) : Nat × List Members := (stream.1, stream.2.filter (kept setup stream.1))

/-- Where a watch is when nothing of a refused sender is seen. -/
def Phase.without (adapter : Nat) : Phase → Phase
  | .ingested event accepted =>
    if authorized setup.py (setup.adapters adapter) event then .ingested event accepted
    else if accepted then .toDrain else .reading
  | phase => phase

def Watch.without (watch : Watch) : Watch where
  adapter := watch.adapter
  ahead := watch.ahead.filter (kept setup watch.adapter)
  phase := watch.phase.without setup watch.adapter

/-- The world without the frames of refused senders, read or not. -/
def World.without (w : World) : World :=
  { w with
    watches := w.watches.map (Watch.without setup)
    acked := w.acked.filter fun acked => authorized setup.py (setup.adapters acked.1) acked.2 }

variable {setup : Setup}

private theorem without_here {w : World} {i : Nat} {watch : Watch} (here : w.watches[i]? = some watch) :
    (w.without setup).watches[i]? = some (watch.without setup) := by
  simp [World.without, here]

private theorem without_setWatch (w : World) (i : Nat) (watch : Watch) :
    (w.setWatch i watch).without setup = (w.without setup).setWatch i (watch.without setup) := by
  simp [World.without, World.setWatch]

private theorem setWatch_self {w : World} {i : Nat} {watch : Watch} (here : w.watches[i]? = some watch) :
    w.setWatch i watch = w := by
  obtain ⟨inside, rfl⟩ := List.getElem?_eq_some_iff.mp here
  simp [World.setWatch]

private theorem phase_without_after (before after : Dispatch.State) (adapter : Nat) (phase : Phase) :
    (phase.after before after).without setup adapter = (phase.without setup adapter).after before after := by
  cases phase with
  | draining d =>
    have unchanged : (Phase.draining d).without setup adapter = .draining d := rfl
    rw [unchanged, Phase.after]
    cases before.drains d with
    | none => rfl
    | some drain =>
      cases after.drains d with
      | some _ => rfl
      | none =>
        dsimp only
        split <;> rfl
  | ingested event accepted =>
    have waits : Phase.after before after (.ingested event accepted) = .ingested event accepted := rfl
    rw [waits, Phase.without]
    split
    · rfl
    · split <;> rfl
  | _ => rfl

private theorem without_after (before after : Dispatch.State) (watch : Watch) :
    (watch.after before after).without setup = (watch.without setup).after before after := by
  rw [Watch.without, Watch.after, phase_without_after]
  rfl

private theorem without_settled (w : World) (process : Dispatch.State) (action : Dispatch.Action) :
    (w.settled process action).without setup = (w.without setup).settled process action := by
  simp [World.without, World.settled, Function.comp_def, without_after]

/-- The policy comes first: `ingest` of a refused event reads and writes nothing. -/
theorem refused_ingest {s : Dispatch.State}
    (refused : authorized setup.py (setup.adapters a) event = false) (fault : Fault) :
    ingestion setup s a event fault = .ok false ∧
      ∀ next, Dispatch.Step setup s (.ingest a event fault) next → next = s := by
  have untouched : ingest setup.limits event (authorized setup.py (setup.adapters a)) fault s.file =
      .untouched (.ok false) s.file := by
    simp [ingest, refused]
  refine ⟨by rw [ingestion, untouched, Answer.untouched], fun next taken => ?_⟩
  cases taken with
  | ingests _ answered =>
    rw [← answered, untouched]
    rfl

private theorem kept_of_checked (checked : checkWatchLine (setup.adapters a) raw = .ok event) :
    kept setup a raw = authorized setup.py (setup.adapters a) event := by
  rw [kept, checked]

/-- What a watch keeps of a frame it has ahead. -/
theorem ahead_without {watch : Watch} (next : watch.ahead = raw :: rest)
    (keeps : kept setup watch.adapter raw = true) :
    (watch.without setup).ahead = raw :: rest.filter (kept setup watch.adapter) := by
  rw [Watch.without, next, List.filter_cons_of_pos keeps]

private theorem reading_without {watch : Watch} (reading : watch.phase = .reading) :
    (watch.without setup).phase = .reading := by
  rw [Watch.without, reading]
  rfl

private theorem over_without (watch : Watch) (rest : List Members) :
    Watch.without setup { watch with ahead := rest, phase := .over } =
      { watch.without setup with ahead := rest.filter (kept setup watch.adapter), phase := .over } := rfl

private theorem ingested_without {watch : Watch}
    (policy : authorized setup.py (setup.adapters watch.adapter) event = true) (rest : List Members) (accepted : Bool) :
    Watch.without setup { watch with ahead := rest, phase := .ingested event accepted } =
      { watch.without setup with ahead := rest.filter (kept setup watch.adapter), phase := .ingested event accepted } := by
  simp [Watch.without, Phase.without, policy]

private theorem going_without (watch : Watch) (yes no : Phase) (which : Bool)
    (plain : ∀ phase ∈ [yes, no], phase.without setup watch.adapter = phase) :
    Watch.without setup { watch with phase := if which then yes else no } =
      { watch.without setup with phase := if which then yes else no } := by
  have same : (if which then yes else no).without setup watch.adapter = if which then yes else no := by
    cases which
    · exact plain no (by simp)
    · exact plain yes (by simp)
  rw [Watch.without, same]
  rfl

private theorem acknowledged_without (watch : Watch) (accepted : Bool) :
    Watch.without setup { watch with phase := if accepted then .toDrain else .reading } =
      { watch.without setup with phase := if accepted then .toDrain else .reading } :=
  going_without watch .toDrain .reading accepted (by simp [Phase.without])

private theorem drained_without (watch : Watch) (d : Nat) (started : Bool) :
    Watch.without setup { watch with phase := if started then .draining d else .over } =
      { watch.without setup with phase := if started then .draining d else .over } :=
  going_without watch (.draining d) .over started (by simp [Phase.without])

private theorem acked_without {a : Nat} (policy : authorized setup.py (setup.adapters a) event = true) (w : World) :
    World.without setup { w with acked := w.acked ++ [(a, event)] } =
      { w.without setup with acked := (w.without setup).acked ++ [(a, event)] } := by
  simp [World.without, policy]

/-- A step of the whole world is one of the world without the refused frames, or
happens in them alone. -/
theorem step_without (w : World) (label : Label) (v : World) (taken : Step setup w label v) :
    v.without setup = w.without setup ∨ Step setup (w.without setup) label (v.without setup) := by
  cases taken with
  | @frame i watch raw rest event fault process accepted here reading next checked taken returned =>
    have phase : (watch.without setup).phase = .reading := reading_without reading
    rw [without_setWatch]
    cases policy : authorized setup.py (setup.adapters watch.adapter) event with
    | false =>
      obtain ⟨answered, idle⟩ := refused_ingest policy fault
      have drops : kept setup watch.adapter raw = false := by rw [kept_of_checked checked, policy]
      rw [returned] at answered
      cases answered
      cases idle _ taken
      left
      have same : Watch.without setup { watch with ahead := rest, phase := .ingested event false } =
          watch.without setup := by
        simp [Watch.without, Phase.without, policy, reading, next, List.filter_cons_of_neg, drops]
      rw [same]
      exact setWatch_self (without_here here)
    | true =>
      have keeps : kept setup watch.adapter raw = true := by rw [kept_of_checked checked, policy]
      right
      rw [ingested_without policy]
      exact .frame (without_here here) phase (ahead_without next keeps) checked taken returned
  | @ingestRaises i watch raw rest event fault process e here reading next checked taken raised =>
    have phase : (watch.without setup).phase = .reading := reading_without reading
    right
    rw [without_setWatch, over_without]
    cases policy : authorized setup.py (setup.adapters watch.adapter) event with
    | false =>
      rw [(refused_ingest policy fault).1] at raised
      cases raised
    | true =>
      have keeps : kept setup watch.adapter raw = true := by rw [kept_of_checked checked, policy]
      exact .ingestRaises (without_here here) phase (ahead_without next keeps) checked taken raised
  | @frameRefused i watch raw rest e fault here reading next refused =>
    have phase : (watch.without setup).phase = .reading := reading_without reading
    have keeps : kept setup watch.adapter raw = true := by rw [kept, refused]
    right
    rw [without_setWatch, over_without]
    exact .frameRefused (without_here here) phase (ahead_without next keeps) refused
  | @acknowledges i watch event accepted here ingested =>
    have phase : (watch.without setup).phase = (Phase.ingested event accepted).without setup watch.adapter := by
      rw [Watch.without, ingested]
    rw [without_setWatch]
    cases policy : authorized setup.py (setup.adapters watch.adapter) event with
    | false =>
      left
      have same : Watch.without setup { watch with phase := if accepted then .toDrain else .reading } =
          watch.without setup := by
        rw [Watch.without, Watch.without, ingested]
        cases accepted <;> simp [Phase.without, policy]
      have dropped : World.without setup { w with acked := w.acked ++ [(watch.adapter, event)] } = w.without setup := by
        simp [World.without, policy]
      rw [same, dropped]
      exact setWatch_self (without_here here)
    | true =>
      right
      rw [acked_without policy, acknowledged_without]
      exact .acknowledges (without_here here) (by rw [phase, Phase.without, if_pos policy])
  | @drains i watch d fault process here due fresh taken =>
    right
    rw [without_setWatch, drained_without]
    have waiting : (watch.without setup).phase = .toDrain := by
      rw [Watch.without, due]
      rfl
    exact .drains (without_here here) waiting fresh taken
  | @breaks i watch here =>
    right
    rw [without_setWatch]
    exact .breaks (without_here here)
  | @process action process other taken =>
    right
    rw [without_settled]
    exact .process other taken

/-! ## Reading the refused frames -/

/-- The watch is where it is without the refused frames, and its next frame is none of them. -/
def Watch.Caught (setup : Setup) (watch : Watch) : Prop :=
  (watch.without setup).phase = watch.phase ∧
    (watch.phase = .reading → ∀ raw ∈ watch.ahead.head?, kept setup watch.adapter raw = true)

private theorem without_change {w : World} {watch next : Watch} (here : w.watches[i]? = some watch)
    (same : next.without setup = watch.without setup)
    (refused : ∀ acked ∈ extra, authorized setup.py (setup.adapters acked.1) acked.2 = false) :
    (World.setWatch { w with acked := w.acked ++ extra } i next).without setup = w.without setup := by
  have nothing : extra.filter (fun acked => authorized setup.py (setup.adapters acked.1) acked.2) = [] :=
    List.filter_eq_nil_iff.mpr fun acked held => by rw [refused acked held]; exact Bool.false_ne_true
  have dropped : World.without setup { w with acked := w.acked ++ extra } = w.without setup := by
    simp [World.without, nothing]
  rw [without_setWatch, same, dropped]
  exact setWatch_self (without_here here)

private theorem refused_of_dropped (dropped : kept setup a raw = false) :
    ∃ event, checkWatchLine (setup.adapters a) raw = .ok event ∧ authorized setup.py (setup.adapters a) event = false := by
  unfold kept at dropped
  split at dropped
  · exact ⟨_, ‹_›, dropped⟩
  · cases dropped

private theorem reads_refused {w : World} {i a : Nat} (here : w.watches[i]? = some ⟨a, raw :: rest, .reading⟩)
    (checked : checkWatchLine (setup.adapters a) raw = .ok event)
    (policy : authorized setup.py (setup.adapters a) event = false) :
    Step setup w (.frame i .none) (w.setWatch i ⟨a, rest, .ingested event false⟩) := by
  have account : event.accountId = (setup.adapters a).accountId :=
    (WatchStream.checkWatchLine_eq_ok.mp checked).2.2.2.2
  have taken : Dispatch.Step setup w.process (.ingest a event .none) _ := .ingests account rfl
  rw [(refused_ingest policy .none).2 _ taken] at taken
  exact .frame here rfl rfl checked taken (refused_ingest policy .none).1

private theorem skips_refused (a : Nat) (ahead : List Members) (w : World)
    (here : w.watches[i]? = some ⟨a, ahead, .reading⟩) :
    ∃ labels v next, Run (Step setup) w labels v ∧ v.without setup = w.without setup ∧
      v.watches = w.watches.set i next ∧ next.Caught setup := by
  induction ahead generalizing w with
  | nil =>
    have same := congrArg World.watches (setWatch_self here)
    exact ⟨[], w, _, .nil, rfl, same.symm, rfl, by simp⟩
  | cons raw rest ih =>
    cases keeps : kept setup a raw with
    | true =>
      have same := congrArg World.watches (setWatch_self here)
      exact ⟨[], w, _, .nil, rfl, same.symm, rfl, by simpa using keeps⟩
    | false =>
      obtain ⟨event, checked, policy⟩ := refused_of_dropped keeps
      have inside : i < w.watches.length := (List.getElem?_eq_some_iff.mp here).1
      have first := reads_refused here checked policy
      have second : Step setup (w.setWatch i ⟨a, rest, .ingested event false⟩) (.acknowledge i) _ :=
        .acknowledges (List.getElem?_set_self inside) rfl
      have reached : World.setWatch { w with acked := w.acked ++ [(a, event)] } i ⟨a, rest, .reading⟩ =
          World.setWatch { w.setWatch i ⟨a, rest, .ingested event false⟩ with acked := w.acked ++ [(a, event)] } i
            ⟨a, rest, .reading⟩ := by
        simp [World.setWatch]
      obtain ⟨labels, v, next, ran, hidden, watches, caught⟩ :=
        ih (World.setWatch { w with acked := w.acked ++ [(a, event)] } i ⟨a, rest, .reading⟩)
          (List.getElem?_set_self inside)
      refine ⟨_, v, next, .cons first (.cons second (reached ▸ ran)), ?_, ?_, caught⟩
      · rw [hidden]
        apply without_change here
        · simp [Watch.without, Phase.without, List.filter_cons_of_neg, keeps]
        · simpa using policy
      · rw [watches]
        simp [World.setWatch]

private theorem catches_up (setup : Setup) {w : World} {i : Nat} {watch : Watch} (here : w.watches[i]? = some watch) :
    ∃ labels v next, Run (Step setup) w labels v ∧ v.without setup = w.without setup ∧
      v.watches = w.watches.set i next ∧ next.Caught setup := by
  have staying : watch.Caught setup → ∃ labels v next, Run (Step setup) w labels v ∧
      v.without setup = w.without setup ∧ v.watches = w.watches.set i next ∧ next.Caught setup := by
    intro caught
    have same := congrArg World.watches (setWatch_self here)
    exact ⟨[], w, watch, .nil, rfl, same.symm, caught⟩
  obtain ⟨a, ahead, phase⟩ := watch
  cases phase with
  | reading => exact skips_refused a ahead w here
  | ingested event accepted =>
    cases policy : authorized setup.py (setup.adapters a) event with
    | true =>
      apply staying
      exact ⟨by rw [Watch.without, Phase.without, if_pos policy], by simp⟩
    | false =>
      have inside : i < w.watches.length := (List.getElem?_eq_some_iff.mp here).1
      have taken : Step setup w (.acknowledge i) _ := .acknowledges here rfl
      have hidden : (World.setWatch { w with acked := w.acked ++ [(a, event)] } i
          ⟨a, ahead, if accepted then .toDrain else .reading⟩).without setup = w.without setup := by
        apply without_change here
        · cases accepted <;> simp [Watch.without, Phase.without, policy]
        · simpa using policy
      cases accepted with
      | true => exact ⟨_, _, ⟨a, ahead, .toDrain⟩, .cons taken .nil, hidden, rfl, rfl, by simp⟩
      | false =>
        obtain ⟨labels, v, next, ran, same, watches, caught⟩ :=
          skips_refused a ahead (World.setWatch { w with acked := w.acked ++ [(a, event)] } i ⟨a, ahead, .reading⟩)
            (List.getElem?_set_self inside)
        refine ⟨_, v, next, .cons taken ran, same.trans hidden, ?_, caught⟩
        rw [watches]
        simp [World.setWatch]
  | _ => exact staying ⟨rfl, by simp⟩

private theorem same_process {v w : World} (hidden : v.without setup = w.without setup) : v.process = w.process := by
  have same := congrArg World.process hidden
  exact same

private theorem caught_at {w : World} {i : Nat} {watch : Watch} (here : (w.without setup).watches[i]? = some watch) :
    ∃ labels v next, Run (Step setup) w labels v ∧ v.without setup = w.without setup ∧
      v.watches[i]? = some next ∧ watch = next.without setup ∧ next.Caught setup := by
  have mapped : (w.watches[i]?).map (Watch.without setup) = some watch := by
    rw [← List.getElem?_map]
    exact here
  obtain ⟨whole, held, rfl⟩ := Option.map_eq_some_iff.mp mapped
  obtain ⟨labels, v, next, ran, hidden, watches, caught⟩ := catches_up setup held
  have inside : i < w.watches.length := (List.getElem?_eq_some_iff.mp held).1
  have there : v.watches[i]? = some next := by rw [watches, List.getElem?_set_self inside]
  refine ⟨labels, v, next, ran, hidden, there, ?_, caught⟩
  have seen : (v.without setup).watches[i]? = some (next.without setup) := without_here there
  rw [hidden, without_here held] at seen
  exact Option.some.inj seen

private theorem caught_ahead {watch : Watch} (caught : watch.Caught setup) (reading : watch.phase = .reading)
    (next : (watch.without setup).ahead = raw :: rest) :
    ∃ all, watch.ahead = raw :: all ∧ rest = all.filter (kept setup watch.adapter) := by
  have first := caught.2 reading
  rw [Watch.without] at next
  cases ahead : watch.ahead with
  | nil =>
    rw [ahead] at next
    cases next
  | cons other all =>
    rw [ahead] at first
    have keeps : kept setup watch.adapter other = true := first other rfl
    rw [ahead, List.filter_cons_of_pos keeps] at next
    cases next
    exact ⟨all, rfl, rfl⟩

/-- A step of the world without the refused frames is one of the whole world,
once the watch that takes it has read the refused frames before. -/
theorem step_with (w : World) (label : Label) (u : World) (taken : Step setup (w.without setup) label u) :
    ∃ labels v, Run (Step setup) w (labels ++ [label]) v ∧ v.without setup = u := by
  cases taken with
  | @frame i watch raw rest event fault process accepted here reading next checked taken returned =>
    obtain ⟨labels, v, whole, ran, hidden, there, rfl, caught⟩ := caught_at here
    have same := same_process hidden
    have phase : whole.phase = .reading := caught.1 ▸ reading
    obtain ⟨all, ahead, rfl⟩ := caught_ahead caught phase next
    have policy : authorized setup.py (setup.adapters whole.adapter) event = true :=
      (kept_of_checked checked).symm.trans (caught.2 phase raw (by rw [ahead]; rfl))
    refine ⟨labels, _, ran.snoc (.frame there phase ahead checked (same ▸ taken) (same ▸ returned)), ?_⟩
    rw [without_setWatch, ingested_without policy]
    exact congrArg (fun rest : World => World.setWatch { rest with process } i _) hidden
  | @ingestRaises i watch raw rest event fault process e here reading next checked taken raised =>
    obtain ⟨labels, v, whole, ran, hidden, there, rfl, caught⟩ := caught_at here
    have same := same_process hidden
    have phase : whole.phase = .reading := caught.1 ▸ reading
    obtain ⟨all, ahead, rfl⟩ := caught_ahead caught phase next
    refine ⟨labels, _, ran.snoc (.ingestRaises there phase ahead checked (same ▸ taken) (same ▸ raised)), ?_⟩
    rw [without_setWatch, over_without]
    exact congrArg (fun rest : World => World.setWatch { rest with process } i _) hidden
  | @frameRefused i watch raw rest e fault here reading next refused =>
    obtain ⟨labels, v, whole, ran, hidden, there, rfl, caught⟩ := caught_at here
    have phase : whole.phase = .reading := caught.1 ▸ reading
    obtain ⟨all, ahead, rfl⟩ := caught_ahead caught phase next
    refine ⟨labels, _, ran.snoc (.frameRefused there phase ahead refused), ?_⟩
    rw [without_setWatch, over_without, hidden]
  | @acknowledges i watch event accepted here ingested =>
    obtain ⟨labels, v, whole, ran, hidden, there, rfl, caught⟩ := caught_at here
    have phase : whole.phase = .ingested event accepted := caught.1 ▸ ingested
    have policy : authorized setup.py (setup.adapters whole.adapter) event = true := by
      by_contra refused
      have moved := caught.1
      rw [Watch.without, phase, Phase.without, if_neg refused] at moved
      cases accepted <;> cases moved
    refine ⟨labels, _, ran.snoc (.acknowledges there phase), ?_⟩
    rw [without_setWatch, acked_without policy, acknowledged_without, hidden]
    rfl
  | @drains i watch d fault process here due fresh taken =>
    obtain ⟨labels, v, whole, ran, hidden, there, rfl, caught⟩ := caught_at here
    have same := same_process hidden
    have phase : whole.phase = .toDrain := caught.1 ▸ due
    refine ⟨labels, _, ran.snoc (.drains there phase (same ▸ fresh) (same ▸ taken)), ?_⟩
    rw [without_setWatch, drained_without]
    exact congrArg (fun rest : World => World.setWatch { rest with process } i _) hidden
  | @breaks i watch here =>
    obtain ⟨labels, v, whole, ran, hidden, there, rfl, caught⟩ := caught_at here
    refine ⟨labels, _, ran.snoc (.breaks there), ?_⟩
    rw [without_setWatch, hidden]
    rfl
  | @process action process other taken => exact ⟨[], _, .cons (.process other taken) .nil, without_settled ..⟩

private theorem without_erases (setup : Setup) : Erases (Step setup) (World.without setup) := ⟨step_without, step_with⟩

/-! ## Finished runs -/

private theorem catches_up_all (setup : Setup) (w : World) (n : Nat) (within : n ≤ w.watches.length) :
    ∃ labels v, Run (Step setup) w labels v ∧ v.without setup = w.without setup ∧
      v.watches.length = w.watches.length ∧
      ∀ i < n, ∀ watch, v.watches[i]? = some watch → watch.Caught setup := by
  induction n with
  | zero => exact ⟨[], w, .nil, rfl, rfl, by simp⟩
  | succ n ih =>
    obtain ⟨labels, v, ran, hidden, size, before⟩ := ih (Nat.le_of_succ_le within)
    have inside : n < v.watches.length := by omega
    obtain ⟨more, u, next, ran', hidden', watches, caught⟩ :=
      catches_up setup (List.getElem?_eq_getElem inside)
    refine ⟨labels ++ more, u, ran.append ran', hidden'.trans hidden, by rw [watches, List.length_set, size], ?_⟩
    intro i below watch here
    rw [watches] at here
    rcases Nat.lt_succ_iff_lt_or_eq.mp below with earlier | rfl
    · rw [List.getElem?_set_ne (Nat.ne_of_gt earlier)] at here
      exact before i earlier watch here
    · rw [List.getElem?_set_self inside] at here
      cases here
      exact caught

private theorem finished_without {w : World} (finished : w.Finished) : (w.without setup).Finished := by
  intro watch held
  obtain ⟨whole, inside, rfl⟩ := List.mem_map.mp held
  rcases finished whole inside with ended | ⟨reading, done⟩
  · left
    rw [Watch.without, ended]
    rfl
  · right
    exact ⟨reading_without reading, by rw [Watch.without, done]; rfl⟩

private theorem finished_of_caught {v : World} (finished : (v.without setup).Finished)
    (caught : ∀ watch ∈ v.watches, watch.Caught setup) : v.Finished := by
  intro watch held
  obtain ⟨phase, first⟩ := caught watch held
  rcases finished _ (List.mem_map_of_mem held) with ended | ⟨reading, done⟩
  · exact .inl (phase ▸ ended)
  · right
    rw [phase] at reading
    refine ⟨reading, ?_⟩
    cases ahead : watch.ahead with
    | nil => rfl
    | cons raw rest =>
      have keeps : kept setup watch.adapter raw = true := first reading raw (by rw [ahead]; rfl)
      rw [Watch.without, ahead, List.filter_cons_of_pos keeps] at done
      cases done

private theorem finishes {w : World} (finished : (w.without setup).Finished) :
    ∃ labels v, Run (Step setup) w labels v ∧ v.without setup = w.without setup ∧ v.Finished := by
  obtain ⟨labels, v, ran, hidden, size, caught⟩ := catches_up_all setup w w.watches.length (Nat.le_refl _)
  refine ⟨labels, v, ran, hidden, finished_of_caught (hidden ▸ finished) fun watch held => ?_⟩
  obtain ⟨i, inside, rfl⟩ := List.mem_iff_getElem.mp held
  exact caught i (size ▸ inside) _ (List.getElem?_eq_getElem inside)

/-! ## What is handed off -/

/-- The policy authorizes the sender, and the account is the adapter's. -/
def Permitted (setup : Setup) (handed : Nat × HeyEvent) : Prop :=
  authorized setup.py (setup.adapters handed.1) handed.2 = true ∧
    handed.2.accountId = (setup.adapters handed.1).accountId

private theorem handed_permitted (taken : Dispatch.Step setup s action next) :
    ∀ handed ∈ handedBy next action, Permitted setup handed := by
  cases taken with
  | @handOff d drain event rest fault claims running walking ahead turned =>
    have permitted : Permitted setup (drain.adapter, event) := by
      unfold Dispatch.turn at turned
      dsimp only at turned
      split at turned
      · cases turned
      · rename_i account
        split at turned
        · split at turned <;> cases turned
        · rename_i policy
          exact ⟨not_not.mp policy, not_not.mp account⟩
    simpa [handedBy] using permitted
  | drainEnds => simp [handedBy]
  | drainRaises => simp [handedBy]
  | drainPasses running walking => simp [handedBy, walking]
  | _ => simp [handedBy]

private theorem step_permitted (w : World) (label : Label) (v : World)
    (permitted : ∀ handed ∈ w.handed, Permitted setup handed) (taken : Step setup w label v) :
    ∀ handed ∈ v.handed, Permitted setup handed := by
  cases taken with
  | process _ taken => exact List.forall_mem_append.mpr ⟨permitted, handed_permitted taken⟩
  | _ => exact permitted

/-! ## The two runs -/

/-- Two worlds that differ in acknowledgements of refused events only. -/
structure Alike (setup : Setup) (whole rest : World) : Prop where
  /-- The queue's file, byte for byte, and everything else in the process. -/
  process : rest.process = whole.process
  handed : rest.handed = whole.handed
  called : rest.called = whole.called
  acked : rest.acked = whole.acked.filter fun acked => authorized setup.py (setup.adapters acked.1) acked.2

private theorem start_without (setup : Setup) (process : Dispatch.State) (streams : List (Nat × List Members)) :
    (World.start process streams).without setup = .start process (streams.map (deleteRefused setup)) := by
  simp [World.start, World.without, Watch.without, Phase.without, deleteRefused, Function.comp_def]

/-- Deleting the frames of refused senders from the streams changes nothing but
acknowledgements: every run has one without them, of the same steps but for the
reading of these frames, and every run without them has one with them. And only an
event of the adapter's account whose sender its policy authorizes is handed off,
whatever the file holds. -/
theorem refused_do_not_interfere (setup : Setup) (process : Dispatch.State) (streams : List (Nat × List Members)) :
    (∀ labels whole, Run (Step setup) (.start process streams) labels whole → whole.Finished →
      ∃ labels' rest, labels'.Sublist labels ∧
        Run (Step setup) (.start process (streams.map (deleteRefused setup))) labels' rest ∧ rest.Finished ∧
        Alike setup whole rest) ∧
    (∀ labels' rest, Run (Step setup) (.start process (streams.map (deleteRefused setup))) labels' rest →
      rest.Finished →
      ∃ labels whole, labels'.Sublist labels ∧ Run (Step setup) (.start process streams) labels whole ∧
        whole.Finished ∧ Alike setup whole rest) ∧
    ∀ labels w, Run (Step setup) (.start process streams) labels w →
      ∀ handed ∈ w.handed, Permitted setup handed := by
  refine ⟨?_, ?_, ?_⟩
  · intro labels whole ran finished
    obtain ⟨labels', fewer, ran'⟩ := (without_erases setup).forward_run ran
    rw [start_without] at ran'
    exact ⟨labels', _, fewer, ran', finished_without finished, rfl, rfl, rfl, rfl⟩
  · intro labels' rest ran finished
    rw [← start_without] at ran
    obtain ⟨labels, whole, fewer, ran', rfl⟩ := (without_erases setup).backward_run ran
    obtain ⟨more, last, ran'', hidden, done⟩ := finishes finished
    refine ⟨labels ++ more, last, fewer.trans (List.sublist_append_left _ _), ran'.append ran'', done, ?_⟩
    rw [← hidden]
    exact ⟨rfl, rfl, rfl, rfl⟩
  · intro labels w ran
    exact ran.invariant step_permitted (by simp [World.start])

end

/-- A message that the account sent itself. -/
def ownMessage : HeyEvent := { greeting 3 3 with senderEmail := text "me@hey.com" }

private theorem ownMessage_checked :
    checkWatchLine (Dispatch.openSetup.adapters 0) (WatchStream.frameOf ownMessage) = .ok ownMessage := by
  have valid : (greeting 3 3).Valid := greeting_valid (by decide) (by decide) (by decide) (by decide)
  have valid' : ownMessage.Valid := { valid with }
  exact WatchStream.checkWatchLine_eq_ok.mpr (WatchStream.eventFrame_frameOf valid' rfl)

private theorem ownMessage_refused :
    authorized Dispatch.openSetup.py (Dispatch.openSetup.adapters 0) ownMessage = false := rfl

private theorem ownMessage_ingested (file : File) : ingest Dispatch.openSetup.limits ownMessage
    (authorized Dispatch.openSetup.py (Dispatch.openSetup.adapters 0)) .none file = .untouched (.ok false) file := by
  simp [ingest, ownMessage_refused]

/-- A watch drains a pending greeting, then reads and acknowledges a message of the own address. Without
that message the greeting is handed off all the same. -/
theorem refused_do_not_interfere_sample : ∃ file labels whole labels' rest,
    (Run (Step Dispatch.openSetup) (.start (Dispatch.idle file) [(0, [WatchStream.frameOf ownMessage])]) labels whole ∧
      whole.Finished ∧ whole.handed = [(0, greeting 1 1)] ∧ whole.acked = [(0, ownMessage)]) ∧
    Run (Step Dispatch.openSetup) (.start (Dispatch.idle file) [(0, [])]) labels' rest ∧
      rest.Finished ∧ rest.handed = [(0, greeting 1 1)] ∧ rest.process = whole.process ∧ rest.acked = [] := by
  obtain ⟨file, listed⟩ := Dispatch.exists_greetings [greeting 1 1]
    (by simp [greeting_valid]) (by simp) (by decide) (by decide +kernel)
  have ran : ∃ whole, Run (Step Dispatch.openSetup)
      (.start (Dispatch.idle file) [(0, [WatchStream.frameOf ownMessage])])
      [.drain 0 0 .none, .process (.drainTurn 0 .none), .process (.register 0 0), .process (.handleReturns 0),
        .process (.drainTurn 0 .none), .frame 0 .none, .acknowledge 0] whole ∧
      whole.Finished ∧ whole.handed = [(0, greeting 1 1)] ∧ whole.acked = [(0, ownMessage)] := by
    refine ⟨_, .cons (.drains rfl rfl rfl (.drainStarts rfl (listed .none (by simp))))
      (.cons (.process (by simp) (.handOff rfl rfl rfl (Dispatch.greeting_handed rfl rfl)))
      (.cons (.process (by simp) (.registers rfl rfl rfl))
      (.cons (.process (by simp) (.handleReturns rfl rfl))
      (.cons (.process (by simp) (.drainEnds rfl rfl rfl))
      (.cons (.frame rfl rfl rfl ownMessage_checked (.ingests rfl (ownMessage_ingested file))
        (refused_ingest ownMessage_refused .none).1)
      (.cons (.acknowledges rfl rfl) .nil)))))), ?_, rfl, rfl⟩
    exact List.forall_mem_singleton.mpr (.inr ⟨rfl, rfl⟩)
  obtain ⟨whole, ran, finished, handed, acked⟩ := ran
  obtain ⟨forward, _, _⟩ := refused_do_not_interfere Dispatch.openSetup (Dispatch.idle file)
    [(0, [WatchStream.frameOf ownMessage])]
  obtain ⟨labels', rest, _, ran', finished', alike⟩ := forward _ whole ran finished
  refine ⟨file, _, whole, labels', rest, ⟨ran, finished, handed, acked⟩, ?_, finished', alike.handed.trans handed,
    alike.process, ?_⟩
  · have deleted : [(0, [WatchStream.frameOf ownMessage])].map (deleteRefused Dispatch.openSetup) = [(0, [])] := by
      have drops : kept Dispatch.openSetup 0 (WatchStream.frameOf ownMessage) = false :=
        (kept_of_checked ownMessage_checked).trans ownMessage_refused
      simp [deleteRefused, drops]
    rwa [deleted] at ran'
  · rw [alike.acked, acked]
    rfl

end HermesHey.Interference
