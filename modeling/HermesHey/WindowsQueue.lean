import HermesHey.Library.JsonWidth
import HermesHey.WindowsState

/-! The queue's operations on Windows: they close every handle they open, and do to the state what the
queue's operations do under some fault, unless the state is deleted after a flush that failed. -/
namespace HermesHey.WindowsState
open Library HermesHey.Core DurableQueue
open Posix (Bytes fileOf Possible Ended)

/-! ## Handles -/

section
variable {held : List Handle}

private theorem require_keeps (done : Bool) : handles.Keeps held (require done) := by
  cases done
  · exact Handles.moves_fail rfl
  · exact Handles.moves_pure rfl

private theorem setPrivate_keeps (inside : handle ∈ held) : handles.Keeps held (setPrivate handle) :=
  Handles.moves_use (List.forall_mem_singleton.mpr inside) (fun _ => rfl) rfl require_keeps

private theorem assertPrivate_keeps (inside : handle ∈ held) (directory : Bool) :
    handles.Keeps held (assertPrivate handle directory) :=
  Handles.moves_use (List.forall_mem_singleton.mpr inside) (fun _ => rfl) rfl require_keeps

private theorem assertFinalPath_keeps (inside : handle ∈ held) (place : Place) :
    handles.Keeps held (assertFinalPath handle place) :=
  Handles.moves_use (List.forall_mem_singleton.mpr inside) (fun _ => rfl) rfl require_keeps

private theorem flush_keeps (inside : handle ∈ held) : handles.Keeps held (flush handle) :=
  Handles.moves_use (List.forall_mem_singleton.mpr inside) (fun _ => rfl) rfl require_keeps

private theorem close_bind {rest : Unit → Windows α} {after : Except PyError α → List Handle} (new : handle ∉ held)
    (later : handles.Moves held after (rest ())) (failed : ∀ e, held = after (.error e)) :
    handles.Moves (handle :: held) after (close handle >>= rest) := by
  refine Handles.moves_close new (by simp [handles]) (fun _ => rfl) rfl fun done => ?_
  cases done
  · exact Handles.moves_fail (failed _)
  · exact later

private theorem doUnless_keeps (done : Bool) {body : Windows Unit} (keeps : handles.Keeps held body) :
    handles.Keeps held (doUnless done body) := by
  cases done
  · exact keeps
  · exact Handles.moves_pure rfl

private theorem openParent_moves (existed : Bool) :
    handles.Moves [] (fun outcome => outcome.toOption.toList) (openParent existed) := by
  refine Handles.moves_open (by simp [handles]) rfl ?_ ?_
  · intro answer refused
    cases answer with
    | none => exact Handles.moves_fail rfl
    | some handle => cases refused
  · intro answer handle opened new
    cases opened
    have checked : handles.Keeps [handle] (checkParent existed handle) :=
      (doUnless_keeps existed (setPrivate_keeps (List.mem_singleton_self _))).bind fun _ =>
        (assertPrivate_keeps (List.mem_singleton_self _) true).bind fun _ =>
          assertFinalPath_keeps (List.mem_singleton_self _) .parent
    refine checked.bind_attempt fun outcome => ?_
    cases outcome with
    | error e => exact close_bind new (Handles.moves_fail rfl) fun _ => rfl
    | ok _ => exact Handles.moves_pure rfl

private theorem enter_moves (create : Bool) :
    handles.Moves [] (fun outcome => (outcome.toOption.bind id).toList) (enter create) := by
  refine Handles.moves_use (by simp [handles]) (fun _ => rfl) rfl fun answer => ?_
  cases answer with
  | none => exact Handles.moves_fail rfl
  | some existed =>
    dsimp only
    split
    · exact Handles.moves_pure rfl
    · have made : handles.Keeps [] makeParent :=
        Handles.moves_use (by simp [handles]) (fun _ => rfl) rfl require_keeps
      exact Handles.Moves.bind (doUnless_keeps existed made) (fun _ =>
        (openParent_moves existed).bind (fun _ => Handles.moves_pure rfl) fun _ => rfl) fun _ => rfl

private theorem transaction_keeps (create : Bool) {body : Option Handle → Windows α}
    (keeps : ∀ parent, handles.Keeps parent.toList (body parent)) : handles.Keeps [] (transaction create body) := by
  refine (enter_moves create).bind (fun parent => ?_) fun _ => rfl
  refine (keeps parent).bind_attempt fun outcome => ?_
  cases parent with
  | none => exact Handles.keeps_lift outcome
  | some handle => exact close_bind (List.not_mem_nil) (Handles.keeps_lift outcome) fun _ => rfl

private theorem readAll_keeps (inside : handle ∈ held) (remaining : ℕ) (chunks : Bytes) :
    handles.Keeps held (readAll handle remaining chunks) := by
  fun_induction readAll handle remaining chunks with
  | case1 => exact Handles.moves_pure rfl
  | case2 remaining chunks left ih =>
    refine Handles.moves_use (List.forall_mem_singleton.mpr inside) (fun _ => rfl) rfl fun answer => ?_
    cases answer with
    | none => exact Handles.moves_fail rfl
    | some chunk =>
      dsimp only
      split
      · exact Handles.moves_pure rfl
      · exact ih chunk ‹_›

private theorem writeThrough_keeps (inside : handle ∈ held) (remaining : Bytes) :
    handles.Keeps held (writeThrough handle remaining) := by
  fun_induction writeThrough handle remaining with
  | case1 => exact flush_keeps inside
  | case2 remaining left ih =>
    refine Handles.moves_use (List.forall_mem_singleton.mpr inside) (fun _ => rfl) rfl fun answer => ?_
    cases answer with
    | none => exact Handles.moves_fail rfl
    | some written =>
      dsimp only
      split
      · exact Handles.moves_fail rfl
      · exact ih written ‹_›

private theorem readState_keeps (parent : Option Handle) (limit : ℕ) :
    handles.Keeps parent.toList (readState parent limit) := by
  cases parent with
  | none => exact Handles.moves_pure rfl
  | some parent =>
    refine Handles.moves_open (by simp [handles]) rfl ?_ ?_
    · intro answer refused
      rcases answer with _ | _ | handle
      · exact Handles.moves_fail rfl
      · exact Handles.moves_pure rfl
      · cases refused
    · rintro (_ | _ | handle) _ opened new
      · cases opened
      · cases opened
      · cases opened
        have checked : handles.Keeps [handle, parent] (readChecked handle limit) :=
          (assertPrivate_keeps List.mem_cons_self false).bind fun _ =>
            (assertFinalPath_keeps List.mem_cons_self .state).bind fun _ => readAll_keeps List.mem_cons_self limit []
        exact checked.bind_attempt fun outcome => close_bind new (Handles.keeps_lift _) fun _ => rfl

private theorem replaceState_keeps (parent : Option Handle) (encoded : Bytes) :
    handles.Keeps parent.toList (replaceState parent encoded) := by
  cases parent with
  | none => exact Handles.moves_fail rfl
  | some parent =>
    refine Handles.moves_open (by simp [handles]) rfl ?_ ?_
    · intro answer refused
      cases answer with
      | none => exact Handles.moves_fail rfl
      | some handle => cases refused
    · intro answer handle opened new
      cases opened
      have first : handle ∈ [handle, parent] := List.mem_cons_self
      have renamed : handles.Keeps [handle, parent] (renameByHandle handle parent) :=
        Handles.moves_use (by simp [handles]) (fun _ => rfl) rfl fun done =>
          (require_keeps done).bind fun _ => flush_keeps first
      have staged : handles.Keeps [handle, parent] (stage handle parent encoded) :=
        (setPrivate_keeps first).bind fun _ => (assertPrivate_keeps first false).bind fun _ =>
          (assertFinalPath_keeps first .temporary).bind fun _ => (writeThrough_keeps first encoded).bind fun _ => renamed
      have confirmed : handles.Keeps [handle, parent] (confirm handle) :=
        (assertFinalPath_keeps first .state).bind fun _ => assertPrivate_keeps first false
      refine staged.bind_attempt fun outcome => ?_
      cases outcome with
      | error e =>
        exact Handles.moves_use (List.forall_mem_singleton.mpr first) (fun _ => rfl) rfl fun _ =>
          close_bind new (Handles.moves_fail rfl) fun _ => rfl
      | ok _ => exact confirmed.bind_attempt fun outcome => close_bind new (Handles.keeps_lift outcome) fun _ => rfl

private theorem loadOpen_keeps (limits : Limits) (parent : Option Handle) :
    handles.Keeps parent.toList (loadOpen limits parent) :=
  (readState_keeps parent _).bind fun _ => Handles.keeps_lift _

private theorem saveOpen_keeps (limits : Limits) (parent : Option Handle) (seen : List Text)
    (pending : List Json.Members) :
    handles.Keeps parent.toList (saveOpen limits parent seen pending) :=
  (Handles.keeps_lift _).bind fun _ => replaceState_keeps parent _

end

/-! ## Calls that leave the disk alone -/

section
variable {start : Disk} {history later : History}

@[simp] private theorem since_snoc (event : Sigma Answer) :
    start.since (history ++ [event]) = (start.since history).after event := by
  simp [Disk.since]

private theorem renamed_other {answer : Answer request} (other : ∀ handle parent, request ≠ .rename handle parent) :
    Renamed (history ++ [⟨request, answer⟩]) ↔ Renamed history := by
  have differs : ∀ handle parent, (⟨.rename handle parent, true⟩ : Sigma Answer) ≠ ⟨request, answer⟩ :=
    fun handle parent same => other handle parent (congrArg Sigma.fst same).symm
  simp [Renamed, differs]

private theorem deleted_other {answer : Answer request} (other : ∀ handle, request ≠ .delete handle) :
    Deleted (history ++ [⟨request, answer⟩]) ↔ Deleted history := by
  have differs : ∀ handle, (⟨.delete handle, true⟩ : Sigma Answer) ≠ ⟨request, answer⟩ :=
    fun handle same => other handle (congrArg Sigma.fst same).symm
  simp [Deleted, differs]

private theorem lost_other {answer : Answer request}
    (other : ∀ handle, (⟨.delete handle, true⟩ : Sigma Answer) ≠ ⟨request, answer⟩) :
    Lost (history ++ [⟨request, answer⟩]) ↔ Lost history := by
  refine exists₂_congr fun handle parent => ?_
  rw [List.infix_concat_iff]
  refine or_iff_right fun last => ?_
  have same := last.getLast (by simp)
  rw [List.getLast_concat] at same
  exact other handle same

private theorem not_lost (unrenamed : ¬ Renamed history) : ¬ Lost history := by
  rintro ⟨handle, parent, calls⟩
  exact unrenamed ⟨handle, parent, calls.subset List.mem_cons_self⟩

private theorem Lost.deleted (lost : Lost history) : Deleted history := by
  obtain ⟨handle, parent, calls⟩ := lost
  exact ⟨handle, calls.subset (by simp)⟩

/-- The disk is as it was, but for the position in the state. -/
private structure Stays (start : Disk) (history later : History) : Prop where
  state : (start.since later).state = (start.since history).state
  staged : (start.since later).staged = (start.since history).staged
  leftover : (start.since later).leftover = (start.since history).leftover
  renamed : Renamed later ↔ Renamed history
  deleted : Deleted later ↔ Deleted history
  lost : Lost later ↔ Lost history
  refused : Refused history → Refused later

private theorem Stays.refl (start : Disk) (history : History) : Stays start history history :=
  ⟨rfl, rfl, rfl, Iff.rfl, Iff.rfl, Iff.rfl, id⟩

private theorem Stays.trans (first : Stays start history middle) (second : Stays start middle later) :
    Stays start history later :=
  ⟨second.state.trans first.state, second.staged.trans first.staged, second.leftover.trans first.leftover,
    second.renamed.trans first.renamed, second.deleted.trans first.deleted, second.lost.trans first.lost,
    second.refused ∘ first.refused⟩

/-- Calls that do nothing to the disk while no file is being written. -/
private def Quiet : Call → Prop
  | .createTemporary | .writeFile _ _ | .rename _ _ | .delete _ => False
  | _ => True

/-- Calls that do nothing to the disk. -/
private def Still : Call → Prop
  | .close _ => False
  | request => Quiet request

private theorem still_quiet (request : Call) (still : Still request) : Quiet request := by
  cases request with
  | close handle => exact still.elim
  | _ => exact still

private theorem quiet_after (disk : Disk) (idle : disk.staged = none) (quiet : Quiet event.1) :
    (disk.after event).state = disk.state ∧ (disk.after event).staged = disk.staged ∧
      (disk.after event).leftover = disk.leftover := by
  obtain ⟨request, answer⟩ := event
  cases request with
  | close handle =>
    have same : disk.after ⟨.close handle, answer⟩ = disk := by simp [Disk.after, Disk.closed, idle]
    rw [same]
    exact ⟨rfl, rfl, rfl⟩
  | openState => rcases answer with _ | _ | _ <;> exact ⟨rfl, rfl, rfl⟩
  | readFile handle length => cases answer <;> exact ⟨rfl, rfl, rfl⟩
  | createTemporary => exact quiet.elim
  | writeFile handle chunk => exact quiet.elim
  | rename handle parent => exact quiet.elim
  | delete handle => exact quiet.elim
  | _ => exact ⟨rfl, rfl, rfl⟩

private theorem still_after (disk : Disk) (still : Still event.1) :
    (disk.after event).state = disk.state ∧ (disk.after event).staged = disk.staged ∧
      (disk.after event).leftover = disk.leftover := by
  obtain ⟨request, answer⟩ := event
  cases request with
  | openState => rcases answer with _ | _ | _ <;> exact ⟨rfl, rfl, rfl⟩
  | readFile handle length => cases answer <;> exact ⟨rfl, rfl, rfl⟩
  | createTemporary => exact still.elim
  | writeFile handle chunk => exact still.elim
  | rename handle parent => exact still.elim
  | delete handle => exact still.elim
  | close handle => exact still.elim
  | _ => exact ⟨rfl, rfl, rfl⟩

private theorem quiet_stays (quiet : Quiet event.1)
    (same : ((start.since history).after event).state = (start.since history).state ∧
      ((start.since history).after event).staged = (start.since history).staged ∧
        ((start.since history).after event).leftover = (start.since history).leftover) :
    Stays start history (history ++ [event]) := by
  obtain ⟨request, answer⟩ := event
  refine ⟨?_, ?_, ?_, renamed_other ?_, deleted_other ?_, lost_other ?_, ?_⟩
  · rw [since_snoc, same.1]
  · rw [since_snoc, same.2.1]
  · rw [since_snoc, same.2.2]
  · rintro handle parent rfl
    exact quiet
  · rintro handle rfl
    exact quiet
  · rintro handle same
    cases same
    exact quiet
  · rintro ⟨handle, held⟩
    exact ⟨handle, List.mem_append_left _ held⟩

private theorem quiet_trace {trace : History} (idle : (start.since history).staged = none)
    (quiet : ∀ event ∈ trace, Quiet event.1) :
    Stays start history (history ++ trace) := by
  induction trace generalizing history with
  | nil => exact (List.append_nil history).symm ▸ Stays.refl start history
  | cons event trace ih =>
    obtain ⟨first, others⟩ := List.forall_mem_cons.mp quiet
    have stays := quiet_stays first (quiet_after _ idle first)
    rw [List.append_cons]
    exact stays.trans (ih (stays.staged.trans idle) others)

private theorem still_trace {trace : History} (still : ∀ event ∈ trace, Still event.1) :
    Stays start history (history ++ trace) := by
  induction trace generalizing history with
  | nil => exact (List.append_nil history).symm ▸ Stays.refl start history
  | cons event trace ih =>
    obtain ⟨first, others⟩ := List.forall_mem_cons.mp still
    rw [List.append_cons]
    exact (quiet_stays (still_quiet _ first) (still_after _ first)).trans (ih others)

private theorem quiet_meets {program : Windows α} (idle : (start.since history).staged = none)
    (within : Program.Within Quiet program) :
    Program.Meets (diskContract start) (fun _ later => Stays start history later) history program := by
  refine (within.meets fun _ _ _ => trivial).mono ?_
  rintro _ _ ⟨trace, rfl, quiet⟩
  exact quiet_trace idle quiet

private theorem still_meets {program : Windows α} (within : Program.Within Still program) :
    Program.Meets (diskContract start) (fun _ later => Stays start history later) history program := by
  refine (within.meets fun _ _ _ => trivial).mono ?_
  rintro _ _ ⟨trace, rfl, still⟩
  exact still_trace still

/-! ## What the programs call -/

private theorem require_within {calls : Call → Prop} (done : Bool) : Program.Within calls (require done) := by
  cases done
  · exact Program.within_fail _
  · exact Program.within_pure _

private theorem doUnless_within {calls : Call → Prop} (done : Bool) {body : Windows Unit}
    (within : Program.Within calls body) :
    Program.Within calls (doUnless done body) := by
  cases done
  · exact within
  · exact Program.within_pure _

private theorem setPrivate_within (handle : Handle) : Program.Within Still (setPrivate handle) :=
  (Program.within_ask trivial).bind require_within

private theorem assertPrivate_within (handle : Handle) (directory : Bool) :
    Program.Within Still (assertPrivate handle directory) :=
  (Program.within_ask trivial).bind require_within

private theorem assertFinalPath_within (handle : Handle) (place : Place) :
    Program.Within Still (assertFinalPath handle place) :=
  (Program.within_ask trivial).bind require_within

private theorem flush_within (handle : Handle) : Program.Within Still (flush handle) :=
  (Program.within_ask trivial).bind require_within

private theorem confirm_within (handle : Handle) : Program.Within Still (confirm handle) :=
  (assertFinalPath_within handle .state).bind fun _ => assertPrivate_within handle false

private theorem close_within (handle : Handle) : Program.Within Quiet (close handle) :=
  (Program.within_ask trivial).bind require_within

private theorem openParent_within (existed : Bool) : Program.Within Quiet (openParent existed) := by
  refine (Program.within_ask trivial).bind fun answer => ?_
  cases answer with
  | none => exact Program.within_fail _
  | some handle =>
    have checked : Program.Within Still (checkParent existed handle) :=
      (doUnless_within existed (setPrivate_within handle)).bind fun _ =>
        (assertPrivate_within handle true).bind fun _ => assertFinalPath_within handle .parent
    refine (checked.mono still_quiet).attempt.bind fun outcome => ?_
    cases outcome with
    | error e => exact (close_within handle).bind fun _ => Program.within_fail e
    | ok _ => exact Program.within_pure _

private theorem readAll_within (handle : Handle) (remaining : ℕ) (chunks : Bytes) :
    Program.Within Still (readAll handle remaining chunks) := by
  fun_induction readAll handle remaining chunks with
  | case1 => exact Program.within_pure _
  | case2 remaining chunks left ih =>
    refine (Program.within_ask trivial).bind fun answer => ?_
    cases answer with
    | none => exact Program.within_fail _
    | some chunk =>
      dsimp only
      split
      · exact Program.within_pure _
      · exact ih chunk ‹_›

private theorem readState_within (parent : Option Handle) (limit : ℕ) :
    Program.Within Quiet (readState parent limit) := by
  cases parent with
  | none => exact Program.within_pure _
  | some parent =>
    refine (Program.within_ask trivial).bind fun answer => ?_
    rcases answer with _ | _ | handle
    · exact Program.within_fail _
    · exact Program.within_pure _
    · have checked : Program.Within Still (readChecked handle limit) :=
        (assertPrivate_within handle false).bind fun _ =>
          (assertFinalPath_within handle .state).bind fun _ => readAll_within handle limit []
      exact (checked.mono still_quiet).attempt.bind fun _ => (close_within handle).bind fun _ => Program.within_lift _

/-! ## The state that is read -/

private theorem enter_meets (create : Bool) (idle : start.staged = none) :
    Program.Meets (diskContract start) (fun outcome later => Stays start [] later ∧ (outcome = .ok none → start.state = none))
      [] (enter create) := by
  refine Program.meets_ask trivial fun answer allowed => ?_
  have first : Stays start [] [⟨.parentExists, answer⟩] := quiet_trace idle (List.forall_mem_singleton.mpr trivial)
  cases answer with
  | none => exact ⟨first, nofun⟩
  | some existed =>
    dsimp only
    split
    · rename_i missing
      obtain ⟨rfl, _⟩ := missing
      exact ⟨first, fun _ => allowed rfl⟩
    · have made : Program.Within Quiet makeParent := (Program.within_ask trivial).bind require_within
      refine (quiet_meets (first.staged.trans idle) (doUnless_within existed made)).bind ?_ fun _ later second =>
        ⟨first.trans second, nofun⟩
      intro _ middle second
      have here := first.trans second
      exact (quiet_meets (here.staged.trans idle) (openParent_within existed)).bind
        (fun _ _ third => ⟨here.trans third, nofun⟩) fun _ _ third => ⟨here.trans third, nofun⟩

private theorem readAll_meets (handle : Handle) (remaining : ℕ) (chunks : Bytes) (history : History)
    (sofar : chunks = (start.since history).content.take (start.since history).position) :
    Program.Meets (diskContract start) (fun outcome _ => ∀ bytes, outcome = .ok bytes →
      bytes = (start.since history).content.take ((start.since history).position + remaining)) history
      (readAll handle remaining chunks) := by
  fun_induction readAll handle remaining chunks generalizing history with
  | case1 => 
    rintro bytes ⟨⟩
    simpa using sofar
  | case2 remaining chunks left ih =>
    refine Program.meets_ask trivial fun answer allowed => ?_
    cases answer with
    | none => exact nofun
    | some chunk =>
      obtain ⟨short, ⟨rest, front⟩, ended⟩ := allowed chunk rfl
      dsimp only
      split
      · rename_i empty
        rintro bytes ⟨⟩
        rw [sofar, List.take_of_length_le (ended empty), List.take_of_length_le (by have := ended empty; omega)]
      · rename_i more
        have content : (start.since (history ++ [⟨.readFile handle (min remaining chunkBytes), some chunk⟩])).content =
            (start.since history).content := (congrArg Disk.content (since_snoc _)).trans rfl
        have position : (start.since (history ++ [⟨.readFile handle (min remaining chunkBytes), some chunk⟩])).position =
            (start.since history).position + chunk.length := (congrArg Disk.position (since_snoc _)).trans rfl
        refine (ih chunk more _ ?_).mono ?_
        · rw [content, position, List.take_add, ← sofar, ← front, List.take_left]
        · intro outcome _ read bytes returned
          have total : (start.since history).position + chunk.length + (remaining - chunk.length) =
              (start.since history).position + remaining := by omega
          rw [read bytes returned, content, position, total]

private theorem assertPrivate_since (handle : Handle) (directory : Bool) :
    Program.Meets (diskContract start) (fun _ later => start.since later = start.since history) history
      (assertPrivate handle directory) := by
  refine Program.meets_ask trivial fun done _ => ?_
  cases done <;> exact since_snoc _

private theorem assertFinalPath_since (handle : Handle) (place : Place) :
    Program.Meets (diskContract start) (fun _ later => start.since later = start.since history) history
      (assertFinalPath handle place) := by
  refine Program.meets_ask trivial fun done _ => ?_
  cases done <;> exact since_snoc _

private theorem readChecked_meets (handle : Handle) (limit : ℕ) (begun : (start.since history).position = 0) :
    Program.Meets (diskContract start) (fun outcome _ => ∀ bytes, outcome = .ok bytes →
      bytes = (start.since history).content.take limit) history (readChecked handle limit) := by
  refine (assertPrivate_since handle false).bind ?_ fun _ _ _ => nofun
  intro _ middle first
  refine (assertFinalPath_since handle .state).bind ?_ fun _ _ _ => nofun
  intro _ later second
  have same := second.trans first
  refine (readAll_meets handle limit [] later (by rw [same, begun]; rfl)).mono ?_
  intro outcome _ read bytes returned
  rw [read bytes returned, same, begun, Nat.zero_add]

private theorem readState_meets (parent : Option Handle) (limit : ℕ) (idle : (start.since history).staged = none)
    (absent : parent = none → (start.since history).state = none) :
    Program.Meets (diskContract start) (fun outcome later => Stays start history later ∧ ∀ read, outcome = .ok read →
      read = (start.since history).state.map fun file => file.data.toList.take limit) history (readState parent limit) := by
  have value : Program.Meets (diskContract start) (fun outcome _ => ∀ read, outcome = .ok read →
      read = (start.since history).state.map fun file => file.data.toList.take limit) history (readState parent limit) := by
    cases parent with
    | none =>
      rintro read ⟨⟩
      rw [absent rfl]
      rfl
    | some parent =>
      refine Program.meets_ask trivial fun answer allowed => ?_
      rcases answer with _ | _ | handle
      · exact nofun
      · rintro read ⟨⟩
        have missing : (start.since history).state = none := by simpa using allowed none rfl
        rw [missing]
        rfl
      · have opened : start.since (history ++ [⟨.openState, some (some handle)⟩]) =
            { start.since history with position := 0 } := (since_snoc _).trans rfl
        refine (readChecked_meets handle limit (congrArg Disk.position opened)).bind_attempt fun outcome later read => ?_
        have closed : Program.Within Quiet (close handle) := close_within handle
        refine (closed.meets fun _ _ _ => trivial).bind (fun _ _ _ => Program.meets_lift ?_) fun _ _ _ => nofun
        intro returned same
        obtain ⟨file, held⟩ : ∃ file, (start.since history).state = some file :=
          Option.isSome_iff_exists.mp (allowed (some handle) rfl).symm
        cases outcome with
        | error e => cases same
        | ok bytes =>
          cases same
          rw [read bytes rfl, opened]
          simp [Disk.content, held]
  refine (value.within (readState_within parent limit)).mono ?_
  rintro outcome later ⟨read, trace, rfl, quiet⟩
  exact ⟨quiet_trace idle quiet, read⟩

private theorem load_front (limits : Limits) (file : File) :
    load limits ((file.map fun file => file.data.toList.take (limits.maxStateBytes + 1)).map fileOf) = load limits file := by
  cases file with
  | none => rfl
  | some encoded =>
    by_cases large : limits.maxStateBytes < encoded.size
    · have still : limits.maxStateBytes < (fileOf (encoded.data.toList.take (limits.maxStateBytes + 1))).size := by
        simp only [fileOf, ByteArray.size, List.size_toArray, List.length_take, Array.length_toList]
        simp only [ByteArray.size] at large
        omega
      simp only [Option.map_some, load, if_pos large, if_pos still]
    · have whole : encoded.data.toList.take (limits.maxStateBytes + 1) = encoded.data.toList := by
        refine List.take_of_length_le ?_
        simp only [Array.length_toList]
        simp only [ByteArray.size] at large
        omega
      rw [Option.map_some, whole]
      rfl

private theorem loadOpen_meets (limits : Limits) (parent : Option Handle) (idle : (start.since history).staged = none)
    (absent : parent = none → (start.since history).state = none) :
    Program.Meets (diskContract start) (fun outcome later => Stays start history later ∧
      ∀ value, outcome = .ok value → load limits (start.since history).state = .ok value) history (loadOpen limits parent) := by
  refine (readState_meets parent (limits.maxStateBytes + 1) idle absent).bind ?_ fun _ _ ended => ⟨ended.1, nofun⟩
  rintro encoded later ⟨stays, read⟩
  refine Program.meets_lift ⟨stays, fun value loaded => ?_⟩
  rw [← loaded, read encoded rfl, load_front]

/-! ## The replacement -/

/-- How a replacement leaves the disk. -/
private inductive Left (start : Disk) (before : File) (encoded : Bytes) : Except PyError Unit → History → Prop where
  | kept (same : (start.since trace).state = before) (unrenamed : ¬ Renamed trace) : Left start before encoded (.error e) trace
  | placed (new : (start.since trace).state = some (fileOf encoded)) (undeleted : ¬ Deleted trace) :
      Left start before encoded outcome trace
  | lost (none : (start.since trace).state = none) (lost : Lost trace) : Left start before encoded (.error e) trace

/-- While the file is open. -/
private structure Open (start : Disk) (before : File) (encoded : Bytes) (handle : Handle) (bytes : Bytes) (placed : Bool)
    (history : History) : Prop where
  staged : (start.since history).staged = some ⟨handle, bytes, placed, false⟩
  undeleted : ¬ Deleted history
  unnamed : placed = false → (start.since history).state = before ∧ ¬ Renamed history
  named : placed = true → (start.since history).state = some (fileOf encoded) ∧ Renamed history
  tidy : (start.since history).leftover = start.leftover

private theorem Open.stays (opened : Open start before encoded handle bytes placed history)
    (stays : Stays start history later) :
    Open start before encoded handle bytes placed later where
  staged := stays.staged.trans opened.staged
  undeleted := stays.deleted.not.mpr opened.undeleted
  unnamed := by
    rw [stays.state, stays.renamed]
    exact opened.unnamed
  named := by
    rw [stays.state, stays.renamed]
    exact opened.named
  tidy := stays.leftover.trans opened.tidy

private theorem Open.wrote (opened : Open start before encoded handle bytes false history) (answer : Option ℕ) :
    Open start before encoded handle (bytes ++ (answer.map fun written => chunk.take written).getD []) false
      (history ++ [⟨.writeFile handle chunk, answer⟩]) where
  staged := by
    rw [since_snoc]
    cases answer with
    | none => exact opened.staged.trans (by rw [Option.map_none, Option.getD_none, List.append_nil])
    | some written => exact congrArg (Option.map _) opened.staged
  undeleted := (deleted_other (by simp)).not.mpr opened.undeleted
  unnamed := by
    intro unplaced
    obtain ⟨same, unrenamed⟩ := opened.unnamed unplaced
    refine ⟨?_, (renamed_other (by simp)).not.mpr unrenamed⟩
    rw [since_snoc]
    cases answer <;> exact same
  named := nofun
  tidy := by
    rw [since_snoc]
    cases answer <;> exact opened.tidy

private theorem writeThrough_meets (handle : Handle) (remaining : Bytes) (bytes : Bytes) (history : History)
    (opened : Open start before encoded handle bytes false history) :
    Program.Meets (diskContract start) (fun outcome later => ∃ written, Open start before encoded handle (bytes ++ written) false later ∧
      (outcome = .ok () → written = remaining)) history (writeThrough handle remaining) := by
  fun_induction writeThrough handle remaining generalizing bytes history with
  | case1 =>
    refine (still_meets (flush_within handle)).mono fun outcome later stays => ⟨[], ?_, fun _ => rfl⟩
    rw [List.append_nil]
    exact opened.stays stays
  | case2 remaining left ih =>
    refine Program.meets_ask trivial fun answer allowed => ?_
    cases answer with
    | none => exact ⟨[], opened.wrote none, nofun⟩
    | some written =>
      dsimp only
      split
      · exact ⟨_, opened.wrote (some written), nofun⟩
      · rename_i positive
        refine (ih written positive _ _ (opened.wrote (some written))).mono ?_
        rintro outcome later ⟨more, opened, complete⟩
        refine ⟨_, List.append_assoc .. ▸ opened, fun done => ?_⟩
        have short : written ≤ (remaining.take chunkBytes).length := allowed written rfl
        have front : written ≤ chunkBytes := short.trans (List.length_take_le _ _)
        rw [complete done, Option.map_some, Option.getD_some, List.take_take, min_eq_left front, List.take_append_drop]

private theorem Open.refused (opened : Open start before encoded handle bytes false history) :
    Open start before encoded handle bytes false (history ++ [⟨.rename handle parent, false⟩]) where
  staged := (congrArg Disk.staged (since_snoc _)).trans opened.staged
  undeleted := (deleted_other (by simp)).not.mpr opened.undeleted
  unnamed := by
    intro unplaced
    obtain ⟨same, unrenamed⟩ := opened.unnamed unplaced
    refine ⟨(congrArg Disk.state (since_snoc _)).trans same, ?_⟩
    rintro ⟨handle, parent, held⟩
    rcases List.mem_append.mp held with earlier | last
    · exact unrenamed ⟨handle, parent, earlier⟩
    · cases List.mem_singleton.mp last
  named := nofun
  tidy := (congrArg Disk.leftover (since_snoc _)).trans opened.tidy

private theorem Open.renamed (opened : Open start before encoded handle encoded false history) :
    Open start before encoded handle encoded true (history ++ [⟨.rename handle parent, true⟩]) where
  staged := (congrArg Disk.staged (since_snoc _)).trans (congrArg (Option.map _) opened.staged)
  undeleted := (deleted_other (by simp)).not.mpr opened.undeleted
  unnamed := nofun
  named _ := ⟨(congrArg Disk.state (since_snoc _)).trans (congrArg (Option.map _) opened.staged),
    handle, parent, List.mem_append_right _ (List.mem_singleton_self _)⟩
  tidy := (congrArg Disk.leftover (since_snoc _)).trans opened.tidy

private theorem stage_meets (handle parent : Handle) (encoded : Bytes)
    (opened : Open start before encoded handle [] false history) :
    Program.Meets (diskContract start) (fun outcome later => ∃ bytes placed,
      Open start before encoded handle bytes placed later ∧ (outcome = .ok () → placed = true) ∧
        (outcome ≠ .ok () → placed = true → [⟨.rename handle parent, true⟩, ⟨.flush handle, false⟩] <:+ later)) history
      (stage handle parent encoded) := by
  have still : ∀ {α β} {program : Windows α} {rest : α → Windows β} {post : Except PyError β → History → Prop} {history},
      Program.Within Still program → Open start before encoded handle [] false history →
      (∀ value later, Open start before encoded handle [] false later → Program.Meets (diskContract start) post later (rest value)) →
      (∀ e later, Open start before encoded handle [] false later → post (.error e) later) →
      Program.Meets (diskContract start) post history (program >>= rest) := by
    intro α β program rest post history within opened returns fails
    exact (still_meets within).bind (fun value later stays => returns value later (opened.stays stays))
      fun e later stays => fails e later (opened.stays stays)
  have failed : ∀ e later bytes, Open start before encoded handle bytes false later → ∃ bytes placed,
      Open start before encoded handle bytes placed later ∧ ((.error e : Except PyError Unit) = .ok () → placed = true) ∧
        ((.error e : Except PyError Unit) ≠ .ok () → placed = true →
          [⟨.rename handle parent, true⟩, ⟨.flush handle, false⟩] <:+ later) :=
    fun e later bytes opened => ⟨bytes, false, opened, nofun, fun _ => nofun⟩
  refine still (setPrivate_within handle) opened ?_ fun e later opened => failed e later [] opened
  intro _ history opened
  refine still (assertPrivate_within handle false) opened ?_ fun e later opened => failed e later [] opened
  intro _ history opened
  refine still (assertFinalPath_within handle .temporary) opened ?_ fun e later opened => failed e later [] opened
  intro _ history opened
  refine (writeThrough_meets handle encoded [] history opened).bind ?_ ?_
  · rintro _ history ⟨written, opened, complete⟩
    rw [List.nil_append, complete rfl] at opened
    refine Program.meets_ask trivial fun done _ => ?_
    cases done with
    | false => exact failed _ _ _ opened.refused
    | true =>
      refine Program.meets_ask trivial fun flushed _ => ?_
      have flushed_stays : Stays start (history ++ [⟨.rename handle parent, true⟩])
          (history ++ [⟨.rename handle parent, true⟩] ++ [⟨.flush handle, flushed⟩]) :=
        still_trace (List.forall_mem_singleton.mpr trivial)
      have placed := opened.renamed.stays flushed_stays
      cases flushed with
      | true => exact ⟨_, true, placed, fun _ => rfl, fun failed => absurd rfl failed⟩
      | false =>
        refine ⟨_, true, placed, nofun, fun _ _ => ?_⟩
        rw [List.append_assoc]
        exact List.suffix_append history _
  · rintro e later ⟨written, opened, _⟩
    exact failed e later _ opened

/-- Between replacements: the state is as it was, and no file is open or was renamed. -/
private structure Ready (start : Disk) (before : File) (history : History) : Prop where
  state : (start.since history).state = before
  idle : (start.since history).staged = none
  unrenamed : ¬ Renamed history
  undeleted : ¬ Deleted history
  tidy : (start.since history).leftover = start.leftover

private theorem Ready.stays (ready : Ready start before history) (stays : Stays start history later) :
    Ready start before later :=
  ⟨stays.state.trans ready.state, stays.staged.trans ready.idle, stays.renamed.not.mpr ready.unrenamed,
    stays.deleted.not.mpr ready.undeleted, stays.leftover.trans ready.tidy⟩

/-- A replacement has ended. A temporary file is left over only where its deletion was refused. -/
private structure Replaced (start : Disk) (before : File) (encoded : Bytes) (outcome : Except PyError Unit) (later : History) :
    Prop where
  idle : (start.since later).staged = none
  left : Left start before encoded outcome later
  tidy : (start.since later).leftover = true → start.leftover = true ∨ Refused later

private theorem Ready.replaced (ready : Ready start before later) (e : PyError) :
    Replaced start before encoded (.error e) later :=
  ⟨ready.idle, .kept ready.state ready.unrenamed, fun left => .inl (ready.tidy ▸ left)⟩

private theorem close_staged (staged : (start.since history).staged = some ⟨handle, bytes, placed, doomed⟩)
    (done : Bool) :
    start.since (history ++ [⟨.close handle, done⟩]) = { start.since history with
      staged := none
      state := if placed ∧ doomed then none else (start.since history).state
      leftover := (start.since history).leftover || (!placed && !doomed) } := by
  rw [since_snoc]
  simp [Disk.after, Disk.closed, staged]

private theorem close_meets {rest : Unit → Windows α} {post : Except PyError α → History → Prop}
    (closed : ∀ done, (∀ e, post (.error e) (history ++ [⟨.close handle, done⟩])) ∧
      Program.Meets (diskContract start) post (history ++ [⟨.close handle, done⟩]) (rest ())) :
    Program.Meets (diskContract start) post history (close handle >>= rest) := by
  refine Program.meets_ask trivial fun done _ => ?_
  cases done with
  | false => exact (closed false).1 _
  | true => exact (closed true).2

private theorem Open.closed (opened : Open start before encoded handle bytes true history)
    (outcome : Except PyError Unit)
    (done : Bool) : Replaced start before encoded outcome (history ++ [⟨.close handle, done⟩]) := by
  have closed := close_staged opened.staged done
  refine ⟨congrArg Disk.staged closed, .placed ?_ ((deleted_other (by simp)).not.mpr opened.undeleted), fun left => .inl ?_⟩
  · exact (congrArg Disk.state closed).trans (opened.named rfl).1
  · rw [closed] at left
    simpa [opened.tidy] using left

private theorem Open.discarded (opened : Open start before encoded handle bytes placed history)
    (unflushed : placed = true → [⟨.rename handle parent, true⟩, ⟨.flush handle, false⟩] <:+ history) (e : PyError)
    (deleted done : Bool) :
    Replaced start before encoded (.error e) (history ++ [⟨.delete handle, deleted⟩] ++ [⟨.close handle, done⟩]) := by
  have marked : (start.since (history ++ [⟨.delete handle, deleted⟩])).staged = some ⟨handle, bytes, placed, deleted⟩ ∧
      (start.since (history ++ [⟨.delete handle, deleted⟩])).state = (start.since history).state ∧
        (start.since (history ++ [⟨.delete handle, deleted⟩])).leftover = start.leftover := by
    rw [since_snoc, ← opened.tidy]
    cases deleted with
    | false => exact ⟨opened.staged, rfl, rfl⟩
    | true => exact ⟨congrArg (Option.map _) opened.staged, rfl, rfl⟩
  obtain ⟨staged, state, leftover⟩ := marked
  have closed := close_staged staged done
  have renamed : Renamed (history ++ [⟨.delete handle, deleted⟩] ++ [⟨.close handle, done⟩]) ↔ Renamed history :=
    (renamed_other (by simp)).trans (renamed_other (by simp))
  refine ⟨congrArg Disk.staged closed, ?_, ?_⟩
  · cases placed with
    | false =>
      obtain ⟨same, unrenamed⟩ := opened.unnamed rfl
      refine .kept ?_ (renamed.not.mpr unrenamed)
      rw [closed, state, same]
      simp
    | true =>
      obtain ⟨new, _⟩ := opened.named rfl
      cases deleted with
      | false =>
        refine .placed ?_ ?_
        · rw [closed, state, new]
          simp
        · rintro ⟨other, held⟩
          rcases List.mem_append.mp held with earlier | last
          · rcases List.mem_append.mp earlier with earlier | refused
            · exact opened.undeleted ⟨other, earlier⟩
            · cases List.mem_singleton.mp refused
          · cases List.mem_singleton.mp last
      | true =>
        refine .lost ?_ ⟨handle, parent, ?_⟩
        · rw [closed]
          rfl
        · obtain ⟨front, rfl⟩ := unflushed rfl
          exact ⟨front, [⟨.close handle, done⟩], by simp⟩
  · intro left
    rw [closed, leftover] at left
    cases deleted with
    | false => exact .inr ⟨handle, by simp⟩
    | true => exact .inl (by simpa using left)

private theorem replaceState_meets (parent : Option Handle) (encoded : Bytes) (ready : Ready start before history) :
    Program.Meets (diskContract start) (fun outcome later => Replaced start before encoded outcome later) history
      (replaceState parent encoded) := by
  cases parent with
  | none => exact ready.replaced _
  | some parent =>
    refine Program.meets_ask trivial fun answer _ => ?_
    cases answer with
    | none =>
      have same : start.since (history ++ [⟨.createTemporary, none⟩]) = start.since history := since_snoc _
      exact Ready.replaced ⟨same ▸ ready.state, same ▸ ready.idle, (renamed_other (by simp)).not.mpr ready.unrenamed,
        (deleted_other (by simp)).not.mpr ready.undeleted, same ▸ ready.tidy⟩ _
    | some handle =>
      have created : start.since (history ++ [⟨.createTemporary, some handle⟩]) =
          { start.since history with staged := some ⟨handle, [], false, false⟩ } := since_snoc _
      have opened : Open start before encoded handle [] false (history ++ [⟨.createTemporary, some handle⟩]) :=
        ⟨congrArg Disk.staged created, (deleted_other (by simp)).not.mpr ready.undeleted,
          fun _ => ⟨(congrArg Disk.state created).trans ready.state, (renamed_other (by simp)).not.mpr ready.unrenamed⟩, nofun,
          (congrArg Disk.leftover created).trans ready.tidy⟩
      refine (stage_meets handle parent encoded opened).bind_attempt ?_
      rintro (e | _) later ⟨bytes, placed, opened, complete, unflushed⟩
      · have unflushed := unflushed nofun
        refine Program.meets_ask trivial fun deleted _ => close_meets fun done => ?_
        exact ⟨fun e => opened.discarded unflushed e deleted done, opened.discarded unflushed e deleted done⟩
      · obtain rfl := complete rfl
        refine (still_meets (confirm_within handle)).bind_attempt fun outcome middle stays => ?_
        have opened := opened.stays stays
        exact close_meets fun done => ⟨fun e => opened.closed _ done, Program.meets_lift (opened.closed _ done)⟩

/-! ## The queue -/

/-- The call ended as the queue's call does under some fault, or has lost the state. -/
structure Ends (call : Fault → DurableQueue.Answer α) (start : Disk) (outcome : Except PyError α) (later : History) : Prop where
  idle : (start.since later).staged = none
  whole : ¬ Lost later → Possible call outcome (start.since later).state
  lost : Lost later → (start.since later).state = none ∧ ∃ e, outcome = .error e
  tidy : (start.since later).leftover = true → start.leftover = true ∨ Refused later

/-- However it ended, an exception may follow. -/
private structure Ending (call : Fault → DurableQueue.Answer α) (start : Disk) (outcome : Except PyError α) (later : History) :
    Prop extends Ends call start outcome later where
  raised : ∀ e, Ends call start (.error e) later

private theorem Ready.ends {call : Fault → DurableQueue.Answer α} (ready : Ready start before later)
    (possible : Possible call outcome before) : Ends call start outcome later where
  idle := ready.idle
  whole _ := ready.state ▸ possible
  lost lost := absurd lost (not_lost ready.unrenamed)
  tidy left := .inl (ready.tidy ▸ left)

private theorem Ends.stays {call : Fault → DurableQueue.Answer α} (ends : Ends call start outcome later)
    (stays : Stays start later last) : Ends call start outcome last where
  idle := stays.staged.trans ends.idle
  whole kept := by
    rw [stays.state]
    exact ends.whole fun lost => kept (stays.lost.mpr lost)
  lost lost := by
    rw [stays.state]
    exact ends.lost (stays.lost.mp lost)
  tidy left := by
    rw [stays.leftover] at left
    exact (ends.tidy left).imp id stays.refused

private theorem transaction_meets {body : Option Handle → Windows α} {call : Fault → DurableQueue.Answer α}
    (create : Bool)
    (idle : start.staged = none) (unopened : ∀ e, Possible call (.error e) start.state)
    (inside : ∀ parent history, Ready start start.state history → (parent = none → start.state = none) →
      Program.Meets (diskContract start) (fun outcome later => Ending call start outcome later) history (body parent)) :
    Program.Meets (diskContract start) (fun outcome later => Ends call start outcome later) [] (transaction create body) := by
  have ready : Ready start start.state [] := ⟨rfl, idle, by simp [Renamed], by simp [Deleted], rfl⟩
  refine (enter_meets create idle).bind ?_ fun e later entered => (ready.stays entered.1).ends (unopened e)
  rintro parent history ⟨stays, absent⟩
  have entered := ready.stays stays
  refine (inside parent history entered fun none => absent (none ▸ rfl)).bind_attempt ?_
  intro outcome later ending
  have left : Program.Within Quiet (leave parent) := by
    cases parent with
    | none => exact Program.within_pure _
    | some handle => exact close_within handle
  exact (quiet_meets ending.idle left).bind (fun _ _ stays => Program.meets_lift (ending.toEnds.stays stays))
    fun e _ stays => (ending.raised e).stays stays

private theorem Replaced.ending {encoded : ByteArray} {result : α}
    (replaced : Replaced start before encoded.data.toList outcome later) :
    Ending (replaceFile · before (.ok encoded) result) start (outcome.map fun _ => result) later := by
  have whole : fileOf encoded.data.toList = encoded := rfl
  have kept : ∀ e, Possible (replaceFile · before (.ok encoded) result) (.error e) before :=
    fun e => ⟨.write, rfl, fun value => by simp [replaceFile, DurableQueue.Answer.untouched]⟩
  have synced : ∀ e, Possible (replaceFile · before (.ok encoded) result) (.error e) (some encoded) :=
    fun e => ⟨.sync, rfl, fun value => by simp [replaceFile]⟩
  have raised : ∀ e, Ends (replaceFile · before (.ok encoded) result) start (.error e) later := by
    intro e
    refine ⟨replaced.idle, fun present => ?_, fun lost => ?_, replaced.tidy⟩
    · cases replaced.left with
      | kept same unrenamed => exact same ▸ kept e
      | placed new undeleted =>
        rw [new, whole]
        exact synced e
      | lost _ lost => exact absurd lost present
    · cases replaced.left with
      | kept same unrenamed => exact absurd lost (not_lost unrenamed)
      | placed new undeleted => exact absurd lost.deleted undeleted
      | lost none _ => exact ⟨none, e, rfl⟩
  cases outcome with
  | error e => exact ⟨raised e, raised⟩
  | ok value =>
    refine ⟨⟨replaced.idle, fun _ => ?_, fun lost => ?_, replaced.tidy⟩, raised⟩
    · cases replaced.left with
      | placed new undeleted =>
        rw [new, whole]
        exact ⟨.none, rfl, fun value => Iff.rfl⟩
    · cases replaced.left with
      | placed new undeleted => exact absurd lost.deleted undeleted

private theorem saveOpen_meets (limits : Limits) (parent : Option Handle) (seen : List Text)
    (pending : List Json.Members)
    (result : α) (ready : Ready start before history) :
    Program.Meets (diskContract start) (fun outcome later =>
      Ending (replaceFile · before (save limits seen pending) result) start (outcome.map fun _ => result) later) history
      (saveOpen limits parent seen pending) := by
  cases saved : save limits seen pending with
  | error e =>
    have program : saveOpen limits parent seen pending = .fail e := by
      rw [saveOpen, saved]
      rfl
    have possible : ∀ e', Possible (replaceFile · before (.error e) result) (.error e') before :=
      fun e' => ⟨.none, rfl, fun value => by simp [replaceFile, DurableQueue.Answer.untouched]⟩
    rw [program]
    exact ⟨ready.ends (possible e), fun e' => ready.ends (possible e')⟩
  | ok encoded =>
    have program : saveOpen limits parent seen pending = replaceState parent encoded.data.toList := by
      rw [saveOpen, saved]
      rfl
    rw [program]
    exact (replaceState_meets parent encoded.data.toList ready).mono fun _ _ replaced => replaced.ending

private theorem withLoaded_meets {body : Option Handle → State → Windows α}
    {call : Fault → DurableQueue.Answer α} (create : Bool)
    (limits : Limits) (idle : start.staged = none) (unread : ∀ e, Possible call (.error e) start.state)
    (inside : ∀ parent value history, load limits start.state = .ok value → Ready start start.state history →
      Program.Meets (diskContract start) (fun outcome later => Ending call start outcome later) history (body parent value)) :
    Program.Meets (diskContract start) (fun outcome later => Ends call start outcome later) []
      (transaction create fun parent => loadOpen limits parent >>= body parent) := by
  refine transaction_meets create idle unread fun parent history ready absent => ?_
  refine (loadOpen_meets limits parent ready.idle fun none => ready.state.trans (absent none)).bind ?_ ?_
  · rintro value later ⟨stays, loaded⟩
    refine inside parent value later ?_ (ready.stays stays)
    rw [← ready.state]
    exact loaded value rfl
  · rintro e later ⟨stays, _⟩
    exact ⟨(ready.stays stays).ends (unread e), fun e' => (ready.stays stays).ends (unread e')⟩

private theorem Ends.of_replace {call : Fault → DurableQueue.Answer α}
    (same : ∀ fault, fault ≠ .read → call fault = replaceFile fault previous saved result)
    (ends : Ends (replaceFile · previous saved result) start outcome later) : Ends call start outcome later :=
  ⟨ends.idle, fun present => (ends.whole present).of_replace same, ends.lost, ends.tidy⟩

private theorem Ending.of_replace {call : Fault → DurableQueue.Answer α}
    (same : ∀ fault, fault ≠ .read → call fault = replaceFile fault previous saved result)
    (ending : Ending (replaceFile · previous saved result) start outcome later) : Ending call start outcome later :=
  ⟨ending.toEnds.of_replace same, fun e => (ending.raised e).of_replace same⟩

private theorem ingest_meets (limits : Limits) (event : HeyEvent) (authorize : HeyEvent → Bool)
    (idle : start.staged = none) :
    Program.Meets (diskContract start) (fun outcome later =>
      Ends (DurableQueue.ingest limits event authorize · start.state) start outcome later) [] (ingest limits event authorize) := by
  by_cases authorized : authorize event = true
  swap
  · have ready : Ready start start.state [] := ⟨rfl, idle, by simp [Renamed], by simp [Deleted], rfl⟩
    rw [ingest, if_pos authorized]
    refine Program.meets_pure (ready.ends ⟨.none, ?_, fun value => ?_⟩) <;>
      simp [DurableQueue.ingest, authorized, DurableQueue.Answer.untouched]
  rw [ingest, if_neg (not_not.mpr authorized)]
  have unread : ∀ e, Possible (DurableQueue.ingest limits event authorize · start.state) (.error e) start.state := by
    intro e
    refine ⟨.read, ?_, fun value => ?_⟩ <;>
      simp [DurableQueue.ingest, authorized, openState, DurableQueue.Answer.untouched]
  refine withLoaded_meets true limits idle unread fun parent value history read ready => ?_
  by_cases known : event.identity ∈ value.seen
  · rw [if_pos known]
    refine Program.meets_pure ⟨ready.ends ⟨.none, ?_, fun value => ?_⟩, fun e => ready.ends (unread e)⟩ <;>
      simp [DurableQueue.ingest, authorized, openState, read, known, DurableQueue.Answer.untouched]
  rw [if_neg known]
  by_cases full : limits.maxPending ≤ value.pending.length
  · rw [if_pos full]
    exact Program.meets_fail ⟨ready.ends (unread _), fun e => ready.ends (unread e)⟩
  rw [if_neg full]
  have replaces := Posix.ingest_replaces authorized read known full
  exact (saveOpen_meets limits parent _ _ true ready).bind (fun _ _ ending => Ending.of_replace replaces ending)
    fun _ _ ending => Ending.of_replace replaces ending

private theorem complete_meets (limits : Limits) (identity : Text) (idle : start.staged = none) :
    Program.Meets (diskContract start) (fun outcome later =>
      Ends (DurableQueue.complete limits identity · start.state) start outcome later) [] (complete limits identity) := by
  have unread : ∀ e, Possible (DurableQueue.complete limits identity · start.state) (.error e) start.state := by
    intro e
    refine ⟨.read, ?_, fun value => ?_⟩ <;>
      simp [DurableQueue.complete, openState, DurableQueue.Answer.untouched]
  refine withLoaded_meets true limits idle unread fun parent value history read ready => ?_
  cases filtered : without identity value.pending with
  | error e => exact Program.meets_fail ⟨ready.ends (unread e), fun e => ready.ends (unread e)⟩
  | ok kept =>
    have replaces := Posix.complete_replaces read filtered
    refine (saveOpen_meets limits parent value.seen kept () ready).mono fun outcome later ending => ?_
    cases outcome <;> exact ending.of_replace replaces

/-- `pending` as a call that leaves the file alone. -/
def readsPending (limits : Limits) (file : File) (fault : Fault) : DurableQueue.Answer (List HeyEvent) :=
  .untouched (DurableQueue.pending limits fault file) file

private theorem pending_meets (limits : Limits) (idle : start.staged = none) :
    Program.Meets (diskContract start) (fun outcome later => Ends (readsPending limits start.state) start outcome later) []
      (pending limits) := by
  have unread : ∀ e, Possible (readsPending limits start.state) (.error e) start.state :=
    fun e => ⟨.read, rfl, fun value => iff_of_false nofun nofun⟩
  refine withLoaded_meets false limits idle unread fun parent value history read ready => ?_
  have reads : (readsPending limits start.state .none).result = value.pending.mapM HeyEvent.fromDict := by
    change (openState limits .none start.state >>= fun value => value.pending.mapM HeyEvent.fromDict) = _
    rw [openState, if_neg (by decide), read]
    rfl
  refine Program.meets_lift ⟨ready.ends ⟨.none, rfl, fun value => ?_⟩, fun e => ready.ends (unread e)⟩
  rw [reads]

/-! ## Runs -/

/-- The operation's run to its end, on a system that gives out new handles and tells the truth. -/
structure Ran (start : Disk) (program : Windows α) (outcome : Except PyError α) (trace : History) : Prop where
  ran : Run Program.Step program trace (Program.lift outcome)
  fresh : Program.Allowed handles.contract [] trace
  honest : Program.Allowed (diskContract start) [] trace

private theorem Ran.ended {program : Windows α} {post : Except PyError α → History → Prop}
    (run : Ran start program outcome trace)
    (meets : Program.Meets (diskContract start) post [] program) : post outcome trace := by
  have reached := (meets.run run.ran run.honest).1
  cases outcome <;> exact reached

private theorem ingest_keeps (limits : Limits) (event : HeyEvent) (authorize : HeyEvent → Bool) :
    handles.Keeps [] (ingest limits event authorize) := by
  unfold ingest
  split
  · exact Handles.moves_pure rfl
  · refine transaction_keeps true fun parent => (loadOpen_keeps limits parent).bind fun value => ?_
    split
    · exact Handles.moves_pure rfl
    · split
      · exact Handles.moves_fail rfl
      · exact (saveOpen_keeps limits parent _ _).bind fun _ => Handles.moves_pure rfl

private theorem complete_keeps (limits : Limits) (identity : Text) : handles.Keeps [] (complete limits identity) :=
  transaction_keeps true fun parent => (loadOpen_keeps limits parent).bind fun _ =>
    (Handles.keeps_lift _).bind fun kept => saveOpen_keeps limits parent _ kept

private theorem pending_keeps (limits : Limits) : handles.Keeps [] (pending limits) :=
  transaction_keeps false fun parent => (loadOpen_keeps limits parent).bind fun _ => Handles.keeps_lift _

/-! ## A flush that fails after the rename -/

/-- A queue of at most 65535 bytes. -/
def smallLimits : Limits := .of 10000 10000 65535

def readOld (old : Bytes) : History :=
  [⟨.openState, some (some (2 : ℕ))⟩, ⟨.assertPrivate 2 false, true⟩, ⟨.finalPath 2 .state, true⟩,
    ⟨.readFile 2 65536, some old⟩, ⟨.readFile 2 (65536 - old.length), some []⟩, ⟨.close 2, true⟩]

/-- The new state is written, flushed and renamed, and then cannot be flushed again. -/
def unflushed (new : Bytes) : History :=
  [⟨.createTemporary, some (3 : ℕ)⟩, ⟨.setPrivate 3, true⟩, ⟨.assertPrivate 3 false, true⟩, ⟨.finalPath 3 .temporary, true⟩,
    ⟨.writeFile 3 (new.take chunkBytes), some new.length⟩, ⟨.flush 3, true⟩, ⟨.rename 3 1, true⟩, ⟨.flush 3, false⟩,
    ⟨.delete 3, true⟩, ⟨.close 3, true⟩]

def unflushedTrace (old new : Bytes) : History :=
  [⟨.parentExists, some true⟩, ⟨.openParent, some (1 : ℕ)⟩, ⟨.assertPrivate 1 true, true⟩, ⟨.finalPath 1 .parent, true⟩] ++
    (readOld old ++ unflushed new ++ [⟨.close 1, true⟩])

private theorem readAll_run (short : old.length ≤ 65535) (more : old ≠ []) :
    Run Program.Step (readAll 2 65536 []) [⟨.readFile 2 65536, some old⟩, ⟨.readFile 2 (65536 - old.length), some []⟩]
      (.pure old) := by
  have left : 65536 - old.length ≠ 0 := by omega
  have chunk : min (65536 - old.length) chunkBytes = 65536 - old.length := by
    rw [chunkBytes]
    omega
  rw [readAll, if_neg (by decide)]
  refine .cons .answered ?_
  change Run Program.Step (if old = [] then pure [] else readAll 2 (65536 - old.length) old) _ _
  rw [if_neg more, readAll, if_neg left, chunk]
  exact .cons .answered .nil

private theorem writeThrough_run (more : new ≠ []) :
    Run Program.Step (writeThrough 3 new) [⟨.writeFile 3 (new.take chunkBytes), some new.length⟩, ⟨.flush 3, true⟩]
      (.pure ()) := by
  have some : new.length ≠ 0 := List.length_pos_iff.mpr more |>.ne'
  rw [writeThrough, if_neg more]
  refine .cons .answered ?_
  change Run Program.Step (if new.length = 0 then .fail .storage else writeThrough 3 (new.drop new.length)) _ _
  rw [if_neg some, List.drop_length, writeThrough, if_pos rfl]
  exact .cons .answered .nil

private theorem readState_run (short : old.length ≤ 65535) (more : old ≠ []) :
    Run Program.Step (readState (some 1) 65536) (readOld old) (.pure (some old)) := by
  have checked : Run Program.Step (readChecked 2 65536) [⟨.assertPrivate 2 false, true⟩, ⟨.finalPath 2 .state, true⟩,
      ⟨.readFile 2 65536, some old⟩, ⟨.readFile 2 (65536 - old.length), some []⟩] (Program.lift (.ok old)) :=
    .cons .answered (.cons .answered (readAll_run short more))
  exact .cons .answered (Program.run_bind_of (Program.run_attempt_of checked) (.cons .answered .nil))

private theorem replaceState_run (more : new ≠ []) :
    Run Program.Step (replaceState (some 1) new) (unflushed new) (.fail .storage) := by
  have renamed : Run Program.Step (renameByHandle 3 1) [⟨.rename 3 1, true⟩, ⟨.flush 3, false⟩] (Program.lift (.error .storage)) :=
    .cons .answered (.cons .answered .nil)
  have written : Run Program.Step (writeThrough 3 new >>= fun _ => renameByHandle 3 1) _ (Program.lift (.error .storage)) :=
    Program.run_bind_of (writeThrough_run more) renamed
  have staged : Run Program.Step (stage 3 1 new) [⟨.setPrivate 3, true⟩, ⟨.assertPrivate 3 false, true⟩,
      ⟨.finalPath 3 .temporary, true⟩, ⟨.writeFile 3 (new.take chunkBytes), some new.length⟩, ⟨.flush 3, true⟩,
      ⟨.rename 3 1, true⟩, ⟨.flush 3, false⟩] (Program.lift (.error .storage)) :=
    .cons .answered (.cons .answered (.cons .answered written))
  exact .cons .answered (Program.run_bind_of (Program.run_attempt_of staged) (.cons .answered (.cons .answered .nil)))

private theorem complete_run {kept : List Json.Members} {old new : ByteArray} {value : State}
    (short : old.data.toList.length ≤ 65535) (more : old.data.toList ≠ []) (written : new.data.toList ≠ [])
    (loaded : load smallLimits (some old) = .ok value) (filtered : without identity value.pending = .ok kept)
    (saved : save smallLimits value.seen kept = .ok new) :
    Run Program.Step (complete smallLimits identity) (unflushedTrace old.data.toList new.data.toList) (.fail .storage) := by
  have read : Run Program.Step (loadOpen smallLimits (some 1)) (readOld old.data.toList) (.pure value) := by
    rw [← List.append_nil (readOld _)]
    refine Program.run_bind_of (readState_run short more) ?_
    rw [Option.map_some, show fileOf old.data.toList = old from rfl, loaded]
    exact .nil
  have saves : Run Program.Step (saveOpen smallLimits (some 1) value.seen kept) (unflushed new.data.toList) (.fail .storage) := by
    rw [saveOpen, saved]
    exact replaceState_run written
  have body : Run Program.Step (loadOpen smallLimits (some 1) >>= fun value =>
      Program.lift (without identity value.pending) >>= saveOpen smallLimits (some 1) value.seen)
      (readOld old.data.toList ++ unflushed new.data.toList) (Program.lift (.error .storage)) := by
    refine Program.run_bind_of read ?_
    rw [filtered]
    exact saves
  have entered : Run Program.Step (enter true) [⟨.parentExists, some true⟩, ⟨.openParent, some (1 : ℕ)⟩,
      ⟨.assertPrivate 1 true, true⟩, ⟨.finalPath 1 .parent, true⟩] (.pure (some 1)) :=
    .cons .answered (.cons .answered (.cons .answered (.cons .answered .nil)))
  exact Program.run_bind_of entered (Program.run_bind_of (Program.run_attempt_of body) (.cons .answered .nil))

private theorem unflushed_fresh (old new : Bytes) : Program.Allowed handles.contract [] (unflushedTrace old new) := by
  refine .cons nofun (.cons ?_ (.cons nofun (.cons nofun (.cons ?_ (.cons nofun (.cons nofun (.cons nofun (.cons nofun
    (.cons nofun (.cons ?_ (.cons nofun (.cons nofun (.cons nofun (.cons nofun (.cons nofun (.cons nofun (.cons nofun
      (.cons nofun (.cons nofun (.cons nofun .nil))))))))))))))))))))
  · rintro handle ⟨⟩
    exact List.not_mem_nil
  · rintro handle ⟨⟩
    exact (show 2 ∉ [1] by decide)
  · rintro handle ⟨⟩
    exact (show 3 ∉ [1] by decide)

private theorem unflushed_honest {old : ByteArray} {new : Bytes} (short : old.data.toList.length ≤ 65535)
    (room : new.length ≤ 65535) :
    Program.Allowed (diskContract ⟨some old, 0, none, false⟩) [] (unflushedTrace old.data.toList new) := by
  refine .cons nofun (.cons trivial (.cons trivial (.cons trivial (.cons ?_ (.cons trivial (.cons trivial (.cons ?_ (.cons ?_
    (.cons trivial (.cons trivial (.cons trivial (.cons trivial (.cons trivial (.cons ?_ (.cons trivial (.cons trivial (.cons trivial
      (.cons trivial (.cons trivial (.cons trivial .nil))))))))))))))))))))
  · rintro found ⟨⟩
    rfl
  · rintro chunk ⟨⟩
    have whole : old.data.toList = [] → old.data.toList.length ≤ 0 := fun empty => (congrArg List.length empty).le
    exact ⟨by omega, List.prefix_rfl, whole⟩
  · rintro chunk ⟨⟩
    have ended : old.data.toList.length ≤ 0 + old.data.toList.length := by omega
    exact ⟨Nat.zero_le _, List.nil_prefix, fun _ => ended⟩
  · rintro written ⟨⟩
    rw [List.length_take, chunkBytes]
    omega

private theorem unflushed_lost (old new : Bytes) : Lost (unflushedTrace old new) :=
  ⟨3, 1, [⟨.parentExists, some true⟩, ⟨.openParent, some (1 : ℕ)⟩, ⟨.assertPrivate 1 true, true⟩, ⟨.finalPath 1 .parent, true⟩] ++
    readOld old ++ [⟨.createTemporary, some (3 : ℕ)⟩, ⟨.setPrivate 3, true⟩, ⟨.assertPrivate 3 false, true⟩,
      ⟨.finalPath 3 .temporary, true⟩, ⟨.writeFile 3 (new.take chunkBytes), some new.length⟩, ⟨.flush 3, true⟩],
    [⟨.close 3, true⟩, ⟨.close 1, true⟩], rfl⟩

private theorem saved_size {events : List HeyEvent} (valid : ∀ event ∈ events, event.Valid)
    (saved : save limits seen (events.map HeyEvent.toDict) = .ok encoded) :
    encoded.data.toList ≠ [] ∧ encoded.data.toList.length ≤ limits.maxStateBytes := by
  obtain ⟨serialized, dumped, written, room⟩ := (save_eq_ok valid).mp saved
  have size := Json.encode_dumps_size dumped written
  rw [document, Json.width_obj] at size
  have length : encoded.data.toList.length = encoded.size := Array.length_toList
  refine ⟨fun empty => ?_, by omega⟩
  rw [empty, List.length_nil] at length
  omega

/-- **On Windows too the queue's operations do what the queue's do under some fault**, and close what they
open; but the state is lost when the file that took its name is deleted because it could not be flushed. -/
theorem windows_queue_faithful (idle : start.staged = none) :
    (∀ limits event authorize outcome trace, Ran start (ingest limits event authorize) outcome trace →
      handles.Balanced trace ∧ Ends (DurableQueue.ingest limits event authorize · start.state) start outcome trace) ∧
    (∀ limits identity outcome trace, Ran start (complete limits identity) outcome trace →
      handles.Balanced trace ∧ Ends (DurableQueue.complete limits identity · start.state) start outcome trace) ∧
    (∀ limits outcome trace, Ran start (pending limits) outcome trace →
      handles.Balanced trace ∧ Ends (readsPending limits start.state) start outcome trace) := by
  refine ⟨?_, ?_, ?_⟩
  · intro limits event authorize outcome trace run
    exact ⟨(ingest_keeps limits event authorize).balanced run.ran run.fresh, run.ended (ingest_meets limits event authorize idle)⟩
  · intro limits identity outcome trace run
    exact ⟨(complete_keeps limits identity).balanced run.ran run.fresh, run.ended (complete_meets limits identity idle)⟩
  · intro limits outcome trace run
    exact ⟨(pending_keeps limits).balanced run.ran run.fresh, run.ended (pending_meets limits idle)⟩

/-- Of two pending messages one is completed. The state with the other one gets its name, cannot be
flushed, and is deleted. -/
theorem windows_queue_faithful_sample : ∃ old new,
    Holds smallLimits (some old) { seen := [greeting 1 1, greeting 2 2].map HeyEvent.identity,
                                   pending := [greeting 1 1, greeting 2 2] } ∧
    Lost (unflushedTrace old.data.toList new) ∧ handles.Balanced (unflushedTrace old.data.toList new) ∧
      Ends (DurableQueue.complete smallLimits (greeting 1 1).identity · (some old)) ⟨some old, 0, none, false⟩
        (.error .storage) (unflushedTrace old.data.toList new) := by
  have first : (greeting 1 1).Valid := greeting_valid (by decide) (by decide) (by decide) (by decide)
  have second : (greeting 2 2).Valid := greeting_valid (by decide) (by decide) (by decide) (by decide)
  have valid : ∀ event ∈ [greeting 1 1, greeting 2 2], event.Valid := by simp [first, second]
  have other : (greeting 2 2).identity ≠ (greeting 1 1).identity := by decide
  obtain ⟨old, stored⟩ : ∃ encoded, save smallLimits ([greeting 1 1, greeting 2 2].map HeyEvent.identity)
      ([greeting 1 1, greeting 2 2].map HeyEvent.toDict) = .ok encoded := save_of_writable valid (by decide +kernel)
  have holds := holds_saved valid (by decide) (by decide) stored
  obtain ⟨new, saved⟩ : ∃ encoded, save smallLimits ([greeting 1 1, greeting 2 2].map HeyEvent.identity)
      ([greeting 2 2].map HeyEvent.toDict) = .ok encoded :=
    save_of_writable (List.forall_mem_singleton.mpr second) (by decide +kernel)
  have filtered : without (greeting 1 1).identity ([greeting 1 1, greeting 2 2].map HeyEvent.toDict) =
      .ok ([greeting 2 2].map HeyEvent.toDict) := by
    rw [without_toDict valid]
    simp [other]
  obtain ⟨more, short⟩ := saved_size valid stored
  obtain ⟨written, room⟩ := saved_size (List.forall_mem_singleton.mpr second) saved
  have ran : Ran ⟨some old, 0, none, false⟩ (complete smallLimits (greeting 1 1).identity) (.error .storage)
      (unflushedTrace old.data.toList new.data.toList) :=
    ⟨complete_run short more written holds.loaded filtered saved, unflushed_fresh _ _, unflushed_honest short room⟩
  have idle : (⟨some old, 0, none, false⟩ : Disk).staged = none := rfl
  obtain ⟨balanced, ends⟩ := (windows_queue_faithful idle).2.1 smallLimits (greeting 1 1).identity _ _ ran
  exact ⟨old, new.data.toList, holds, unflushed_lost _ _, balanced, ends⟩

end

end HermesHey.WindowsState
