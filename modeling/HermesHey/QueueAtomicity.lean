import HermesHey.QueueStorage

/-! A save is all or nothing: after any system call fails, the state name holds
the previous content or the whole new encoding. -/
namespace HermesHey.Posix
open Library HermesHey.Core DurableQueue

/-! ## Histories -/

section
variable {start : Disk} {history : History} {event : Sigma Answer}

@[simp] theorem Disk.since_snoc : start.since (history ++ [event]) = (start.since history).after event := by
  simp [Disk.since]

private theorem Disk.after_replace {disk : Disk} (filled : disk.temporary = some bytes) {answer : Replaced}
    (effective : answer ≠ .failedBefore) : disk.after ⟨.replace, answer⟩ = ⟨some (fileOf bytes), none⟩ := by
  obtain ⟨state, temporary⟩ := disk
  cases filled
  cases answer with
  | failedBefore => exact absurd rfl effective
  | done | failedAfter => rfl

private theorem Disk.after_failed (disk : Disk) : disk.after ⟨.replace, Replaced.failedBefore⟩ = disk := by
  obtain ⟨state, temporary⟩ := disk
  cases temporary <;> rfl

private theorem took_snoc : Took (history ++ [event]) ↔
    Took history ∨ ∃ answer : Replaced, event = ⟨.replace, answer⟩ ∧ answer ≠ .failedBefore := by
  constructor
  · rintro ⟨answer, held, effective⟩
    rcases List.mem_append.mp held with old | new
    · exact .inl ⟨answer, old, effective⟩
    · exact .inr ⟨answer, (List.mem_singleton.mp new).symm, effective⟩
  · rintro (⟨answer, held, effective⟩ | ⟨answer, rfl, effective⟩)
    · exact ⟨answer, List.mem_append_left _ held, effective⟩
    · exact ⟨answer, List.mem_append_right _ (List.mem_singleton_self _), effective⟩

theorem Uncleaned.append (uncleaned : Uncleaned history) (trace : History) : Uncleaned (history ++ trace) :=
  uncleaned.imp (List.mem_append_left _) (List.mem_append_left _)

/-- The calls that change neither name. -/
def Silent : Call → Prop
  | .openTemporary | .write _ | .replace | .unlink => False
  | _ => True

/-- A silent call leaves the disk as it is. -/
theorem Silent.after (silent : Silent event.1) (disk : Disk) : disk.after event = disk := by
  obtain ⟨request, answer⟩ := event
  cases request with
  | openTemporary | write _ | replace | unlink => cases silent
  | _ => rfl

/-- A silent call does not make a rename take effect. -/
theorem Silent.took (silent : Silent event.1) : Took (history ++ [event]) ↔ Took history := by
  rw [took_snoc, or_iff_left]
  rintro ⟨answer, rfl, _⟩
  exact silent

/-- The later history has not changed what the state name holds. -/
structure Kept (start : Disk) (history later : History) : Prop where
  state : (start.since later).state = (start.since history).state
  took : Took later ↔ Took history
  uncleaned : Uncleaned history → Uncleaned later

/-- The later history has changed neither name. -/
structure Calm (start : Disk) (history later : History) : Prop extends Kept start history later where
  temporary : (start.since later).temporary = (start.since history).temporary

theorem Kept.refl (start : Disk) (history : History) : Kept start history history := ⟨rfl, Iff.rfl, id⟩

theorem Kept.trans (first : Kept start history later) (second : Kept start later last) : Kept start history last :=
  ⟨second.state.trans first.state, second.took.trans first.took, second.uncleaned ∘ first.uncleaned⟩

theorem Calm.refl (start : Disk) (history : History) : Calm start history history := ⟨.refl start history, rfl⟩

theorem Calm.trans (first : Calm start history later) (second : Calm start later last) : Calm start history last :=
  ⟨first.toKept.trans second.toKept, second.temporary.trans first.temporary⟩

private theorem Silent.calm (silent : Silent event.1) : Calm start history (history ++ [event]) := by
  have same : start.since (history ++ [event]) = start.since history := by
    rw [Disk.since_snoc, silent.after]
  exact ⟨⟨by rw [same], silent.took, fun held => held.append _⟩, by rw [same]⟩

private theorem calm_silent {trace : History} (silent : ∀ event ∈ trace, Silent event.1) :
    Calm start history (history ++ trace) := by
  induction trace generalizing history with
  | nil =>
    rw [List.append_nil]
    exact .refl start history
  | cons event trace ih =>
    obtain ⟨first, others⟩ := List.forall_mem_cons.mp silent
    rw [List.append_cons]
    exact first.calm.trans (ih others)

end

/-! ## The pieces of `_save_posix` -/

/-- The names are fresh, and a read returns what is there. -/
def posixContract (start : Disk) : Program.Contract Answer where
  may
    | history, .openTemporary, opened => opened = true → (start.since history).temporary = none
    | history, .readState, found => ∀ file, found = some file → file = (start.since history).state
    | _, _, _ => True
  must _ _ := True

section
variable {start : Disk}

/-- A program of silent calls changes neither name. -/
theorem silent_meets {program : Os α} (within : Program.Within Silent program) (history : History) :
    Program.Meets (posixContract start) (fun _ later => Calm start history later) history program := by
  apply (within.meets fun _ _ _ => trivial).mono
  rintro _ _ ⟨trace, rfl, silent⟩
  exact calm_silent silent

private theorem require_within (done : Bool) : Program.Within Silent (require done) := by
  cases done <;> trivial

private theorem perform_within (request : Call) (silent : Silent request) (check : Answer request → Bool) :
    Program.Within Silent (ask request >>= fun answer => require (check answer)) :=
  (Program.within_ask silent).bind fun _ => require_within _

private theorem assertParent_within : Program.Within Silent assertParent := perform_within .assertParent trivial id

/-- Opening the directory is silent. -/
theorem openParent_within : Program.Within Silent openParent := perform_within .openParent trivial id

private theorem closeTemporary_within : Program.Within Silent closeTemporary := perform_within .closeTemporary trivial id

private theorem closeDirectory_within : Program.Within Silent closeDirectory := perform_within .closeDirectory trivial id

private theorem prepare_within : Program.Within Silent prepare := by
  refine (Program.within_ask trivial).bind fun _ => (require_within _).bind fun _ => ?_
  refine (Program.within_ask trivial).bind fun _ => (require_within _).bind fun _ => ?_
  exact perform_within .fstat trivial fun second : Option Bool => decide (second = some true)

private theorem recheck_within : Program.Within Silent recheck := by
  refine (Program.within_ask trivial).bind fun _ => (require_within _).bind fun _ => ?_
  exact (Program.within_ask trivial).bind fun _ => (require_within _).bind fun _ => assertParent_within

/-- So is the flush of the directory. -/
theorem confirm_within : Program.Within Silent confirm := by
  refine (Program.within_ask trivial).bind fun _ => (require_within _).bind fun _ => ?_
  exact assertParent_within.bind fun _ => perform_within .fsyncDirectory trivial id

/-- A write takes some part of what is left, and the loop goes on until nothing is. -/
theorem writeAll_meets (remaining written : Bytes) (history : History)
    (held : (start.since history).temporary = some written) :
    Program.Meets (posixContract start) (fun outcome later => Kept start history later ∧
      (outcome = .ok () → (start.since later).temporary = some (written ++ remaining))) history (writeAll remaining) := by
  induction remaining using writeAll.induct generalizing written history with
  | case1 =>
    rw [writeAll, if_pos rfl]
    refine Program.meets_pure ⟨.refl start history, fun _ => ?_⟩
    rw [held, List.append_nil]
  | case2 remaining more ih =>
    rw [writeAll, if_neg more]
    refine Program.meets_ask trivial fun answer _ => ?_
    have kept : Kept start history (history ++ [⟨.write remaining, answer⟩]) := by
      refine ⟨?_, ?_, fun held => held.append _⟩
      · rw [Disk.since_snoc]
        cases answer <;> rfl
      · rw [took_snoc, or_iff_left]
        rintro ⟨_, impossible, _⟩
        cases impossible
    cases answer with
    | none => exact Program.meets_fail ⟨kept, fun impossible => nomatch impossible⟩
    | some count =>
      change Program.Meets _ _ _ (if count = 0 then _ else _)
      by_cases stuck : count = 0
      · rw [if_pos stuck]
        exact Program.meets_fail ⟨kept, fun impossible => nomatch impossible⟩
      · rw [if_neg stuck]
        have longer : (start.since (history ++ [⟨.write remaining, some count⟩])).temporary =
            some (written ++ remaining.take count) := by
          rw [Disk.since_snoc, Disk.after]
          simp only [held, Option.map_some]
        apply (ih count stuck _ _ longer).mono
        rintro outcome later ⟨further, ended⟩
        refine ⟨kept.trans further, fun returned => ?_⟩
        rw [ended returned, List.append_assoc, List.take_append_drop]

/-- What the state name holds, told by whether the rename took effect. -/
def Decided (start : Disk) (previous : File) (encoded : Bytes) (history : History) : Prop :=
  ¬ Took history ∧ (start.since history).state = previous ∨
    Took history ∧ start.since history = ⟨some (fileOf encoded), none⟩

private theorem Kept.decided (kept : Kept start history later) (before : ¬ Took history) (encoded : Bytes) :
    Decided start (start.since history).state encoded later :=
  .inl ⟨fun took => before (kept.took.mp took), kept.state⟩

private theorem Calm.decided (calm : Calm start history later) (decided : Decided start previous encoded history) :
    Decided start previous encoded later := by
  rcases decided with ⟨before, same⟩ | ⟨took, same⟩
  · exact .inl ⟨fun took => before (calm.took.mp took), calm.state.trans same⟩
  · refine .inr ⟨calm.took.mpr took, ?_⟩
    rw [← same]
    exact Disk.ext calm.state calm.temporary

private theorem rename_meets (encoded : Bytes) (history : History) (before : ¬ Took history)
    (filled : (start.since history).temporary = some encoded) :
    Program.Meets (posixContract start) (fun outcome later =>
      Decided start (start.since history).state encoded later ∧ (Uncleaned history → Uncleaned later) ∧
        (outcome = .ok () → Took later)) history rename := by
  refine Program.meets_ask trivial fun answer _ => ?_
  have uncleaned : Uncleaned history → Uncleaned (history ++ [⟨.replace, answer⟩]) := fun held => held.append _
  have moved : ∀ effective : Replaced, effective ≠ .failedBefore →
      Decided start (start.since history).state encoded (history ++ [⟨.replace, effective⟩]) ∧
        Took (history ++ [⟨.replace, effective⟩]) := by
    intro effective changed
    have took : Took (history ++ [⟨.replace, effective⟩]) := took_snoc.mpr (.inr ⟨effective, rfl, changed⟩)
    refine ⟨.inr ⟨took, ?_⟩, took⟩
    rw [Disk.since_snoc, Disk.after_replace filled changed]
  cases answer with
  | done => exact ⟨(moved .done (by decide)).1, uncleaned, fun _ => (moved .done (by decide)).2⟩
  | failedAfter => exact ⟨(moved .failedAfter (by decide)).1, uncleaned, fun impossible => nomatch impossible⟩
  | failedBefore =>
    refine ⟨.inl ⟨?_, ?_⟩, uncleaned, fun impossible => nomatch impossible⟩
    · rw [took_snoc]
      rintro (took | ⟨effective, same, changed⟩)
      · exact before took
      · cases same
        exact changed rfl
    · rw [Disk.since_snoc, Disk.after_failed]

private theorem stage_meets (encoded : Bytes) (history : History) (before : ¬ Took history)
    (created : (start.since history).temporary = some []) :
    Program.Meets (posixContract start) (fun outcome later =>
      Decided start (start.since history).state encoded later ∧ (Uncleaned history → Uncleaned later) ∧
        (outcome = .ok () → Took later)) history (stage encoded) := by
  have failed : ∀ {error : PyError} {later : History}, Kept start history later →
      Decided start (start.since history).state encoded later ∧ (Uncleaned history → Uncleaned later) ∧
        ((.error error : Except PyError Unit) = .ok () → Took later) :=
    fun kept => ⟨kept.decided before encoded, kept.uncleaned, fun impossible => nomatch impossible⟩
  refine (silent_meets prepare_within history).bind ?_ fun _ later calm => failed calm.toKept
  intro _ prepared calm
  have held : (start.since prepared).temporary = some [] := calm.temporary.trans created
  refine (writeAll_meets encoded [] prepared held).bind ?_ fun _ later wrote => failed (calm.toKept.trans wrote.1)
  rintro ⟨⟩ written ⟨kept, ended⟩
  have soFar : Kept start history written := calm.toKept.trans kept
  refine (silent_meets recheck_within written).bind ?_ fun _ later again => failed (soFar.trans again.toKept)
  intro _ checked again
  have ready : Kept start history checked := soFar.trans again.toKept
  have filled : (start.since checked).temporary = some encoded := again.temporary.trans (ended rfl)
  apply (rename_meets encoded checked (fun took => before (ready.took.mp took)) filled).mono
  rintro outcome later ⟨decided, uncleaned, took⟩
  rw [ready.state] at decided
  exact ⟨decided, uncleaned ∘ ready.uncleaned, took⟩

/-! ## `_save_posix` as a whole -/

/-- Where `_save_posix` leaves the directory, from what the names held before it. -/
structure Saved (start before : Disk) (encoded : Bytes) (outcome : Except PyError Unit) (history : History) : Prop where
  decided : Decided start before.state encoded history
  /-- A normal return means that the rename took effect. -/
  returned : outcome = .ok () → Took history
  /-- The temporary name was there before, or could not be removed. -/
  leftover : (start.since history).temporary ≠ none → before.temporary ≠ none ∨ Uncleaned history

/-- A save that failed before the rename left the state as it was. -/
theorem Calm.saved (calm : Calm start history later) (before : ¬ Took history) (encoded : Bytes) (error : PyError) :
    Saved start (start.since history) encoded (.error error) later where
  decided := calm.decided (.inl ⟨before, rfl⟩)
  returned impossible := nomatch impossible
  leftover held := .inl (by rwa [calm.temporary] at held)

private theorem doIf_within {body : Os Unit} (needed : Bool) (within : Program.Within Silent body) :
    Program.Within Silent (doIf needed body) := by
  cases needed with
  | false => exact trivial
  | true => exact within

/-- The temporary file is gone, or could not be removed. -/
def Cleaned (start : Disk) (history : History) : Prop := (start.since history).temporary ≠ none → Uncleaned history

private theorem Calm.cleaned (calm : Calm start history later) (cleaned : Cleaned start history) :
    Cleaned start later := by
  intro held
  rw [calm.temporary] at held
  exact calm.uncleaned (cleaned held)

private theorem closeTemporary_meets (history : History) :
    Program.Meets (posixContract start) (fun outcome later => Calm start history later ∧
      (outcome ≠ .ok () → Uncleaned later)) history closeTemporary := by
  refine Program.meets_ask trivial fun answer _ => ?_
  have calm : Calm start history (history ++ [⟨.closeTemporary, answer⟩]) := Silent.calm trivial
  cases answer with
  | true => exact ⟨calm, fun failed => absurd rfl failed⟩
  | false => exact ⟨calm, fun _ => .inl (List.mem_append_right _ (List.mem_singleton_self _))⟩

private theorem unlinkTemporary_meets (history : History) (decided : Decided start previous encoded history) :
    Program.Meets (posixContract start) (fun _ later => Decided start previous encoded later ∧ Cleaned start later)
      history unlinkTemporary := by
  refine Program.meets_ask trivial fun answer _ => ?_
  have took : Took (history ++ [⟨.unlink, answer⟩]) ↔ Took history := by
    rw [took_snoc, or_iff_left]
    rintro ⟨_, impossible, _⟩
    cases impossible
  cases answer with
  | false =>
    have same : start.since (history ++ [⟨.unlink, false⟩]) = start.since history := Disk.since_snoc
    refine ⟨?_, fun _ => .inr (List.mem_append_right _ (List.mem_singleton_self _))⟩
    rw [Decided, took, same]
    exact decided
  | true =>
    have gone : start.since (history ++ [⟨.unlink, true⟩]) = { start.since history with temporary := none } :=
      Disk.since_snoc
    refine ⟨?_, fun held => absurd (by rw [gone]) held⟩
    rw [Decided, took, gone]
    rcases decided with ⟨before, state⟩ | ⟨effective, same⟩
    · exact .inl ⟨before, state⟩
    · exact .inr ⟨effective, by rw [same]⟩

private theorem cleanUp_meets (owned : Bool) (history : History) (decided : Decided start previous encoded history) :
    Program.Meets (posixContract start) (fun _ later => Decided start previous encoded later ∧ Cleaned start later)
      history (cleanUp true true owned) := by
  refine (closeTemporary_meets history).bind ?_ ?_
  · rintro _ closed ⟨calm, _⟩
    refine (unlinkTemporary_meets closed (calm.decided decided)).bind ?_ fun _ _ cleaned => cleaned
    rintro _ unlinked ⟨decided, cleaned⟩
    apply (silent_meets (doIf_within owned closeDirectory_within) unlinked).mono
    exact fun _ later calm => ⟨calm.decided decided, calm.cleaned cleaned⟩
  · rintro error later ⟨calm, failed⟩
    exact ⟨calm.decided decided, fun _ => failed (fun impossible => nomatch impossible)⟩

private theorem cleanUp_within (opened owned : Bool) : Program.Within Silent (cleanUp opened false owned) :=
  (doIf_within opened closeTemporary_within).bind fun _ => doIf_within owned closeDirectory_within

private theorem create_meets (history : History) :
    Program.Meets (posixContract start) (fun
        | .ok _, later => Kept start history later ∧ (start.since history).temporary = none ∧
          (start.since later).temporary = some []
        | .error _, later => Calm start history later) history create := by
  refine (silent_meets assertParent_within history).bind ?_ fun _ _ calm => calm
  intro _ asserted calm
  refine Program.meets_ask trivial fun answer allowed => ?_
  have took : Took (asserted ++ [⟨.openTemporary, answer⟩]) ↔ Took asserted := by
    rw [took_snoc, or_iff_left]
    rintro ⟨_, impossible, _⟩
    cases impossible
  cases answer with
  | false =>
    have same : start.since (asserted ++ [⟨.openTemporary, false⟩]) = start.since asserted := Disk.since_snoc
    exact calm.trans ⟨⟨by rw [same], took, fun held => held.append _⟩, by rw [same]⟩
  | true =>
    have opened : start.since (asserted ++ [⟨.openTemporary, true⟩]) =
        { start.since asserted with temporary := some [] } := Disk.since_snoc
    refine ⟨calm.toKept.trans ⟨by rw [opened], took, fun held => held.append _⟩, ?_, by rw [opened]⟩
    rw [← calm.temporary]
    exact allowed rfl

private theorem replaceState_meets (owned : Bool) (encoded : Bytes) (history : History) (before : ¬ Took history) :
    Program.Meets (posixContract start) (Saved start (start.since history) encoded) history
      (replaceState owned encoded) := by
  refine (create_meets history).bind_attempt ?_
  rintro (error | ⟨⟩) created made
  · -- No temporary file was created.
    have calm : Calm start history created := made
    refine (silent_meets (cleanUp_within false owned) created).bind ?_ ?_
    · exact fun _ later further => (calm.trans further).saved before encoded error
    · exact fun error later further => (calm.trans further).saved before encoded error
  obtain ⟨kept, fresh, opened⟩ := made
  refine (stage_meets encoded created (fun took => before (kept.took.mp took)) opened).bind_attempt ?_
  rintro (error | ⟨⟩) staged ⟨decided, uncleaned, took⟩ <;> rw [kept.state] at decided
  · refine (cleanUp_meets owned staged decided).bind ?_ ?_
    · exact fun _ later ⟨decided, cleaned⟩ =>
        ⟨decided, (fun impossible => nomatch impossible), fun held => .inr (cleaned held)⟩
    · exact fun _ later ⟨decided, cleaned⟩ =>
        ⟨decided, (fun impossible => nomatch impossible), fun held => .inr (cleaned held)⟩
  · -- From here on the new file is in place, and nothing is left to clean.
    have took : Took staged := took rfl
    have gone : (start.since staged).temporary = none := by
      rcases decided with ⟨refused, _⟩ | ⟨_, same⟩
      · exact absurd took refused
      · rw [same]
    have saved : ∀ {outcome : Except PyError Unit} {later : History}, Calm start staged later →
        Saved start (start.since history) encoded outcome later := fun calm =>
      ⟨calm.decided decided, fun _ => calm.took.mpr took, fun held => absurd (calm.temporary.trans gone) held⟩
    refine (silent_meets confirm_within staged).bind_attempt fun confirmed last calm => ?_
    refine (silent_meets (cleanUp_within true owned) last).bind ?_ fun _ later further => saved (calm.trans further)
    intro _ later further
    exact Program.meets_lift (saved (calm.trans further))

/-- `_save_posix` is all or nothing. -/
theorem savePosix_meets (owned : Bool) (encoded : Bytes) (history : History) (before : ¬ Took history) :
    Program.Meets (posixContract start) (Saved start (start.since history) encoded) history (savePosix owned encoded) := by
  have entered : Program.Within Silent (enterParent owned) := by
    cases owned with
    | true => exact openParent_within
    | false => exact assertParent_within
  refine (silent_meets entered history).bind ?_ fun error later calm => calm.saved before encoded error
  intro _ inside calm
  have same : start.since inside = start.since history := Disk.ext calm.state calm.temporary
  rw [← same]
  exact replaceState_meets owned encoded inside (fun took => before (calm.took.mp took))

/-! ## `ingest` and `complete` -/

/-- Some fault makes the queue's call end as the system calls did, with the file they left. -/
def Possible (call : Fault → DurableQueue.Answer α) (outcome : Except PyError α) (state : File) : Prop :=
  ∃ fault, (call fault).file = state ∧ ∀ value, (call fault).result = .ok value ↔ outcome = .ok value

/-- However the call itself ended, closing the directory may fail afterwards. -/
def Ended (call : Fault → DurableQueue.Answer α) (outcome : Except PyError α) (state : File) : Prop :=
  Possible call outcome state ∧ ∀ e, Possible call (.error e) state

private theorem Ended.of_error {call : Fault → DurableQueue.Answer α} (possible : Possible call (.error e) state)
    (e' : PyError) : Ended call (.error e') state := by
  obtain ⟨fault, left, raised⟩ := possible
  have any : ∀ e, Possible call (.error e) state := fun e => ⟨fault, left, fun value => by simp [raised value]⟩
  exact ⟨any e', any⟩

private theorem withParent_meets {body : Os α} {call : Fault → DurableQueue.Answer α}
    (unopened : ∀ e, Possible call (.error e) start.state)
    (inside : ∀ history, Calm start [] history →
      Program.Meets (posixContract start) (fun outcome later => Ended call outcome (start.since later).state)
        history body) :
    Program.Meets (posixContract start) (fun outcome later => Possible call outcome (start.since later).state)
      [] (withParent body) := by
  refine (silent_meets openParent_within []).bind ?_ ?_
  swap
  · intro error later calm
    rw [calm.state]
    exact unopened error
  intro _ opened calm
  refine (inside opened calm).bind_attempt fun outcome ended possible => ?_
  refine (silent_meets closeDirectory_within ended).bind ?_ ?_
  · intro _ later further
    apply Program.meets_lift
    rw [further.state]
    exact possible.1
  · intro error later further
    rw [further.state]
    exact possible.2 error

/-- Before the file is written, an unreadable file is no different from an unwritable one. -/
theorem Possible.of_replace {call : Fault → DurableQueue.Answer α}
    (same : ∀ fault, fault ≠ .read → call fault = replaceFile fault previous saved result)
    (possible : Possible (replaceFile · previous saved result) outcome state) : Possible call outcome state := by
  obtain ⟨fault, left, ended⟩ := possible
  by_cases unreadable : fault = .read
  · have written : call .write = replaceFile fault previous saved result := by
      rw [same .write (by decide), unreadable]
      cases saved <;> rfl
    exact ⟨.write, by rw [written]; exact left, by rw [written]; exact ended⟩
  · exact ⟨fault, by rw [same fault unreadable]; exact left, by rw [same fault unreadable]; exact ended⟩

/-- How a call of the queue ends is how its replacement of the file ends. -/
theorem Ended.of_replace {call : Fault → DurableQueue.Answer α}
    (same : ∀ fault, fault ≠ .read → call fault = replaceFile fault previous saved result)
    (ended : Ended (replaceFile · previous saved result) outcome state) : Ended call outcome state :=
  ⟨ended.1.of_replace same, fun e => (ended.2 e).of_replace same⟩

private theorem saveOpen_meets (limits : Limits) (seen : List Text) (pending : List Json.Members) (result : α)
    (history : History) (before : ¬ Took history) :
    Program.Meets (posixContract start) (fun outcome later =>
      Ended (replaceFile · (start.since history).state (save limits seen pending) result)
        (outcome.map fun _ => result) (start.since later).state) history (saveOpen limits seen pending) := by
  cases saved : save limits seen pending with
  | error e =>
    have program : saveOpen limits seen pending = .fail e := by
      rw [saveOpen, saved]
      rfl
    rw [program]
    refine Program.meets_fail (Ended.of_error (e := e) ⟨.none, rfl, fun value => ?_⟩ e)
    simp [replaceFile, DurableQueue.Answer.untouched]
  | ok encoded =>
    have program : saveOpen limits seen pending = savePosix false encoded.data.toList := by
      rw [saveOpen, saved]
      rfl
    have whole : fileOf encoded.data.toList = encoded := rfl
    rw [program]
    apply (savePosix_meets false encoded.data.toList history before).mono
    rintro outcome later ⟨decided, returned, _⟩
    have synced : ∀ e, Possible (replaceFile · (start.since history).state (.ok encoded) result) (.error e)
        (some encoded) := fun e => ⟨.sync, rfl, fun value => by simp [replaceFile]⟩
    rcases decided with ⟨refused, same⟩ | ⟨_, same⟩
    · cases outcome with
      | ok value => exact absurd (returned rfl) refused
      | error e =>
        rw [same]
        refine Ended.of_error (e := e) ⟨.write, rfl, fun value => ?_⟩ e
        simp [replaceFile, DurableQueue.Answer.untouched]
    · rw [same, whole]
      cases outcome with
      | ok value => exact ⟨⟨.none, rfl, fun value => Iff.rfl⟩, synced⟩
      | error e => exact Ended.of_error (synced e) e

private theorem loadOpen_meets (limits : Limits) (history : History) :
    Program.Meets (posixContract start) (fun outcome later => Calm start history later ∧
      ∀ state, outcome = .ok state → load limits (start.since history).state = .ok state) history (loadOpen limits) := by
  refine (silent_meets assertParent_within history).bind ?_ fun _ _ calm => ⟨calm, fun _ impossible => nomatch impossible⟩
  intro _ asserted calm
  refine Program.meets_ask trivial fun answer allowed => ?_
  have further : Calm start history (asserted ++ [⟨.readState, answer⟩]) := calm.trans (Silent.calm trivial)
  cases answer with
  | none => exact ⟨further, fun _ impossible => nomatch impossible⟩
  | some file =>
    refine Program.meets_lift ⟨further, fun state loaded => ?_⟩
    rw [← calm.state, ← allowed file rfl]
    exact loaded

private theorem withLoaded_meets {body : State → Os α} {call : Fault → DurableQueue.Answer α} (limits : Limits)
    (unread : ∀ e, Possible call (.error e) start.state)
    (inside : ∀ value history, load limits start.state = .ok value → (start.since history).state = start.state →
      ¬ Took history → Program.Meets (posixContract start)
        (fun outcome later => Ended call outcome (start.since later).state) history (body value)) :
    Program.Meets (posixContract start) (fun outcome later => Possible call outcome (start.since later).state)
      [] (withParent (loadOpen limits >>= body)) := by
  apply withParent_meets unread
  intro history opened
  have intact : (start.since history).state = start.state := opened.state
  refine (loadOpen_meets limits history).bind ?_ ?_
  · rintro value loaded ⟨calm, found⟩
    rw [intact] at found
    refine inside value loaded (found value rfl) (calm.state.trans intact) ?_
    rw [calm.took, opened.took]
    rintro ⟨_, impossible, _⟩
    cases impossible
  · rintro e later ⟨calm, _⟩
    rw [calm.state, intact]
    exact ⟨unread e, unread⟩

/-- An `ingest` that accepts is a replacement of the file. -/
theorem ingest_replaces {limits : Limits} {event : HeyEvent} {authorize : HeyEvent → Bool} {value : State}
    (authorized : authorize event = true) (read : load limits file = .ok value) (unseen : event.identity ∉ value.seen)
    (room : ¬ limits.maxPending ≤ value.pending.length) :
    ∀ fault, fault ≠ .read → DurableQueue.ingest limits event authorize fault file = replaceFile fault file
      (save limits (value.seen ++ [event.identity]) (value.pending ++ [event.toDict])) true := by
  intro fault readable
  simp [DurableQueue.ingest, authorized, openState, readable, read, unseen, room]

/-- So is a `complete`. -/
theorem complete_replaces {limits : Limits} {value : State} (read : load limits file = .ok value)
    (filtered : without identity value.pending = .ok kept) :
    ∀ fault, fault ≠ .read → DurableQueue.complete limits identity fault file =
      replaceFile fault file (save limits value.seen kept) () := by
  intro fault readable
  simp [DurableQueue.complete, openState, readable, read, filtered]

/-- `ingest` ends as the queue's `ingest` does under some fault. -/
theorem ingest_meets (limits : Limits) (event : HeyEvent) (authorize : HeyEvent → Bool) :
    Program.Meets (posixContract start) (fun outcome later =>
      Possible (DurableQueue.ingest limits event authorize · start.state) outcome (start.since later).state)
      [] (ingest limits event authorize) := by
  by_cases authorized : authorize event = true
  swap
  · rw [ingest, if_pos authorized]
    refine Program.meets_pure ⟨.none, ?_, fun value => ?_⟩ <;>
      simp [DurableQueue.ingest, authorized, DurableQueue.Answer.untouched, Disk.since]
  rw [ingest, if_neg (not_not.mpr authorized)]
  have unread : ∀ e, Possible (DurableQueue.ingest limits event authorize · start.state) (.error e) start.state := by
    intro e
    refine ⟨.read, ?_, fun value => ?_⟩ <;>
      simp [DurableQueue.ingest, authorized, openState, DurableQueue.Answer.untouched]
  apply withLoaded_meets limits unread
  intro value loaded read same before
  by_cases known : event.identity ∈ value.seen
  · rw [if_pos known]
    refine Program.meets_pure ⟨?_, ?_⟩ <;> rw [same]
    · refine ⟨.none, ?_, fun value => ?_⟩ <;>
        simp [DurableQueue.ingest, authorized, openState, read, known, DurableQueue.Answer.untouched]
    · exact unread
  rw [if_neg known]
  by_cases full : limits.maxPending ≤ value.pending.length
  · rw [if_pos full]
    apply Program.meets_fail
    rw [same]
    exact ⟨unread _, unread⟩
  rw [if_neg full]
  have replaces := ingest_replaces authorized read known full
  refine (saveOpen_meets limits _ _ true loaded before).bind ?_ ?_
  · intro _ later ended
    rw [same] at ended
    exact ended.of_replace replaces
  · intro e later ended
    rw [same] at ended
    exact ended.of_replace replaces

/-- `complete` ends as the queue's `complete` does under some fault. -/
theorem complete_meets (limits : Limits) (identity : Text) :
    Program.Meets (posixContract start) (fun outcome later =>
      Possible (DurableQueue.complete limits identity · start.state) outcome (start.since later).state)
      [] (complete limits identity) := by
  have unread : ∀ e, Possible (DurableQueue.complete limits identity · start.state) (.error e) start.state := by
    intro e
    refine ⟨.read, ?_, fun value => ?_⟩ <;>
      simp [DurableQueue.complete, openState, DurableQueue.Answer.untouched]
  apply withLoaded_meets limits unread
  intro value loaded read same before
  cases filtered : without identity value.pending with
  | error e =>
    apply Program.meets_fail
    rw [same]
    exact ⟨unread e, unread⟩
  | ok kept =>
    have replaces := complete_replaces read filtered
    apply (saveOpen_meets limits value.seen kept () loaded before).mono
    intro outcome later ended
    rw [same] at ended
    cases outcome <;> exact ended.of_replace replaces

end

/-! ## All or nothing -/

/-- The program's run to its end, from a directory. -/
structure Ran (start : Disk) (program : Os α) (outcome : Except PyError α) (trace : History) : Prop where
  ran : Run Program.Step program trace (Program.lift outcome)
  allowed : Program.Allowed (posixContract start) [] trace

/-- What a program meets holds after its runs. -/
theorem Ran.ended {start : Disk} {program : Os α} {post : Except PyError α → History → Prop}
    (run : Ran start program outcome trace) (meets : Program.Meets (posixContract start) post [] program) :
    post outcome trace := by
  have reached := (meets.run run.ran run.allowed).1
  cases outcome <;> exact reached

/-- The call changed nothing, or did what it does when nothing fails. -/
def WholeOrNothing (call : Fault → DurableQueue.Answer α) (before after : File) : Prop :=
  after = before ∨ ∃ value encoded, call .none = ⟨.ok value, some encoded, true⟩ ∧ after = some encoded

private theorem wholeOrNothing_replace {call : Fault → DurableQueue.Answer α}
    (replaces : ∀ fault, fault ≠ .read → call fault = replaceFile fault file saved result) (readable : fault ≠ .read) :
    WholeOrNothing call file (call fault).file := by
  have undisturbed := replaces .none (by decide)
  rw [replaces fault readable]
  cases saved with
  | error e => exact .inl rfl
  | ok encoded =>
    cases fault with
    | none | sync => exact .inr ⟨result, encoded, undisturbed, rfl⟩
    | read => exact absurd rfl readable
    | write => exact .inl rfl

private theorem wholeOrNothing_ingest (limits : Limits) (event : HeyEvent) (authorize : HeyEvent → Bool)
    (fault : Fault)
    (file : File) : WholeOrNothing (DurableQueue.ingest limits event authorize · file) file
      (DurableQueue.ingest limits event authorize fault file).file := by
  by_cases authorized : authorize event = true
  swap
  · left
    simp [DurableQueue.ingest, authorized, DurableQueue.Answer.untouched]
  by_cases readable : fault = .read
  · left
    simp [DurableQueue.ingest, authorized, openState, readable, DurableQueue.Answer.untouched]
  cases loaded : load limits file with
  | error e =>
    left
    simp [DurableQueue.ingest, authorized, openState, readable, loaded, DurableQueue.Answer.untouched]
  | ok value =>
    by_cases skipped : event.identity ∈ value.seen ∨ limits.maxPending ≤ value.pending.length
    · left
      by_cases known : event.identity ∈ value.seen <;>
        simp_all [DurableQueue.ingest, openState, DurableQueue.Answer.untouched]
    · obtain ⟨unseen, room⟩ := not_or.mp skipped
      exact wholeOrNothing_replace (ingest_replaces authorized loaded unseen room) readable

private theorem wholeOrNothing_complete (limits : Limits) (identity : Text) (fault : Fault) (file : File) :
    WholeOrNothing (DurableQueue.complete limits identity · file) file
      (DurableQueue.complete limits identity fault file).file := by
  by_cases readable : fault = .read
  · left
    simp [DurableQueue.complete, openState, readable, DurableQueue.Answer.untouched]
  cases loaded : load limits file with
  | error e =>
    left
    simp [DurableQueue.complete, openState, readable, loaded, DurableQueue.Answer.untouched]
  | ok value =>
    cases filtered : without identity value.pending with
    | error e =>
      left
      simp [DurableQueue.complete, openState, readable, loaded, filtered, DurableQueue.Answer.untouched]
    | ok kept =>
      exact wholeOrNothing_replace (complete_replaces loaded filtered) readable

/-- `_save_posix` leaves the old content or the whole new one, and a call that raises has changed
nothing or taken full effect. -/
theorem saving_whole_or_nothing (start : Disk) :
    (∀ owned encoded outcome trace, Ran start (savePosix owned encoded) outcome trace →
      Saved start start encoded outcome trace) ∧
    (∀ limits event authorize e trace, Ran start (ingest limits event authorize) (.error e) trace →
      WholeOrNothing (DurableQueue.ingest limits event authorize · start.state) start.state (start.since trace).state) ∧
    (∀ limits identity e trace, Ran start (complete limits identity) (.error e) trace →
      WholeOrNothing (DurableQueue.complete limits identity · start.state) start.state (start.since trace).state) := by
  have untouched : ¬ Took [] := by
    rintro ⟨_, impossible, _⟩
    cases impossible
  refine ⟨?_, ?_, ?_⟩
  · intro owned encoded outcome trace ran
    exact ran.ended (savePosix_meets owned encoded [] untouched)
  · intro limits event authorize e trace ran
    obtain ⟨fault, left, _⟩ := ran.ended (ingest_meets limits event authorize)
    rw [← left]
    exact wholeOrNothing_ingest limits event authorize fault start.state
  · intro limits identity e trace ran
    obtain ⟨fault, left, _⟩ := ran.ended (complete_meets limits identity)
    rw [← left]
    exact wholeOrNothing_complete limits identity fault start.state

/-- A temporary file of two bytes whose second write fails after the first took one byte. -/
def tornStage : History :=
  [⟨.fstat, some true⟩, ⟨.fchmod, true⟩, ⟨.fstat, some true⟩, ⟨.write [1, 2], some (1 : Nat)⟩,
    ⟨.write [2], (none : Option Nat)⟩]

private theorem tornStage_ran : Run Program.Step (stage [1, 2]) tornStage (.fail .storage) := by
  have second : ∃ next, writeAll [2] = .call (.write [2]) next ∧ next (none : Option Nat) = .fail .storage := by
    rw [writeAll]
    exact ⟨_, rfl, rfl⟩
  have first : ∃ next, writeAll [1, 2] = .call (.write [1, 2]) next ∧ next (some 1 : Option Nat) = writeAll [2] := by
    rw [writeAll]
    exact ⟨_, rfl, rfl⟩
  obtain ⟨next, spelled, goes⟩ := first
  obtain ⟨last, spelled', stops⟩ := second
  rw [stage, spelled]
  refine .cons .answered (.cons .answered (.cons .answered (.cons .answered ?_)))
  change Run Program.Step (next (some 1 : Option Nat) >>= _) _ _
  rw [goes, spelled']
  refine .cons .answered ?_
  change Run Program.Step (last (none : Option Nat) >>= _) _ _
  rw [stops]
  exact .nil

/-- The whole save: the temporary file is closed and unlinked. -/
def tornSave : History :=
  [⟨.assertParent, true⟩, ⟨.assertParent, true⟩, ⟨.openTemporary, true⟩] ++ tornStage ++
    [⟨.closeTemporary, true⟩, ⟨.unlink, true⟩]

private theorem tornSave_ran : Ran ⟨previous, none⟩ (savePosix false [1, 2]) (.error .storage) tornSave where
  ran := by
    have staged : Run Program.Step (stage [1, 2]) tornStage (Program.lift (.error .storage)) := tornStage_ran
    have created : Run Program.Step create [⟨.assertParent, true⟩, ⟨.openTemporary, true⟩] (Program.lift (.ok ())) :=
      .cons .answered (.cons .answered .nil)
    have stopped : Run Program.Step (replaceState false [1, 2]) ([⟨.assertParent, true⟩, ⟨.openTemporary, true⟩] ++
        (tornStage ++ [⟨.closeTemporary, true⟩, ⟨.unlink, true⟩])) (.fail .storage) :=
      Program.run_bind_of (Program.run_attempt_of created)
        (Program.run_bind_of (Program.run_attempt_of staged) (.cons .answered (.cons .answered .nil)))
    exact .cons .answered stopped
  allowed := by
    refine .cons trivial (.cons trivial (.cons (fun _ => rfl) ?_))
    exact .cons trivial (.cons trivial (.cons trivial (.cons trivial (.cons trivial (.cons trivial (.cons trivial .nil))))))

/-- The torn save leaves the previous file, and no temporary one. -/
theorem saving_whole_or_nothing_torn : Saved ⟨none, none⟩ ⟨none, none⟩ [1, 2] (.error .storage) tornSave :=
  (saving_whole_or_nothing ⟨none, none⟩).1 false [1, 2] (.error .storage) tornSave tornSave_ran

end HermesHey.Posix
