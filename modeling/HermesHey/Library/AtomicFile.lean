import HermesHey.Library.Program

/-! Replacing a file through a temporary file, one system call after another. Any call may fail
and the machine may stop at any point: the name then holds the old content or the whole new
one, provided that the temporary file was flushed before it took the name. -/
namespace Library.AtomicFile

abbrev Bytes := List UInt8

/-! ## The disk -/

/-- The bytes of a file, and whether they are flushed. -/
structure Content where
  bytes : Bytes
  flushed : Bool

/-- The file, the temporary file, and what the name refers to on the disk itself. -/
structure Disk where
  target : Option Content
  temporary : Option Content
  settled : Option Bytes

/-- What the name may refer to after the machine has stopped. Of a file that was not flushed
any bytes may be left. -/
inductive Disk.Survives (disk : Disk) : Option Bytes → Prop where
  | settled : disk.Survives disk.settled
  | target (held : disk.target = some ⟨bytes, true⟩) : disk.Survives (some bytes)
  | torn (held : disk.target = some ⟨bytes, false⟩) (left : Bytes) : disk.Survives (some left)

/-! ## The calls -/

inductive Platform where
  | posix
  /-- A replacement is written through, and directories cannot be flushed. -/
  | windows
  deriving DecidableEq

/-- How a replacement ends. -/
inductive Replaced (ε : Type) where
  | done
  | failedBefore (error : ε)
  /-- It failed, and the file is in place nevertheless. -/
  | failedAfter (error : ε)

inductive Call where
  | ensureDirectory
  | createTemporary
  | chmod
  | write (bytes : Bytes)
  | sync
  | close
  | replace
  | remove
  | openDirectory
  | syncDirectory
  | closeDirectory

/-- What a call returns: its error, if it has one. A write also tells how much it took. -/
def Answer (ε : Type) : Call → Type
  | .write _ => ℕ × Option ε
  | .replace => Replaced ε
  | _ => Option ε

variable {ε ε' : Type}

/-- What a call does to the disk. -/
def Disk.after (platform : Platform) (disk : Disk) : Sigma (Answer ε) → Disk
  | ⟨.createTemporary, none⟩ => { disk with temporary := some ⟨[], false⟩ }
  | ⟨.write bytes, answer⟩ =>
    { disk with temporary := disk.temporary.map fun held => ⟨held.bytes ++ bytes.take answer.1, false⟩ }
  | ⟨.sync, none⟩ => { disk with temporary := disk.temporary.map fun held => { held with flushed := true } }
  | ⟨.replace, .done⟩ =>
    { target := disk.temporary, temporary := none,
      settled := if platform = .windows then disk.temporary.map Content.bytes else disk.settled }
  | ⟨.replace, .failedAfter _⟩ => { disk with target := disk.temporary, temporary := none }
  | ⟨.remove, none⟩ => { disk with temporary := none }
  | ⟨.syncDirectory, none⟩ => { disk with settled := disk.target.map Content.bytes }
  | _ => disk

def Disk.since (platform : Platform) (start : Disk) (history : Program.History (Answer ε)) : Disk :=
  history.foldl (Disk.after platform) start

/-! ## The program -/

/-- Where a save can fail. -/
inductive Stage where
  | directory
  | create
  | secure
  | write
  | sync
  | close
  | replace
  | syncDirectory

section
variable (label : Stage → ε → ε')

abbrev Code (ε ε' α : Type) := Program Call (Answer ε) ε' α

def ask (request : Call) : Code ε ε' (Answer ε request) := Program.ask request

/-- Stops with the error of a call, told as that of its stage. -/
def check (stage : Stage) : Option ε → Code ε ε' Unit
  | none => pure ()
  | some error => .fail (label stage error)

def ensureDirectory : Code ε ε' Unit := do
  let failed : Option ε ← ask .ensureDirectory
  check label .directory failed

def createTemporary : Code ε ε' Unit := do
  let failed : Option ε ← ask .createTemporary
  check label .create failed

/-- From the new temporary file to the replacement. -/
def fill (data : Bytes) : Code ε ε' Unit := do
  let secured : Option ε ← ask .chmod
  check label .secure secured
  let written : ℕ × Option ε ← ask (.write data)
  check label .write written.2
  let synced : Option ε ← ask .sync
  check label .sync synced
  let closed : Option ε ← ask .close
  check label .close closed

def replace : Code ε ε' Unit := do
  match ← ask .replace with
  | .done => pure ()
  | .failedBefore error | .failedAfter error => .fail (label .replace error)

/-- The directory is flushed where it can be. An error of its `Close` is dropped. -/
def syncParentDirectory : Platform → Code ε ε' Unit
  | .windows => pure ()
  | .posix => do
    let opened : Option ε ← ask .openDirectory
    check label .syncDirectory opened
    let synced : Option ε ← ask .syncDirectory
    let _ : Option ε ← ask .closeDirectory
    check label .syncDirectory synced

/-- The deferred function: the errors of `Close` and `Remove` are dropped. -/
def discard (leftover : Bool) : Code ε ε' Unit := do
  let _ : Option ε ← ask .close
  if leftover then
    let _ : Option ε ← ask .remove
    return ()

/-- A save of the data, and what is deferred in it. -/
def save (platform : Platform) (data : Bytes) : Code ε ε' Unit := do
  ensureDirectory label
  createTemporary label
  let staged : Except ε' Unit ← (do fill label data; replace label).attempt
  match staged with
  | .error error =>
    discard true
    .fail error
  | .ok () =>
    let synced ← (syncParentDirectory label platform).attempt
    discard false
    Program.lift synced

end

/-! ## What holds between the calls -/

/-- The name refers to what it did, or to the whole data. -/
def Disk.Safe (start : Disk) (data : Bytes) (disk : Disk) : Prop :=
  disk.target = start.target ∧ disk.settled = start.settled ∨
    disk.target = some ⟨data, true⟩ ∧ (disk.settled = start.settled ∨ disk.settled = some data)

/-- A write without an error has taken everything. -/
def Fair : ∀ request, Answer ε request → Prop
  | .write bytes, answer => answer.2 = none → bytes.length ≤ answer.1
  | _, _ => True

/-- The disk is safe before every call. -/
def contract (ε : Type) (platform : Platform) (start : Disk) (data : Bytes) : Program.Contract (Answer ε) where
  may _ := Fair
  must history _ := start.Safe data (start.since platform history)

section
variable {label : Stage → ε → ε'} {platform : Platform} {start : Disk} {data : Bytes}
  {history : Program.History (Answer ε)}

@[simp] theorem since_snoc (event : Sigma (Answer ε)) :
    start.since platform (history ++ [event]) = (start.since platform history).after platform event := by
  simp [Disk.since]

private theorem safe_before (same : start.since platform history = ⟨start.target, temporary, start.settled⟩) :
    start.Safe data (start.since platform history) := by
  rw [same]
  exact .inl ⟨rfl, rfl⟩

private theorem meets_check {rules : Program.Contract (Answer ε)}
    {post : Except ε' α → Program.History (Answer ε) → Prop}
    {failed : Option ε} {rest : Unit → Code ε ε' α} (stage : Stage) (goes : failed = none → Program.Meets rules post history (rest ()))
    (fails : ∀ error, post (.error error) history) : Program.Meets rules post history (check label stage failed >>= rest) := by
  cases failed with
  | none => exact goes rfl
  | some error => exact fails _

private theorem meets_last {rules : Program.Contract (Answer ε)}
    {post : Except ε' Unit → Program.History (Answer ε) → Prop}
    {failed : Option ε} (stage : Stage) (goes : failed = none → post (.ok ()) history)
    (fails : ∀ error, post (.error error) history) : Program.Meets rules post history (check label stage failed) := by
  cases failed with
  | none => exact goes rfl
  | some error => exact fails _

/-- The temporary file is being filled, and the name is untouched. -/
private def Filling (start : Disk) (data : Bytes) (outcome : Except ε' Unit) (disk : Disk) : Prop :=
  ∃ temporary, disk = ⟨start.target, some temporary, start.settled⟩ ∧ (outcome = .ok () → temporary = ⟨data, true⟩)

private theorem fill_meets (fresh : start.since platform history = ⟨start.target, some ⟨[], false⟩, start.settled⟩) :
    Program.Meets (contract ε platform start data) (fun outcome later => Filling start data outcome (start.since platform later))
      history (fill label data) := by
  refine Program.meets_ask (safe_before fresh) fun secured _ => ?_
  have fresh : start.since platform (history ++ [⟨.chmod, secured⟩]) = _ := (since_snoc _).trans fresh
  refine meets_check .secure (fun _ => ?_) fun _ => ⟨_, fresh, nofun⟩
  refine Program.meets_ask (safe_before fresh) fun written fair => ?_
  have filled : start.since platform (history ++ [⟨.chmod, secured⟩] ++ [⟨.write data, written⟩]) =
      ⟨start.target, some ⟨data.take written.1, false⟩, start.settled⟩ := by
    rw [since_snoc, fresh]
    rfl
  refine meets_check .write (fun complete => ?_) fun _ => ⟨_, filled, nofun⟩
  rw [List.take_of_length_le (fair complete)] at filled
  refine Program.meets_ask (safe_before filled) fun synced _ => ?_
  cases synced with
  | some error => exact ⟨_, (since_snoc _).trans filled, nofun⟩
  | none =>
    have flushed : start.since platform
        (history ++ [⟨.chmod, secured⟩] ++ [⟨.write data, written⟩] ++ [⟨.sync, none⟩]) =
          ⟨start.target, some ⟨data, true⟩, start.settled⟩ := by
      rw [since_snoc, filled]
      rfl
    refine Program.meets_ask (safe_before flushed) fun closed _ => ?_
    have flushed := (since_snoc ⟨.close, closed⟩).trans flushed
    exact meets_last .close (fun _ => ⟨_, flushed, fun _ => rfl⟩) fun _ => ⟨_, flushed, nofun⟩

/-- The new file has the name. -/
private def Placed (start : Disk) (data : Bytes) (disk : Disk) : Prop :=
  ∃ settled, disk = ⟨some ⟨data, true⟩, none, settled⟩ ∧ (settled = start.settled ∨ settled = some data)

/-- After the replacement, or after the failure before it. -/
private def Staged (platform : Platform) (start : Disk) (data : Bytes) : Except ε' Unit → Disk → Prop
  | .ok _, disk => Placed start data disk ∧ (platform = .windows → disk.settled = some data)
  | .error _, disk => (∃ temporary, disk = ⟨start.target, some temporary, start.settled⟩) ∨ Placed start data disk

private theorem stage_meets (fresh : start.since platform history = ⟨start.target, some ⟨[], false⟩, start.settled⟩) :
    Program.Meets (contract ε platform start data)
      (fun outcome later => Staged platform start data outcome (start.since platform later)) history
      (do fill label data; replace label) := by
  refine (fill_meets fresh).bind ?_ ?_
  · rintro _ history ⟨_, filled, complete⟩
    rw [complete rfl] at filled
    refine Program.meets_ask (safe_before filled) fun replaced _ => ?_
    cases replaced with
    | failedBefore error => exact .inl ⟨_, (since_snoc _).trans (congrArg (Disk.after platform · _) filled)⟩
    | failedAfter error =>
      refine .inr ⟨start.settled, ?_, .inl rfl⟩
      rw [since_snoc, filled]
      rfl
    | done =>
      have placed : start.since platform (history ++ [⟨.replace, .done⟩]) =
          ⟨some ⟨data, true⟩, none, if platform = .windows then some data else start.settled⟩ := by
        rw [since_snoc, filled]
        rfl
      refine ⟨⟨_, placed, ?_⟩, fun windows => ?_⟩
      · split
        · exact .inr rfl
        · exact .inl rfl
      · rw [placed]
        exact if_pos windows
  · rintro _ history ⟨temporary, filled, _⟩
    exact .inl ⟨temporary, filled⟩

private theorem Placed.safe (placed : Placed start data disk) : start.Safe data disk := by
  obtain ⟨settled, rfl, known⟩ := placed
  exact .inr ⟨rfl, known⟩

private theorem syncParentDirectory_meets (placed : Placed start data (start.since platform history))
    (through : platform = .windows → (start.since platform history).settled = some data) :
    Program.Meets (contract ε platform start data) (fun outcome later => Placed start data (start.since platform later) ∧
      (outcome = .ok () → (start.since platform later).settled = some data)) history (syncParentDirectory label platform) := by
  cases platform with
  | windows => exact ⟨placed, fun _ => through rfl⟩
  | posix =>
    refine Program.meets_ask placed.safe fun opened _ => ?_
    have placed : Placed start data (start.since .posix (history ++ [⟨.openDirectory, opened⟩])) := by
      rw [since_snoc]
      exact placed
    refine meets_check .syncDirectory (fun _ => ?_) fun _ => ⟨placed, nofun⟩
    refine Program.meets_ask placed.safe fun synced _ => ?_
    have reached : Placed start data (start.since .posix (history ++ [⟨.openDirectory, opened⟩] ++ [⟨.syncDirectory, synced⟩])) ∧
        (synced = none → (start.since .posix
          (history ++ [⟨.openDirectory, opened⟩] ++ [⟨.syncDirectory, synced⟩])).settled = some data) := by
      rw [since_snoc]
      obtain ⟨settled, same, known⟩ := placed
      rw [same]
      cases synced with
      | none => exact ⟨⟨_, rfl, .inr rfl⟩, fun _ => rfl⟩
      | some error => exact ⟨⟨_, rfl, known⟩, nofun⟩
    refine Program.meets_ask reached.1.safe fun closed _ => ?_
    refine meets_last .syncDirectory (fun flushed => ?_) fun _ => ?_
    · rw [since_snoc]
      exact ⟨reached.1, fun _ => reached.2 flushed⟩
    · rw [since_snoc]
      exact ⟨reached.1, nofun⟩

/-- The temporary file is gone, or the system refused to remove it. -/
def Cleared (disk : Disk) (history : Program.History (Answer ε)) : Prop :=
  disk.temporary = none ∨ ∃ error, (⟨.remove, some error⟩ : Sigma (Answer ε)) ∈ history

/-- At most the temporary file has changed. -/
private structure Discarded (before after : Disk) (leftover : Bool) (later : Program.History (Answer ε)) : Prop where
  kept : after = before ∨ after = { before with temporary := none }
  cleared : leftover = true → Cleared after later

private theorem discard_meets (safe : start.Safe data (start.since platform history)) (leftover : Bool) :
    Program.Meets (contract ε platform start data) (fun (_ : Except ε' Unit) later =>
      Discarded (start.since platform history) (start.since platform later) leftover later) history (discard leftover) := by
  refine Program.meets_ask safe fun closed _ => ?_
  have same : start.since platform (history ++ [⟨.close, closed⟩]) = start.since platform history := since_snoc _
  cases leftover with
  | false => exact ⟨.inl same, nofun⟩
  | true =>
    have safe : start.Safe data (start.since platform (history ++ [⟨.close, closed⟩])) := by
      rw [same]
      exact safe
    refine Program.meets_ask safe fun removed _ => ?_
    cases removed with
    | some error =>
      exact ⟨.inl ((since_snoc _).trans same), fun _ => .inr ⟨error, List.mem_append_right _ (List.mem_singleton_self _)⟩⟩
    | none =>
      have gone : start.since platform (history ++ [⟨.close, closed⟩] ++ [⟨.remove, none⟩]) =
          { start.since platform history with temporary := none } :=
        (since_snoc _).trans (congrArg (Disk.after platform · ⟨.remove, none⟩) same)
      exact ⟨.inr gone, fun _ => .inl (congrArg Disk.temporary gone)⟩

private theorem Discarded.safe (discarded : Discarded before after leftover later) (safe : start.Safe data before) :
    start.Safe data after := by
  rcases discarded.kept with rfl | rfl <;> exact safe

private theorem Discarded.same (discarded : Discarded before after leftover later) (gone : before.temporary = none) :
    after = before := by
  rcases discarded.kept with same | same
  · exact same
  · rw [same, ← gone]

/-- How a save may end. -/
def Ended (platform : Platform) (start : Disk) (data : Bytes) : Except ε' Unit → Program.History (Answer ε) → Prop
  | .ok _, history => start.since platform history = ⟨some ⟨data, true⟩, none, some data⟩
  | .error _, history => start.Safe data (start.since platform history) ∧ Cleared (start.since platform history) history

/-- A save replaces the file or leaves it, step by step. -/
theorem save_meets (clear : start.temporary = none) : Program.Meets (contract ε platform start data)
    (Ended platform start data) [] (save label platform data) := by
  have began : start.since platform ([] : Program.History (Answer ε)) = ⟨start.target, none, start.settled⟩ := by
    rw [← clear]
    rfl
  refine Program.meets_ask (safe_before began) fun made _ => ?_
  have began : start.since platform ([⟨.ensureDirectory, made⟩] : Program.History (Answer ε)) = _ := began
  refine meets_check .directory (fun _ => ?_) fun _ => ⟨safe_before began, .inl (congrArg Disk.temporary began)⟩
  refine Program.meets_ask (safe_before began) fun created _ => ?_
  cases created with
  | some error =>
    have began : start.since platform ([⟨.ensureDirectory, made⟩, ⟨.createTemporary, some error⟩] : Program.History (Answer ε)) = _ := began
    exact ⟨safe_before began, .inl (congrArg Disk.temporary began)⟩
  | none =>
    have fresh : start.since platform ([⟨.ensureDirectory, made⟩, ⟨.createTemporary, none⟩] : Program.History (Answer ε)) =
        ⟨start.target, some ⟨[], false⟩, start.settled⟩ := rfl
    refine (stage_meets fresh).bind_attempt ?_
    rintro (error | ⟨⟩) history staged
    · have safe : start.Safe data (start.since platform history) := by
        rcases staged with ⟨temporary, same⟩ | placed
        · exact safe_before same
        · exact placed.safe
      exact (discard_meets safe true).bind (fun _ _ ended => ⟨ended.safe safe, ended.cleared rfl⟩)
        fun _ _ ended => ⟨ended.safe safe, ended.cleared rfl⟩
    · obtain ⟨placed, through⟩ := staged
      refine (syncParentDirectory_meets placed through).bind_attempt ?_
      rintro synced history ⟨placed, flushed⟩
      have gone : (start.since platform history).temporary = none := by
        obtain ⟨settled, same, _⟩ := placed
        rw [same]
      refine (discard_meets placed.safe false).bind (fun _ later ended => ?_)
        fun _ later ended => ⟨ended.safe placed.safe, .inl (ended.same gone ▸ gone)⟩
      have same := ended.same gone
      refine Program.meets_lift ?_
      cases synced with
      | error error => exact ⟨ended.safe placed.safe, .inl (same ▸ gone)⟩
      | ok =>
        obtain ⟨settled, reached, _⟩ := placed
        rw [reached] at flushed
        have whole : settled = some data := flushed rfl
        rw [Ended, same, reached, whole]

/-! ## Runs -/

/-- Nothing that the name refers to waits to be flushed. -/
def Disk.Steady (disk : Disk) : Prop := ∀ held, disk.target = some held → held.flushed = true

/-- The bytes that the name refers to. -/
def Disk.current (disk : Disk) : Option Bytes := disk.target.map Content.bytes

/-- A crash leaves the settled contents or the current ones. -/
theorem Disk.Steady.survives (steady : Disk.Steady disk) (survives : disk.Survives left) :
    left = disk.settled ∨ left = disk.current := by
  cases survives with
  | settled => exact .inl rfl
  | target held => exact .inr (by rw [Disk.current, held]; rfl)
  | torn held left => exact absurd (steady _ held) Bool.false_ne_true

/-- A disk on which a save is under way is steady. -/
theorem Disk.Safe.steady (safe : start.Safe data disk) (steady : start.Steady) : disk.Steady := by
  intro held found
  rcases safe with ⟨same, _⟩ | ⟨placed, _⟩
  · exact steady held (same ▸ found)
  · rw [placed] at found
    cases found
    rfl

/-- During a save the name has the old contents or the new. -/
theorem Disk.Safe.current (safe : start.Safe data disk) : disk.current = start.current ∨ disk.current = some data := by
  rcases safe with ⟨same, _⟩ | ⟨placed, _⟩
  · exact .inl (congrArg (Option.map _) same)
  · exact .inr (congrArg (Option.map _) placed)

/-- And so has what a crash would leave. -/
theorem Disk.Safe.settled (safe : start.Safe data disk) : disk.settled = start.settled ∨ disk.settled = some data := by
  rcases safe with ⟨_, same⟩ | ⟨_, known⟩
  · exact .inl same
  · exact known

/-- At every moment of a save the name is safe. -/
theorem save_safe (clear : start.temporary = none) {trace : Program.History (Answer ε)} {rest : Code ε ε' Unit}
    (ran : Run Program.Step (save label platform data) trace rest)
    (fair : ∀ event ∈ trace, Fair event.1 event.2) : start.Safe data (start.since platform trace) := by
  have allowed : Program.Allowed (contract ε platform start data) [] trace := by
    rintro before event after rfl
    exact fair event (by simp)
  have met := ((save_meets clear).run ran allowed).1
  rw [List.nil_append] at met
  refine met.now (fun _ held => held) ?_
  rintro (error | ⟨⟩) ended
  · exact ended.1
  · exact .inr ⟨congrArg Disk.target ended, .inr (congrArg Disk.settled ended)⟩

/-- How a save ends, by its outcome. -/
theorem save_ended (clear : start.temporary = none) {trace : Program.History (Answer ε)} {outcome : Except ε' Unit}
    (ran : Run Program.Step (save label platform data) trace (Program.lift outcome))
    (fair : ∀ event ∈ trace, Fair event.1 event.2) : Ended platform start data outcome trace := by
  have allowed : Program.Allowed (contract ε platform start data) [] trace := by
    rintro before event after rfl
    exact fair event (by simp)
  have ended := ((save_meets clear).run ran allowed).1
  cases outcome <;> exact ended

end

end Library.AtomicFile
