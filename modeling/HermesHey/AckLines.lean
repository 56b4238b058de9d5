import HermesHey.Watch
import HermesHey.Library.BufferedReader
import HermesHey.Library.GoJsonGrammar

/-! `watchEngine.waitForAck` and `readLimitedLine` of `watch.go`, on the bytes of the
sidecar's input. Every wait takes one line, however the input is cut into reads, and
nothing that is buffered for a later wait is lost. -/
namespace HermesHey.AckLines
open Library HermesHey.Sidecar
open Library.BufReader (cut Sliced)
open Library.GoJson (Bytes Value TextOf readValue decodeStruct storeString finds)

/-! ## The source -/

def newline : UInt8 := '\n'.toUInt8

/-- Errors of `readLimitedLine`. -/
inductive LineError where
  /-- `ack record too large` -/
  | tooLarge
  | slice (error : SliceError)
  deriving DecidableEq, Repr

/-- `io.EOF` -/
def endOfInput : LineError := .slice (.read .eof)

private theorem slice_full (full : (BufReader.readSlice r delim).1.2 = some .bufferFull) :
    0 < (BufReader.readSlice r delim).1.1.length := by
  fun_induction BufReader.readSlice r delim with
  | case1 _ _ _ _ => cases full
  | case2 r _ _ => cases other : r.err <;> simp [other] at full
  | case3 _ _ _ large => exact (capacity_pos _).trans_le large
  | case4 _ _ _ _ ih => exact ih full

/-- `readLimitedLine`, once it has read the bytes of `line` -/
def readLimitedLine (limit : ℕ) (r : BufReader size) (line : Bytes) : (Bytes × Option LineError) × BufReader size :=
  let part := (r.readSlice newline).1.1
  if _ : limit < line.length + part.length then (([], some .tooLarge), (r.readSlice newline).2)
  else if _ : (r.readSlice newline).1.2 = some .bufferFull then
    readLimitedLine limit (r.readSlice newline).2 (line ++ part)
  else ((line ++ part, (r.readSlice newline).1.2.map .slice), (r.readSlice newline).2)
termination_by limit - line.length
decreasing_by
  rename_i small full
  have some : 0 < part.length := slice_full full
  change limit - (line ++ part).length < _
  rw [List.length_append]
  omega

/-- `maxNDJSONBytes` -/
def maxNDJSONBytes : ℕ := 4 * 2 ^ 20

/-- The message of a reader's error. -/
def LineError.message : LineError → String
  | .tooLarge => "ack record too large"
  | .slice (.read .eof) => "EOF"
  | .slice (.read .noProgress) => "multiple Read calls return no data or error"
  | .slice .bufferFull => "bufio: buffer full"

/-- `errAckEOF` -/
def errAckEOF : GoError := .plain (text "ack input closed")

def invalidAck : GoError := .plain (text "invalid ack")

/-- What a member of the object does to `ack`; other fields are disallowed. -/
def storeAck (old : Text) (member : Text × Value) : Option Text :=
  if finds "ack" member.1 then storeString old member.2 else none

/-- The part of `waitForAck` that decodes the line. -/
def checkAck (line : Bytes) (eventID : Text) : Except GoError Unit :=
  match readValue line with
  | .error _ => .error invalidAck
  | .ok (value, rest) =>
    match decodeStruct storeAck [] value with
    | none => .error invalidAck
    | some ack =>
      if ack ≠ eventID then .error invalidAck
      else
        match readValue rest with
        | .error .eof => .ok ()
        | _ => .error invalidAck

/-- The part of `waitForAck` after `readLimitedLine`, while nothing is cancelled. -/
def judgeLine (line : Bytes) (err : Option LineError) (eventID : Text) : Except GoError Unit :=
  match err with
  | none => checkAck line eventID
  | some error =>
    if error = endOfInput then if line = [] then .error errAckEOF else checkAck line eventID
    else .error (.wrap (text "read ack") (.plain (text error.message)))

/-- The input of a `watchEngine` and its reader, which the first wait creates. -/
structure Engine (size : ℕ) where
  input : Option Source
  ackReader : Option (BufReader size)

/-- `watchEngine.waitForAck` -/
def waitForAck (e : Engine size) (eventID : Text) : Except GoError Unit × Engine size :=
  match e.input with
  | none => (.error errAckEOF, e)
  | some source =>
    let read := readLimitedLine maxNDJSONBytes (e.ackReader.getD (.new size source)) []
    (judgeLine read.1.1 read.1.2 eventID, { input := some read.2.source, ackReader := some read.2 })

/-- The waits of a run, over all its polls. The first that fails ends it and gives up the reader. -/
def waits (e : Engine size) : List Text → Except GoError Unit × Engine size
  | [] => (.ok (), e)
  | eventID :: rest =>
    match (waitForAck e eventID).1 with
    | .ok _ => waits (waitForAck e eventID).2 rest
    | .error error => (.error error, { (waitForAck e eventID).2 with ackReader := none })

/-! ## Lines -/

/-- The lines of a stream with their newlines, and what follows the last newline. -/
def lines : Bytes → List Bytes
  | [] => []
  | c :: rest =>
    if c = newline then [c] :: lines rest
    else
      match lines rest with
      | [] => [[c]]
      | line :: others => (c :: line) :: others

/-- The error that comes with a line: the end of the input, if it is not terminated. -/
def lineError (line : Bytes) : Option LineError := if line.getLast? = some newline then none else some endOfInput

/-- The member is a field `ack` that a string can be read from, or nothing. -/
def IsAck (member : Text × Value) : Prop :=
  finds "ack" member.1 = true ∧ (member.2 = .null ∨ ∃ s, member.2 = .string s)

/-- The strings of an object, in order. -/
def strings (members : GoJson.Members) : List Text := members.filterMap (·.2.string?)

/-- The line is one JSON object without a field but `ack`, whose last string is the event. -/
def Acknowledges (line : Bytes) (eventID : Text) : Prop :=
  ∃ members, TextOf line (.object members) ∧ (∀ member ∈ members, IsAck member) ∧
    (strings members).getLast? = some eventID

/-! ## Reading a line -/

/-- The first line of a stream, its error, and what follows it. -/
def takeLine (stream : Bytes) : (Bytes × Option LineError) × Bytes :=
  match cut newline stream with
  | some (line, left) => ((line, none), left)
  | none => ((stream, some endOfInput), [])

private theorem cut_append (absent : newline ∉ part) :
    cut newline (part ++ left) = (cut newline left).map fun found => (part ++ found.1, found.2) := by
  induction part with
  | nil => cases found : cut newline left <;> exact found
  | cons c part ih =>
    rw [List.mem_cons, not_or] at absent
    rw [List.cons_append, cut, if_neg (Ne.symm absent.1), ih absent.2, Option.map_map]
    rfl

private theorem takeLine_append (absent : newline ∉ part) :
    takeLine (part ++ left) = ((part ++ (takeLine left).1.1, (takeLine left).1.2), (takeLine left).2) := by
  unfold takeLine
  rw [cut_append absent]
  cases cut newline left <;> rfl

private theorem takeLine_absent (absent : newline ∉ stream) : takeLine stream = ((stream, some endOfInput), []) := by
  rw [takeLine, BufReader.cut_eq_none.mpr absent]

private theorem takeLine_full (sliced : Sliced newline size stream slice left) (full : slice.2 = some .bufferFull) :
    takeLine stream = ((slice.1 ++ (takeLine left).1.1, (takeLine left).1.2), (takeLine left).2) := by
  cases sliced with
  | line _ => cases full
  | full absent _ split =>
    rw [← split]
    exact takeLine_append absent
  | last _ => cases full

private theorem takeLine_final (sliced : Sliced newline size stream slice left) (final : slice.2 ≠ some .bufferFull) :
    takeLine stream = ((slice.1, slice.2.map .slice), left) := by
  cases sliced with
  | line found => simp [takeLine, found]
  | full _ _ _ => exact absurd rfl final
  | last absent => exact takeLine_absent absent

private theorem slice_length (sliced : Sliced newline size stream slice left) :
    slice.1.length ≤ (takeLine stream).1.1.length := by
  by_cases full : slice.2 = some .bufferFull
  · rw [takeLine_full sliced full, List.length_append]
    exact Nat.le_add_right _ _
  · rw [takeLine_final sliced full]

/-- What `readLimitedLine` returns of a stream, once it has read the bytes of `line`. -/
structure TakesLine (limit : ℕ) (line stream : Bytes) (outcome : Bytes × Option LineError) (left : Bytes) : Prop where
  fits : line.length + (takeLine stream).1.1.length ≤ limit →
    outcome = (line ++ (takeLine stream).1.1, (takeLine stream).1.2) ∧ left = (takeLine stream).2
  large : limit < line.length + (takeLine stream).1.1.length → outcome = ([], some .tooLarge)

/-- Slices add up to the line or go over the limit; induction on the rounds of the loop. -/
theorem readLimitedLine_takes {r : BufReader size} (sound : r.Sound) (line : Bytes) :
    TakesLine limit line r.pending (readLimitedLine limit r line).1 (readLimitedLine limit r line).2.pending ∧
      (readLimitedLine limit r line).2.Sound := by
  fun_induction readLimitedLine limit r line with
  | case1 r line part larger =>
    obtain ⟨sliced, after⟩ := BufReader.readSlice_sound sound newline
    have longer : part.length ≤ (takeLine r.pending).1.1.length := slice_length sliced
    exact ⟨⟨fun fits => by omega, fun _ => rfl⟩, after⟩
  | case2 r line part small full ih =>
    obtain ⟨sliced, after⟩ := BufReader.readSlice_sound sound newline
    obtain ⟨takes, sound'⟩ := ih after
    have front := takeLine_full sliced full
    refine ⟨?_, sound'⟩
    constructor
    · intro fits
      rw [front] at fits ⊢
      rw [List.length_append, ← Nat.add_assoc, ← List.length_append] at fits
      rw [← List.append_assoc]
      exact takes.fits fits
    · intro large
      rw [front, List.length_append, ← Nat.add_assoc, ← List.length_append] at large
      exact takes.large large
  | case3 r line part small final =>
    obtain ⟨sliced, after⟩ := BufReader.readSlice_sound sound newline
    have whole := takeLine_final sliced final
    refine ⟨⟨fun _ => ?_, fun large => ?_⟩, after⟩
    · rw [whole]
      exact ⟨rfl, rfl⟩
    · rw [whole] at large
      exact absurd large small

/-! ## One line after another -/

private theorem takeLine_nil : takeLine [] = (([], some endOfInput), []) := rfl

/-- A stream that has not ended is its first line and the lines after it. -/
theorem lines_takeLine (some : stream ≠ []) : lines stream = (takeLine stream).1.1 :: lines (takeLine stream).2 := by
  induction stream with
  | nil => exact absurd rfl some
  | cons c rest ih =>
    rw [lines]
    by_cases terminated : c = newline
    · simp [takeLine, cut, terminated]
    · have absent : newline ∉ [c] := by simpa [eq_comm] using terminated
      have front : takeLine (c :: rest) = _ := takeLine_append absent
      rw [if_neg terminated, front]
      cases rest with
      | nil => rfl
      | cons d rest => rw [ih (List.cons_ne_nil d rest)]; rfl

private theorem takeLine_error (stream : Bytes) : (takeLine stream).1.2 = lineError (takeLine stream).1.1 := by
  unfold takeLine lineError
  split
  · rename_i line left found
    obtain ⟨front, _, rfl, _⟩ := BufReader.cut_eq_some.mp found
    simp
  · rename_i absent
    have last : stream.getLast? ≠ Option.some newline := fun last =>
      BufReader.cut_eq_none.mp absent (List.mem_of_getLast? last)
    rw [if_neg last]

private theorem lines_flatten (stream : Bytes) : (lines stream).flatten = stream := by
  induction stream with
  | nil => rfl
  | cons c rest ih =>
    rw [lines]
    split
    · simp [ih]
    · split
      · rename_i none
        rw [none] at ih
        simp [← ih]
      · rename_i line others found
        rw [found] at ih
        simp [← ih]

private theorem stream_some (head : (lines stream).head? = some line) : stream ≠ [] := by
  rintro rfl
  cases head

private theorem head_fits (head : (lines stream).head? = some line) (fits : line.length ≤ limit) :
    ∀ first ∈ (lines stream).head?, first.length ≤ limit := by
  intro first held
  rw [head] at held
  cases held
  exact fits

private theorem readLimitedLine_fits {r : BufReader size} (sound : r.Sound)
    (fits : ∀ line ∈ (lines r.pending).head?, line.length ≤ limit) :
    (readLimitedLine limit r []).1 = (takeLine r.pending).1 ∧
      lines (readLimitedLine limit r []).2.pending = (lines r.pending).tail := by
  have takes : TakesLine limit _ _ _ _ := (readLimitedLine_takes sound []).1
  by_cases ended : r.pending = []
  · rw [ended] at takes ⊢
    obtain ⟨same, left⟩ := takes.fits (Nat.zero_le _)
    exact ⟨same, by rw [left]; rfl⟩
  · rw [lines_takeLine ended] at fits ⊢
    obtain ⟨same, left⟩ := takes.fits (by simpa using fits _ rfl)
    exact ⟨same, by rw [left]; rfl⟩

private theorem readLimitedLine_large {r : BufReader size} (sound : r.Sound)
    (head : (lines r.pending).head? = some line)
    (large : limit < line.length) : (readLimitedLine limit r []).1 = ([], some .tooLarge) := by
  have takes : TakesLine limit _ _ _ _ := (readLimitedLine_takes sound []).1
  have more := stream_some head
  rw [lines_takeLine more] at head
  cases head
  exact takes.large (by simpa using large)

/-- The reader after so many lines. -/
def afterLines (limit : ℕ) (r : BufReader size) : ℕ → BufReader size
  | 0 => r
  | k + 1 => afterLines limit (readLimitedLine limit r []).2 k

/-- The lines that were returned are gone, and all others are left; induction on their number. -/
theorem lines_afterLines {r : BufReader size} (sound : r.Sound) (k : ℕ)
    (fits : ∀ line ∈ (lines r.pending).take k, line.length ≤ limit) :
    lines (afterLines limit r k).pending = (lines r.pending).drop k ∧ (afterLines limit r k).Sound := by
  induction k generalizing r with
  | zero => exact ⟨rfl, sound⟩
  | succ k ih =>
    have head : ∀ line ∈ (lines r.pending).head?, line.length ≤ limit := by
      intro line held
      cases listed : lines r.pending with
      | nil =>
        rw [listed] at held
        cases held
      | cons first others =>
        rw [listed] at held fits
        cases held
        exact fits _ List.mem_cons_self
    obtain ⟨_, left⟩ := readLimitedLine_fits sound head
    have tail : ∀ line ∈ (lines (readLimitedLine limit r []).2.pending).take k, line.length ≤ limit := by
      intro line held
      rw [left] at held
      cases listed : lines r.pending with
      | nil =>
        rw [listed] at held
        simp at held
      | cons first others =>
        rw [listed] at held fits
        exact fits line (List.mem_cons_of_mem _ held)
    obtain ⟨rest, later⟩ := ih (readLimitedLine_takes sound []).2 tail
    exact ⟨by rw [afterLines, rest, left, List.drop_tail], later⟩

/-! ## Acknowledgements -/

private theorem storeAck_eq_some : storeAck old member = some new ↔ IsAck member ∧ member.2.string?.getD old = new := by
  obtain ⟨key, value⟩ := member
  by_cases found : finds "ack" key = true
  · cases value <;> simp [storeAck, storeString, IsAck, found, GoJson.Value.string?]
  · simp [storeAck, IsAck, found]

private theorem storeAck_members (members : GoJson.Members) (old ack : Text) :
    members.foldlM storeAck old = some ack ↔
      (∀ member ∈ members, IsAck member) ∧ (strings members).getLast?.getD old = ack := by
  induction members generalizing old with
  | nil => simp [strings]
  | cons member rest ih =>
    have last : (strings (member :: rest)).getLast?.getD old =
        (strings rest).getLast?.getD (member.2.string?.getD old) := by
      unfold strings
      rw [List.filterMap_cons]
      cases member.2.string? with
      | none => rfl
      | some s => cases rest.filterMap (·.2.string?) <;> simp [List.getLast?_cons]
    rw [List.foldlM_cons, List.forall_mem_cons, last]
    constructor
    · intro ran
      obtain ⟨next, stored, ran⟩ := Option.bind_eq_some_iff.mp ran
      obtain ⟨first, rfl⟩ := storeAck_eq_some.mp stored
      obtain ⟨others, final⟩ := (ih _).mp ran
      exact ⟨⟨first, others⟩, final⟩
    · rintro ⟨⟨first, others⟩, final⟩
      exact Option.bind_eq_some_iff.mpr ⟨_, storeAck_eq_some.mpr ⟨first, rfl⟩, (ih _).mpr ⟨others, final⟩⟩

private theorem decode_iff (named : eventID ≠ []) : decodeStruct storeAck [] value = some eventID ↔
    ∃ members, value = .object members ∧ (∀ member ∈ members, IsAck member) ∧
      (strings members).getLast? = some eventID := by
  cases value with
  | object members =>
    have last : (strings members).getLast?.getD [] = eventID ↔ (strings members).getLast? = some eventID := by
      cases (strings members).getLast? <;> simp [Ne.symm named]
    simp [decodeStruct, storeAck_members, last]
  | null => simp [decodeStruct, Ne.symm named]
  | bool _ => simp [decodeStruct]
  | number _ => simp [decodeStruct]
  | string _ => simp [decodeStruct]
  | array _ => simp [decodeStruct]

/-- The decoder is satisfied by the acknowledgements of the event and by nothing else. -/
theorem checkAck_iff (named : eventID ≠ []) : checkAck line eventID = .ok () ↔ Acknowledges line eventID := by
  unfold checkAck
  constructor
  · intro accepted
    split at accepted
    · cases accepted
    rename_i value rest found
    split at accepted
    · cases accepted
    rename_i ack decoded
    split at accepted
    · cases accepted
    rename_i same
    split at accepted
    · rename_i ended
      have same : ack = eventID := not_not.mp same
      subst same
      obtain ⟨members, rfl, each, last⟩ := (decode_iff named).mp decoded
      exact ⟨members, GoJson.readValue_blank.mp ⟨rest, found, GoJson.readValue_eof.mp ended⟩, each, last⟩
    · cases accepted
  · rintro ⟨members, spelled, each, last⟩
    obtain ⟨rest, found, blank⟩ := GoJson.readValue_blank.mpr spelled
    have decoded := (decode_iff named).mpr ⟨members, rfl, each, last⟩
    have ended := GoJson.readValue_eof.mpr blank
    simp [found, decoded, ended]

/-! ## Waits -/

/-- The reader of the next wait. -/
def Engine.reader (e : Engine size) : Option (BufReader size) := e.input.map fun source => e.ackReader.getD (.new size source)

private theorem waitForAck_reader {e : Engine size} (opened : e.reader = some r) (eventID : Text) :
    waitForAck e eventID = (judgeLine (readLimitedLine maxNDJSONBytes r []).1.1 (readLimitedLine maxNDJSONBytes r []).1.2 eventID,
      ⟨some (readLimitedLine maxNDJSONBytes r []).2.source, some (readLimitedLine maxNDJSONBytes r []).2⟩) := by
  obtain ⟨source, given, rfl⟩ := Option.map_eq_some_iff.mp opened
  rw [waitForAck, given]

private theorem takeLine_some (more : stream ≠ []) : (takeLine stream).1.1 ≠ [] := by
  unfold takeLine
  split
  · rename_i found
    obtain ⟨front, _, rfl, _⟩ := BufReader.cut_eq_some.mp found
    exact List.append_ne_nil_of_right_ne_nil front (List.cons_ne_nil _ _)
  · exact more

private theorem readLimitedLine_head {r : BufReader size} (sound : r.Sound)
    (head : (lines r.pending).head? = some line)
    (fits : line.length ≤ limit) : (readLimitedLine limit r []).1 = (line, lineError line) ∧ line ≠ [] := by
  have more := stream_some head
  rw [(readLimitedLine_fits sound (head_fits head fits)).1, ← Prod.mk.eta (p := (takeLine r.pending).1), takeLine_error]
  rw [lines_takeLine more] at head
  cases head
  exact ⟨rfl, takeLine_some more⟩

private theorem readLimitedLine_ended {r : BufReader size} (sound : r.Sound) (ended : lines r.pending = []) :
    (readLimitedLine limit r []).1 = ([], some endOfInput) := by
  have none : r.pending = [] := by rw [← lines_flatten r.pending, ended, List.flatten_nil]
  have within : ∀ line ∈ (lines r.pending).head?, line.length ≤ limit := by
    rw [ended]
    rintro line ⟨⟩
  rw [(readLimitedLine_fits sound within).1, none, takeLine_nil]

private theorem judgeLine_line (some : line ≠ []) : judgeLine line (lineError line) eventID = checkAck line eventID := by
  unfold lineError
  split
  · rfl
  · simp [judgeLine, some]

private theorem judgeLine_large : judgeLine [] (some .tooLarge) eventID ≠ .ok () := by
  intro accepted
  cases accepted

/-- A wait succeeds when the next line fits and acknowledges the event. -/
theorem waitForAck_iff {e : Engine size} (opened : e.reader = some r) (sound : r.Sound) :
    (waitForAck e eventID).1 = .ok () ↔
      ∃ line, (lines r.pending).head? = some line ∧ line.length ≤ maxNDJSONBytes ∧ checkAck line eventID = .ok () := by
  rw [waitForAck_reader opened]
  cases head : (lines r.pending).head? with
  | none =>
    rw [readLimitedLine_ended sound (List.head?_eq_none_iff.mp head)]
    simp [judgeLine]
  | some line =>
    by_cases fits : line.length ≤ maxNDJSONBytes
    · obtain ⟨result, some⟩ := readLimitedLine_head sound head fits
      rw [result, judgeLine_line some]
      simp [fits]
    · rw [readLimitedLine_large sound head (not_le.mp fits)]
      simp [fits, judgeLine_large]

/-- A wait that succeeds leaves the lines after its own. -/
theorem waitForAck_left {e : Engine size} (opened : e.reader = some r) (sound : r.Sound)
    (succeeded : (waitForAck e eventID).1 = .ok ()) :
    ∃ r', (waitForAck e eventID).2.reader = some r' ∧ r'.Sound ∧ lines r'.pending = (lines r.pending).tail := by
  obtain ⟨line, head, fits, _⟩ := (waitForAck_iff opened sound).mp succeeded
  refine ⟨(readLimitedLine maxNDJSONBytes r []).2, ?_, (readLimitedLine_takes sound []).2,
    (readLimitedLine_fits sound (head_fits head fits)).2⟩
  rw [waitForAck_reader opened]
  rfl

/-- Every wait of a run that went on took one line; induction on the run. -/
theorem waits_left {e : Engine size} (opened : e.reader = some r) (sound : r.Sound)
    (succeeded : (waits e eventIDs).1 = .ok ()) :
    ∃ r', (waits e eventIDs).2.reader = some r' ∧ r'.Sound ∧ lines r'.pending = (lines r.pending).drop eventIDs.length := by
  induction eventIDs generalizing e r with
  | nil => exact ⟨r, opened, sound, rfl⟩
  | cons eventID rest ih =>
    rw [waits] at succeeded ⊢
    cases first : (waitForAck e eventID).1 with
    | error error =>
      rw [first] at succeeded
      cases succeeded
    | ok value =>
      rw [first] at succeeded
      obtain ⟨r', reader, later, left⟩ := waitForAck_left opened sound first
      obtain ⟨last, final, ended, rest⟩ := ih reader later succeeded
      refine ⟨last, final, ended, ?_⟩
      rw [rest, left, List.drop_tail, List.length_cons]

/-- What `poll` is told of a line: the acknowledged event, if the line decodes. -/
def ackAnswer (line : Bytes) (err : Option LineError) : Except GoError (Option Text) :=
  match err with
  | none => .ok (decoded line)
  | some error =>
    if error = endOfInput then if line = [] then .error errAckEOF else .ok (decoded line)
    else .error (.wrap (text "read ack") (.plain (text error.message)))
where
  decoded (line : Bytes) : Option Text :=
    match readValue line with
    | .error _ => none
    | .ok (value, rest) =>
      match readValue rest with
      | .error .eof => decodeStruct storeAck [] value
      | _ => none

private theorem checkAck_decoded (line : Bytes) (eventID : Text) :
    (ackAnswer.decoded line = some eventID → checkAck line eventID = .ok ()) ∧
      (ackAnswer.decoded line ≠ some eventID → checkAck line eventID = .error invalidAck) := by
  unfold checkAck ackAnswer.decoded
  cases readValue line with
  | error _ => simp
  | ok found =>
    obtain ⟨value, rest⟩ := found
    dsimp only
    generalize decodeStruct storeAck [] value = decoded
    generalize readValue rest = left
    cases decoded with
    | none => cases left with
      | ok _ => simp
      | error error => cases error <;> simp
    | some ack => cases left with
      | ok _ => simp
      | error error => cases error <;> simp +contextual

/-- The wait of `poll` once its call is answered. -/
def answered (eventID : Text) : Except GoError (Option Text) → Go Unit
  | .error error => .fail error
  | .ok none => .fail invalidAck
  | .ok (some ack) => require (ack = eventID) "invalid ack"

private theorem waitForAck_call (eventID : Text) : Sidecar.waitForAck eventID = .call (.readAck eventID) (answered eventID) := by
  refine congrArg _ (funext fun outcome => ?_)
  cases outcome with
  | error _ => rfl
  | ok decoded => cases decoded <;> rfl

private theorem answered_decoded (line : Bytes) (eventID : Text) :
    answered eventID (.ok (ackAnswer.decoded line)) = Program.lift (checkAck line eventID) := by
  obtain ⟨accepted, refused⟩ := checkAck_decoded line eventID
  cases decoded : ackAnswer.decoded line with
  | none =>
    rw [refused (by simp [decoded])]
    rfl
  | some ack =>
    by_cases same : ack = eventID
    · rw [accepted (by rw [decoded, same])]
      exact if_pos (decide_eq_true same)
    · rw [refused (by simp [decoded, same])]
      exact if_neg (by simp [same])

/-- The wait of `poll`, which only sees the answer, decides as the wait on bytes does. -/
theorem answered_line (line : Bytes) (err : Option LineError) (eventID : Text) :
    answered eventID (ackAnswer line err) = Program.lift (judgeLine line err eventID) := by
  cases err with
  | none => exact answered_decoded line eventID
  | some error =>
    by_cases ended : error = endOfInput
    · by_cases empty : line = []
      · simp only [ackAnswer, judgeLine, if_pos ended, if_pos empty]
        rfl
      · simp only [ackAnswer, judgeLine, if_pos ended, if_neg empty]
        exact answered_decoded line eventID
    · simp only [ackAnswer, judgeLine, if_neg ended]
      rfl

/-- `waitForAck` on an open input, before its first wait. -/
def Engine.start (size : ℕ) (stream : Source) : Engine size := { input := some stream, ackReader := none }

theorem eventIdentity_some : eventIdentity threadID entryID ≠ [] := by
  have front : text "thread:" ≠ [] := by decide
  simp [eventIdentity, front]

/-- **Acknowledgements are consumed one line per wait.** Whatever the reads and the size of
the buffer, each call of `readLimitedLine` gives the next line of the stream, and the next
wait of a run succeeds exactly when the next line acknowledges its event. -/
theorem acks_one_per_line (size limit : ℕ) (stream : Source) (progress : stream.Progress) :
    (∀ k, (∀ line ∈ (lines stream.rest).take k, line.length ≤ limit) →
      (∀ line, (lines stream.rest)[k]? = some line →
        (readLimitedLine limit (afterLines limit (.new size stream) k) []).1 =
          if line.length ≤ limit then (line, lineError line) else ([], some .tooLarge)) ∧
      ((lines stream.rest).length ≤ k →
        (readLimitedLine limit (afterLines limit (.new size stream) k) []).1 = ([], some endOfInput)) ∧
      (afterLines limit (.new size stream) k).pending = ((lines stream.rest).drop k).flatten) ∧
    ∀ eventIDs, (waits (.start size stream) eventIDs).1 = .ok () →
      (∃ r, (waits (.start size stream) eventIDs).2.reader = some r ∧
        r.pending = ((lines stream.rest).drop eventIDs.length).flatten) ∧
      ∀ threadID entryID,
        (waitForAck (waits (.start size stream) eventIDs).2 (eventIdentity threadID entryID)).1 = .ok () ↔
          ∃ line, (lines stream.rest)[eventIDs.length]? = some line ∧ line.length ≤ maxNDJSONBytes ∧
            Acknowledges line (eventIdentity threadID entryID) := by
  have sound : (BufReader.new size stream).Sound := BufReader.sound_new progress
  constructor
  · intro k fits
    obtain ⟨left, later⟩ := lines_afterLines sound k fits
    rw [BufReader.pending_new] at left
    refine ⟨fun line here => ?_, fun ended => ?_, ?_⟩
    · have head : (lines (afterLines limit (.new size stream) k).pending).head? = some line := by
        rw [left, List.head?_drop, here]
      split
      · exact (readLimitedLine_head later head ‹_›).1
      · exact readLimitedLine_large later head (not_le.mp ‹_›)
    · apply readLimitedLine_ended later
      rw [left, List.drop_eq_nil_of_le ended]
    · rw [← left, lines_flatten]
  · intro eventIDs succeeded
    have fresh : (Engine.start size stream).reader = some (.new size stream) := rfl
    obtain ⟨r, opened, later, left⟩ := waits_left fresh sound succeeded
    rw [BufReader.pending_new] at left
    refine ⟨⟨r, opened, by rw [← left, lines_flatten]⟩, fun threadID entryID => ?_⟩
    rw [waitForAck_iff opened later, left, List.head?_drop]
    simp only [checkAck_iff eventIdentity_some]

/-- The line that acknowledges an entry of a thread, with the field's name as given. -/
def sampleLine (field thread entry : String) : Bytes :=
  Strconv.bytes "\x7b\"" ++ Strconv.bytes field ++ Strconv.bytes "\":\"thread:" ++ Strconv.bytes thread ++
    Strconv.bytes ":entry:" ++ Strconv.bytes entry ++ Strconv.bytes "\"\x7d\n"

/-- Two lines that arrive five bytes at a time. -/
def sampleStream : Source where
  rest := sampleLine "ack" "31" "41" ++ sampleLine "ACK" "32" "41"
  cuts := fun _ => 5
  eager := true

private theorem sample_first : Acknowledges (sampleLine "ack" "31" "41") (eventIdentity 31 41) := by
  refine ⟨[(text "ack", .string (eventIdentity 31 41))], GoJson.parse_eq_some.mp rfl, ?_, rfl⟩
  exact List.forall_mem_singleton.mpr ⟨by decide, .inr ⟨_, rfl⟩⟩

private theorem sample_second : Acknowledges (sampleLine "ACK" "32" "41") (eventIdentity 32 41) := by
  refine ⟨[(text "ACK", .string (eventIdentity 32 41))], GoJson.parse_eq_some.mp rfl, ?_, rfl⟩
  exact List.forall_mem_singleton.mpr ⟨by decide, .inr ⟨_, rfl⟩⟩

/-- Both waits of a run over two events succeed. -/
theorem acks_one_per_line_sample :
    (waits (.start 4096 sampleStream) [eventIdentity 31 41]).1 = .ok () ∧
      (waitForAck (waits (.start 4096 sampleStream) [eventIdentity 31 41]).2 (eventIdentity 32 41)).1 = .ok () := by
  have progress : sampleStream.Progress := fun _ => ⟨0, Nat.succ_pos 99, Nat.succ_pos 4⟩
  obtain ⟨_, run⟩ := acks_one_per_line 4096 maxNDJSONBytes sampleStream progress
  have first : (waitForAck (.start 4096 sampleStream) (eventIdentity 31 41)).1 = .ok () :=
    ((run [] rfl).2 31 41).mpr ⟨sampleLine "ack" "31" "41", by decide +kernel, by decide +kernel, sample_first⟩
  have ran : (waits (.start 4096 sampleStream) [eventIdentity 31 41]).1 = .ok () := by
    rw [waits, first]
    rfl
  exact ⟨ran, ((run [eventIdentity 31 41] ran).2 32 41).mpr
    ⟨sampleLine "ACK" "32" "41", by decide +kernel, by decide +kernel, sample_second⟩⟩

end HermesHey.AckLines
