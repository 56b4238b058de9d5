import HermesHey.Library.JsonBytes
import HermesHey.SidecarReply

/-! One invocation of the sidecar by `client.py`, and what the adapter makes of
its outcome: only the exit status 75 asks for a retry. -/
namespace HermesHey.Sidecar
open Library Library.Json HermesHey.Core Adapter

/-! ## An invocation -/

/-- How the process ended. -/
inductive Ending where
  | exited (result : Except GoError Unit)
  | signalled (signal : Nat)
  /-- By the Go runtime, after a panic. -/
  | crashed
  /-- By `TerminateJobObject`. -/
  | terminated

/-- `process.returncode` -/
def Ending.returncode : Ending → Int
  | .exited result => exitStatus result
  | .signalled signal => .negSucc signal
  | .crashed => 2
  | .terminated => 1

/-- One run of the sidecar's program, cut off anywhere, as the runner sees it. -/
structure Invocation (program : Go Unit) where
  trace : History
  rest : Go Unit
  ran : Run Program.Step program trace rest
  /-- No `OSError` when the process was started and attached. -/
  started : Bool
  timedOut : Bool
  ending : Ending
  exited : ∀ result, ending = .exited result → rest = Program.lift result
  /-- How many bytes of the standard output the reader got. -/
  read : Nat

/-- What the calls wrote to the standard output. -/
def stdout (trace : History) : Text := trace.flatMap fun
  | ⟨.write record, written⟩ => record.take (Written.count written)
  | _ => []

/-- `_MAX_SIDECAR_OUTPUT`, in bytes -/
def maxSidecarOutput : Nat := 1048576

/-- `_reject_duplicate_keys` -/
def rejectDuplicateKeys (pairs : Members) : Except ScanError Value :=
  if (pairs.map Prod.fst).Nodup then .ok (.obj pairs) else .error .refused

/-- `_decode_sidecar_json` of a string -/
def decodeSidecarJson (output : Text) : Except ScanError Value := loads rejectDuplicateKeys output

/-- `_decode_sidecar_json` of bytes; a `UnicodeDecodeError` is handled as a malformed document. -/
def decodeSidecarBytes (codec : Encoding → List UInt8 → Option Text) (output : List UInt8) : Except ScanError Value :=
  match decodeBytes codec output with
  | none => .error .malformed
  | some decoded => decodeSidecarJson decoded

/-- What the runner accepts of its output: bytes of a known encoding, and a document in them. -/
theorem decodeSidecarBytes_eq_ok : decodeSidecarBytes codec output = .ok value ↔
    ∃ decoded, decodeBytes codec output = some decoded ∧ decodeSidecarJson decoded = .ok value := by
  rw [decodeSidecarBytes]
  cases decodeBytes codec output <;> simp

variable {program : Go Unit}

/-- The bytes that `run` has read of the standard output. -/
def Invocation.output (invocation : Invocation program) : List UInt8 :=
  (Text.utf8 (stdout invocation.trace)).take (min invocation.read (maxSidecarOutput + 1))

/-- `f"HEY SDK {operation} …"` -/
def report (operation detail : Text) : PyError := .runtime (text "HEY SDK " ++ operation ++ text " " ++ detail)

/-- `run` of `make_sidecar_runner` -/
def runSidecar (codec : Encoding → List UInt8 → Option Text) (operation : Text) (invocation : Invocation program) : Except PyError Members :=
  if ¬ invocation.started then .error (report operation (text "could not start"))
  else if invocation.timedOut then .error (report operation (text "timed out"))
  else if maxSidecarOutput < invocation.output.length then
    .error (report operation (text "returned oversized JSON"))
  else if invocation.ending.returncode ≠ 0 then
    .error (report operation (text "failed (exit " ++ decimalInt invocation.ending.returncode ++ text ")"))
  else
    match decodeSidecarBytes codec invocation.output with
    | .error .malformed | .error .refused => .error (report operation (text "returned invalid JSON"))
    | .error .digits | .error .depth => .error (.value [])
    | .ok (.obj result) => .ok result
    | .ok _ => .error (.type (text "HEY SDK " ++ operation ++ text " returned invalid JSON"))

/-- `client.reply` and `client.comment` -/
def callMutation (codec : Encoding → List UInt8 → Option Text) (method : Method) (invocation : Invocation program) : Outcome :=
  match runSidecar codec method.name invocation with
  | .error (.runtime reason) => .runtime reason
  | .error _ => .failed
  | .ok result =>
    if sameKeys (result.map Prod.fst) [text "ok"] && result.lookup (text "ok") == some (.bool true) then
      .returned (.obj result)
    else .runtime (text "HEY SDK " ++ method.name ++ text " failed")

/-! ## The message and the regular expression -/

def Ascii (t : Text) : Prop := ∀ point ∈ t, point.code < 128

private theorem ascii_append : Ascii (s ++ t) ↔ Ascii s ∧ Ascii t := List.forall_mem_append

private theorem digit_code {c : Char} (digit : c.isDigit = true) : 48 ≤ c.toNat ∧ c.toNat ≤ 57 := by
  simp only [Char.isDigit, Bool.and_eq_true, decide_eq_true_eq] at digit
  exact ⟨digit.1, digit.2⟩

private theorem decimal_points (n : Nat) : ∀ point ∈ decimal n, ∃ c : Char, point = ch c ∧ c.isDigit = true := by
  intro point held
  have digit := decimal_isDigit held
  cases point with
  | surrogate offset => cases digit
  | scalar c => exact ⟨c, rfl, digit⟩

private theorem decimalInt_points (n : Int) :
    ∀ point ∈ decimalInt n, point = ch '-' ∨ ∃ c : Char, point = ch c ∧ c.isDigit = true := by
  cases n with
  | ofNat n => exact fun point held => .inr (decimal_points n point held)
  | negSucc n =>
    rw [decimalInt, List.forall_mem_cons]
    exact ⟨.inl rfl, fun point held => .inr (decimal_points (n + 1) point held)⟩

private theorem ascii_decimalInt (n : Int) : Ascii (decimalInt n) := by
  intro point held
  rcases decimalInt_points n point held with rfl | ⟨c, rfl, digit⟩
  · decide
  · exact Nat.lt_of_le_of_lt (digit_code digit).2 (by decide)

private theorem lower_decimalInt (n : Int) : (decimalInt n).map asciiLower = decimalInt n := by
  have same : ∀ point ∈ decimalInt n, asciiLower point = point := by
    intro point held
    rcases decimalInt_points n point held with rfl | ⟨c, rfl, digit⟩
    · rfl
    · have small := (digit_code digit).2
      have unchanged : c.toLower = c := by
        refine dif_neg ?_
        rintro ⟨upper, _⟩
        have large : 65 ≤ c.toNat := upper
        omega
      rw [asciiLower, unchanged]
  rw [List.map_congr_left same, List.map_id']

private theorem takeWhile_congr {p q : α → Bool} {xs : List α} (same : ∀ x ∈ xs, p x = q x) :
    xs.takeWhile p = xs.takeWhile q := by
  induction xs with
  | nil => rfl
  | cons x xs ih =>
    obtain ⟨first, others⟩ := List.forall_mem_cons.mp same
    rw [List.takeWhile_cons, List.takeWhile_cons, first, ih others]

private theorem exitDigits_ascii (py : PyText) (ascii : Ascii t) : exitDigits py t = exitDigits .ascii t := by
  have same : ∀ point ∈ (t.drop 4).dropWhile isWhite, py.digit point = PyText.ascii.digit point := by
    intro point held
    exact py.digit_ascii point (ascii point
      ((List.drop_sublist _ _).subset ((List.dropWhile_sublist _).subset held)))
  have taken := takeWhile_congr (p := fun point => (py.digit point).isSome)
    (q := fun point => (PyText.ascii.digit point).isSome) fun point held => by rw [same point held]
  have read : ∀ point ∈ ((t.drop 4).dropWhile isWhite).takeWhile fun point => (PyText.ascii.digit point).isSome,
      py.digit point = PyText.ascii.digit point :=
    fun point held => same point ((List.takeWhile_sublist _).subset held)
  simp only [exitDigits, taken, List.filterMap_congr read]

private theorem searchExit_ascii (py : PyText) (ascii : Ascii t) : searchExit py t = searchExit .ascii t := by
  induction t with
  | nil => rfl
  | cons point rest ih =>
    rw [searchExit, searchExit, exitDigits_ascii py ascii, ih (List.forall_mem_cons.mp ascii).2]

private theorem asciiLower_code (small : point.code < 128) : (asciiLower point).code < 128 := by
  cases point with
  | surrogate offset => exact small
  | scalar c =>
    have bound : c.toNat < 128 := small
    rw [asciiLower]
    delta Char.toLower
    split
    · rename_i upper
      have top : c.val.toNat ≤ 90 := upper.2
      have shifted : (c.val + ('a'.val - 'A'.val)).toNat < 128 := by
        rw [UInt32.toNat_add]
        have gap : ('a'.val - 'A'.val).toNat = 32 := rfl
        omega
      exact shifted
    · exact bound

/-- On the runner's messages the tables beyond the ASCII range do not matter. -/
theorem retryable_ascii (py : PyText) (ascii : Ascii t) : retryable py t = retryable .ascii t := by
  have lowered : Ascii (t.map asciiLower) := by
    intro point held
    obtain ⟨old, inside, rfl⟩ := List.mem_map.mp held
    exact asciiLower_code (ascii old inside)
  have lower : py.lower t = t.map asciiLower := py.lower_ascii t ascii
  rw [retryable, retryable, lower, searchExit_ascii py lowered]
  rfl

private theorem digits_decimal (n : Nat) :
    ((decimal n).filterMap PyText.ascii.digit).foldl (fun n digit => 10 * n + digit) 0 = n := by
  have value : ∀ cs : List Char, (∀ c ∈ cs, c.isDigit = true) →
      (cs.map ch).filterMap PyText.ascii.digit = cs.map fun c => c.toNat - 48 := by
    intro cs digits
    rw [List.filterMap_map, ← List.filterMap_eq_map]
    apply List.filterMap_congr
    intro c held
    simp [PyText.ascii, CodePoint.isDigit, CodePoint.code, digits c held]
  have printed : ∀ c ∈ Nat.toDigits 10 n, c.isDigit = true :=
    fun c held => Nat.isDigit_of_mem_toDigits (by decide) (by decide) held
  have read : digitsValue (decimal n) = n := digitsValue_decimal n
  rw [digitsValue, decimal, List.filterMap_map, Nat.ofDigitChars_eq_foldl] at read
  rw [decimal, value _ printed, List.foldl_map]
  simpa [Function.comp_def, CodePoint.scalar?] using read

private theorem searchExit_none (absent : ch 'e' ∉ t) : searchExit .ascii t = none := by
  induction t with
  | nil => rfl
  | cons point rest ih =>
    have first : ch 'e' ≠ point := fun same => absent (by rw [same]; exact List.mem_cons_self)
    have later : searchExit .ascii rest = none := ih fun held => absent (List.mem_cons_of_mem _ held)
    have unmatched : (text "exit").isPrefixOf (point :: rest) = false := by
      have head : (ch 'e' == point) = false := beq_false_of_ne first
      change (ch 'e' == point && (text "xit").isPrefixOf rest) = false
      rw [head, Bool.false_and]
    simp [searchExit, exitDigits, unmatched, later]

private theorem exitDigits_status (visible : isWhite point = false) :
    exitDigits .ascii (text "exit " ++ point :: rest) =
      match ((point :: rest).takeWhile CodePoint.isDigit).filterMap PyText.ascii.digit with
      | [] => none
      | digits => some digits := by
  have spelled : text "exit " ++ point :: rest = text "exit" ++ ch ' ' :: point :: rest := rfl
  have matched : (text "exit").isPrefixOf (text "exit" ++ ch ' ' :: point :: rest) = true := by simp
  have dropped : (text "exit" ++ ch ' ' :: point :: rest).drop 4 = ch ' ' :: point :: rest := rfl
  have skipped : (ch ' ' :: point :: rest).dropWhile isWhite = point :: rest := by
    rw [List.dropWhile_cons_of_pos (by decide), List.dropWhile_cons_of_neg (by simp [visible])]
  have digits : (fun point => (PyText.ascii.digit point).isSome) = CodePoint.isDigit := by
    funext point
    cases digit : point.isDigit <;> simp [PyText.ascii, digit]
  rw [spelled, exitDigits, if_pos matched, dropped]
  simp only [skipped, digits]
  refine (if_neg (by simp)).trans ?_
  cases ((point :: rest).takeWhile CodePoint.isDigit).filterMap PyText.ascii.digit <;> rfl

private theorem isWhite_false {c : Char} (low : 33 ≤ c.toNat) (high : c.toNat ≤ 57) : isWhite (ch c) = false := by
  have outside : ∀ a b : Nat, ¬ (a ≤ c.toNat ∧ c.toNat ≤ b) → decide (a ≤ c.toNat ∧ c.toNat ≤ b) = false :=
    fun _ _ => decide_eq_false
  simp only [isWhite, CodePoint.code, Bool.or_eq_false_iff, beq_eq_false_iff_ne]
  refine ⟨⟨⟨⟨⟨⟨⟨⟨⟨⟨outside _ _ ?_, outside _ _ ?_⟩, ?_⟩, ?_⟩, ?_⟩, outside _ _ ?_⟩, ?_⟩, ?_⟩, ?_⟩, ?_⟩, ?_⟩ <;>
    omega

private theorem searchExit_natural (n : Nat) : searchExit .ascii (text "exit " ++ (decimal n ++ text ")")) =
    some ((decimal n).filterMap PyText.ascii.digit) := by
  have taken : (decimal n ++ text ")").takeWhile CodePoint.isDigit = decimal n := by
    rw [List.takeWhile_append_of_pos fun point held => decimal_isDigit held]
    exact List.append_nil _
  obtain ⟨point, rest, front⟩ := List.exists_cons_of_ne_nil (decimal_ne_nil (n := n))
  obtain ⟨c, rfl, digit⟩ := decimal_points n point (by rw [front]; exact List.mem_cons_self)
  have range := digit_code digit
  have found : exitDigits .ascii (text "exit " ++ (decimal n ++ text ")")) =
      some ((decimal n).filterMap PyText.ascii.digit) := by
    have read : exitDigits .ascii (text "exit " ++ ch c :: (rest ++ text ")")) = _ :=
      exitDigits_status (isWhite_false (by omega) range.2)
    rw [← List.cons_append, ← front, taken] at read
    rw [read, front]
    simp [PyText.ascii, CodePoint.isDigit, digit]
  have spelled : text "exit " ++ (decimal n ++ text ")") =
      ch 'e' :: (text "xit " ++ (decimal n ++ text ")")) := rfl
  rw [spelled] at found ⊢
  rw [searchExit, found]

private theorem searchExit_negative (n : Nat) :
    searchExit .ascii (text "exit " ++ (decimalInt (.negSucc n) ++ text ")")) = none := by
  have missed : exitDigits .ascii (text "exit " ++ (decimalInt (.negSucc n) ++ text ")")) = none :=
    exitDigits_status (isWhite_false (c := '-') (by decide) (by decide))
  have absent : ch 'e' ∉ text "xit " ++ (decimalInt (.negSucc n) ++ text ")") := by
    intro held
    simp only [List.mem_append] at held
    rcases held with front | numeral | back
    · exact absurd front (by decide)
    · rcases decimalInt_points _ _ numeral with minus | ⟨c, same, digit⟩
      · exact absurd minus (by decide)
      · cases same
        exact absurd digit (by decide)
    · exact absurd back (by decide)
  have spelled : text "exit " ++ (decimalInt (.negSucc n) ++ text ")") =
      ch 'e' :: (text "xit " ++ (decimalInt (.negSucc n) ++ text ")")) := rfl
  rw [spelled] at missed ⊢
  rw [searchExit, missed]
  exact searchExit_none absent

private theorem retryable_failed (method : Method) (n : Int)
    (retried : retryable .ascii (text "HEY SDK " ++ method.name ++ text " " ++
      (text "failed (exit " ++ decimalInt n ++ text ")")) = .ok true) : n = 75 := by
  have lowered : PyText.ascii.lower (text "HEY SDK " ++ method.name ++ text " " ++
      (text "failed (exit " ++ decimalInt n ++ text ")")) =
      (text "hey sdk " ++ method.name ++ text " failed (") ++ (text "exit " ++ (decimalInt n ++ text ")")) := by
    change List.map asciiLower _ = _
    simp only [List.map_append, lower_decimalInt]
    cases method <;> rfl
  have skipped : searchExit .ascii ((text "hey sdk " ++ method.name ++ text " failed (") ++
      (text "exit " ++ (decimalInt n ++ text ")"))) =
      searchExit .ascii (text "exit " ++ (decimalInt n ++ text ")")) := by
    cases method <;> rfl
  rw [retryable, lowered, skipped] at retried
  cases n with
  | ofNat n =>
    have read : searchExit .ascii (text "exit " ++ (decimalInt (.ofNat n) ++ text ")")) =
        some ((decimal n).filterMap PyText.ascii.digit) := searchExit_natural n
    simp only [read, digits_decimal] at retried
    split at retried
    · simp only [Except.ok.injEq, decide_eq_true_eq] at retried
      rw [retried]
      rfl
    · cases retried
  | negSucc n =>
    rw [searchExit_negative] at retried
    cases retried

private theorem retryable_report (py : PyText) {method : Method} {detail : Text} (ascii : Ascii detail) :
    retryable py (text "HEY SDK " ++ method.name ++ text " " ++ detail) =
      retryable .ascii (text "HEY SDK " ++ method.name ++ text " " ++ detail) := by
  apply retryable_ascii
  simp only [ascii_append]
  refine ⟨⟨⟨?_, ?_⟩, ?_⟩, ascii⟩
  · rw [Ascii]; decide
  · rw [Ascii]; cases method <;> decide
  · rw [Ascii]; decide

/-- The messages that name no exit status. -/
def silentDetails : List String :=
  ["could not start", "timed out", "returned oversized JSON", "returned invalid JSON", "failed"]

private theorem silent_not_retried (py : PyText) (method : Method) (listed : detail ∈ silentDetails) :
    retryable py (text "HEY SDK " ++ method.name ++ text " " ++ text detail) = .ok false := by
  simp only [silentDetails, List.mem_cons, List.not_mem_nil, or_false] at listed
  rcases listed with rfl | rfl | rfl | rfl | rfl <;> rw [retryable_report py (by rw [Ascii]; decide)] <;>
    cases method <;> rfl

private theorem callMutation_runtime {invocation : Invocation program}
    (failed : callMutation codec method invocation = .runtime reason) :
    (∃ detail ∈ silentDetails, reason = text "HEY SDK " ++ method.name ++ text " " ++ text detail) ∨
      (invocation.started = true ∧ invocation.timedOut = false) ∧
        reason = text "HEY SDK " ++ method.name ++ text " " ++
          (text "failed (exit " ++ decimalInt invocation.ending.returncode ++ text ")") := by
  rw [callMutation] at failed
  split at failed
  · rename_i stated ran
    cases failed
    rw [runSidecar] at ran
    split at ran
    · cases ran
      exact .inl ⟨"could not start", by simp [silentDetails], rfl⟩
    rename_i started
    split at ran
    · cases ran
      exact .inl ⟨"timed out", by simp [silentDetails], rfl⟩
    rename_i timely
    split at ran
    · cases ran
      exact .inl ⟨"returned oversized JSON", by simp [silentDetails], rfl⟩
    split at ran
    · cases ran
      exact .inr ⟨⟨by simpa using started, by simpa using timely⟩, rfl⟩
    split at ran <;> cases ran <;> exact .inl ⟨"returned invalid JSON", by simp [silentDetails], rfl⟩
  · cases failed
  · split at failed
    · cases failed
    · cases failed
      exact .inl ⟨"failed", by simp [silentDetails], by simp [text]⟩

/-- Only the message of an invocation that ended with the status 75 asks for a retry. -/
theorem retry_needs_status {invocation : Invocation program}
    (failed : callMutation codec method invocation = .runtime reason)
    (retried : retryable py reason = .ok true) :
    invocation.started = true ∧ invocation.timedOut = false ∧ invocation.ending.returncode = 75 := by
  rcases callMutation_runtime failed with ⟨detail, listed, rfl⟩ | ⟨⟨started, timely⟩, rfl⟩
  · rw [silent_not_retried py method listed] at retried
    cases retried
  · have ascii : Ascii (text "failed (exit " ++ decimalInt invocation.ending.returncode ++ text ")") := by
      rw [ascii_append, ascii_append]
      exact ⟨⟨by rw [Ascii]; decide, ascii_decimalInt _⟩, by rw [Ascii]; decide⟩
    rw [retryable_report py ascii] at retried
    exact ⟨started, timely, retryable_failed method _ retried⟩

/-! ## The mutation of an invocation -/

section
variable {lib : GoLib} {method : Method} {arguments : Except Text (Int × Int)}

/-- The program waits for a mutation's answer. -/
def Invocation.waiting (invocation : Invocation program) : Bool :=
  match invocation.rest with
  | .call request _ => isMutation request
  | _ => false

/-- The invocation called no mutation, or had it rejected with a confirming status. -/
structure Invocation.Spared (invocation : Invocation program) : Prop where
  rejected : ∀ event ∈ invocation.trace, isMutation event.1 = true → Rejected event
  waiting : invocation.waiting = false

/-- What an invocation of the sidecar has done at any moment of it. -/
theorem Invocation.judged (invocation : Invocation (run lib method arguments)) :
    Program.Meets (mutationContract lib) (Judged lib) invocation.trace invocation.rest ∧
      ∀ before event after, invocation.trace = before ++ event :: after →
        (mutationContract lib).must before event.1 := by
  have meets := (judged_run lib method arguments).run invocation.ran fun _ _ _ _ => trivial
  simpa using meets

/-- Whatever ended the process, with the status 75 nothing was created. -/
theorem spared_of_status (invocation : Invocation (run lib method arguments))
    (status : invocation.ending.returncode = 75) : invocation.Spared := by
  cases ending : invocation.ending with
  | signalled signal =>
    rw [ending, Ending.returncode] at status
    cases status
  | crashed =>
    rw [ending] at status
    cases status
  | terminated =>
    rw [ending] at status
    cases status
  | exited result =>
    rw [ending, Ending.returncode] at status
    have rest := invocation.exited result ending
    cases result with
    | ok done => cases status
    | error err =>
      have safe : err.isSafeRetry = true := by
        rw [exitStatus, exitCode] at status
        split at status
        · cases status
        split at status
        · assumption
        · cases status
      have judged := invocation.judged.1
      rw [rest] at judged
      exact ⟨judged safe, by rw [Invocation.waiting, rest, Program.lift]⟩

/-- A confirmed call wrote its confirmation, and so its mutation had succeeded. -/
theorem succeeded_of_confirmed (invocation : Invocation (run lib method arguments))
    (held : confirmed (callMutation codec method invocation) = true) :
    ∃ event ∈ invocation.trace, Succeeded lib event := by
  have printed : invocation.output ≠ [] := by
    intro empty
    rw [callMutation] at held
    split at held
    · cases held
    · cases held
    · rename_i result ran
      rw [runSidecar] at ran
      split at ran
      · cases ran
      split at ran
      · cases ran
      split at ran
      · cases ran
      split at ran
      · cases ran
      rw [empty] at ran
      cases ran
  have written : stdout invocation.trace ≠ [] := by
    intro empty
    exact printed (by rw [Invocation.output, empty, Text.utf8_nil, List.take_nil])
  obtain ⟨point, inside⟩ := List.exists_mem_of_ne_nil _ written
  obtain ⟨⟨request, answer⟩, called, point⟩ := List.mem_flatMap.mp inside
  obtain ⟨before, after, split⟩ := List.append_of_mem called
  cases request with
  | write record =>
    obtain ⟨event, earlier, succeeded⟩ := (invocation.judged.2 before _ after split).2 record rfl
    exact ⟨event, by rw [split]; exact List.mem_append_left _ earlier, succeeded⟩
  | _ => cases point

end

end HermesHey.Sidecar
