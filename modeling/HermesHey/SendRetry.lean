import HermesHey.SidecarRunner

/-! The retry loop of `_send_with_retry` over any invocations of the sidecar: a
mutation that may have been applied is the last of the loop. -/
namespace HermesHey.Sidecar
open Library Library.Json HermesHey.Core Adapter

/-- One turn of the loop: what `send` met. -/
inductive Attempt (lib : GoLib) where
  /-- No claimed pending event. -/
  | unclaimed
  /-- The queue could not be read, or the task was cancelled before the call. -/
  | raised (error : PyError)
  /-- The content holds a surrogate, so that its encoding fails and nothing is started. -/
  | unencodable (method : Method)
  | invoked (method : Method) (arguments : Except Text (Int × Int))
      (invocation : Invocation (run lib method arguments))

variable {lib : GoLib}

/-- `send` -/
def send (codec : Encoding → List UInt8 → Option Text) (py : PyText) : Attempt lib → Except PyError SendResult
  | .unclaimed => .ok
    { success := false, error := text "HEY final response has no claimed pending event", retryable := false }
  | .raised error => .error error
  | .unencodable method => sendResult py method.name .failed
  | .invoked method _ invocation => sendResult py method.name (callMutation codec method invocation)

/-- The loop of `_send_with_retry`, with the retries left: the attempts it makes
and the last result. The attempts are drawn from the list of what would happen. -/
def sendWithRetry (codec : Encoding → List UInt8 → Option Text) (py : PyText) (attempts : Nat → Attempt lib) :
    Nat → List (Attempt lib) × Except PyError SendResult
  | 0 => ([attempts 0], send codec py (attempts 0))
  | left + 1 =>
    match send codec py (attempts 0) with
    | .error error => ([attempts 0], .error error)
    | .ok result =>
      if result.success ∨ ¬ result.retryable then ([attempts 0], .ok result)
      else
        let later := sendWithRetry codec py (fun n => attempts (n + 1)) left
        (attempts 0 :: later.1, later.2)

/-- The sidecar of the attempt exited with the status 75, and created nothing. -/
def Attempt.Retried : Attempt lib → Prop
  | .invoked _ _ invocation => invocation.started = true ∧ invocation.timedOut = false ∧
      invocation.ending.returncode = 75 ∧ invocation.Spared
  | _ => False

/-- The mutations of an attempt, each with its answer unless it was cut off. -/
def Attempt.mutations : Attempt lib → List (Option (Sigma Answer))
  | .invoked _ _ invocation =>
    (invocation.trace.filter fun event => isMutation event.1).map some ++
      if invocation.waiting then [none] else []
  | _ => []

/-- The mutation was answered by a status that confirms that nothing was created. -/
def Spares (mutation : Option (Sigma Answer)) : Prop := ∃ event, mutation = some event ∧ Rejected event

/-- A retried attempt had every mutation rejected. -/
theorem Attempt.Retried.spares {attempt : Attempt lib} (retried : attempt.Retried) :
    ∀ mutation ∈ attempt.mutations, Spares mutation := by
  cases attempt with
  | unclaimed => cases retried
  | raised error => cases retried
  | unencodable method => cases retried
  | invoked method arguments invocation =>
    obtain ⟨_, _, _, rejected, idle⟩ := retried
    intro mutation held
    simp only [Attempt.mutations, idle, Bool.false_eq_true, if_false, List.append_nil, List.mem_map,
      List.mem_filter] at held
    obtain ⟨event, ⟨called, mutates⟩, rfl⟩ := held
    exact ⟨event, rfl, rejected event called mutates⟩

private theorem filter_length_le_one {counts : α → Bool} {xs : List α}
    (first : ∀ before x after, xs = before ++ x :: after → counts x = true → ∀ y ∈ before, counts y = false) :
    (xs.filter counts).length ≤ 1 := by
  induction xs using List.reverseRecOn with
  | nil => simp
  | append_singleton xs x ih =>
    rw [List.filter_append, List.length_append]
    by_cases counted : counts x = true
    · have none : xs.filter counts = [] := by
        rw [List.filter_eq_nil_iff]
        intro y held
        simp [first xs x [] rfl counted y held]
      simp [none, counted]
    · have fewer := ih fun before y after split held => first before y (after ++ [x]) (by simp [split]) held
      simpa [counted] using fewer

/-- An attempt calls one mutation at most. -/
theorem mutations_length (attempt : Attempt lib) : attempt.mutations.length ≤ 1 := by
  cases attempt with
  | unclaimed => exact Nat.zero_le 1
  | raised error => exact Nat.zero_le 1
  | unencodable method => exact Nat.zero_le 1
  | invoked method arguments invocation =>
    obtain ⟨meets, calls⟩ := invocation.judged
    cases waiting : invocation.waiting with
    | false =>
      have once : (invocation.trace.filter fun event => isMutation event.1).length ≤ 1 := by
        apply filter_length_le_one
        intro before event after split mutates
        exact (calls before event after split).1 mutates
      simpa [Attempt.mutations, waiting] using once
    | true =>
      have untouched : Untouched invocation.trace := by
        rw [Invocation.waiting] at waiting
        split at waiting
        · rename_i request next rest
          rw [rest] at meets
          exact meets.1.1 waiting
        · cases waiting
      have none : (invocation.trace.filter fun event => isMutation event.1) = [] := by
        rw [List.filter_eq_nil_iff]
        intro event held
        simp [untouched event held]
      simp [Attempt.mutations, waiting, none]

/-- A result that lets the loop go on comes from an exit with the status 75. -/
theorem retried_of_send {attempt : Attempt lib} (ran : send codec py attempt = .ok result)
    (retried : result.retryable = true) : attempt.Retried := by
  cases attempt with
  | unclaimed =>
    cases ran
    cases retried
  | raised error => cases ran
  | unencodable method =>
    cases ran
    cases retried
  | invoked method arguments invocation =>
    rw [send] at ran
    cases called : callMutation codec method invocation with
    | returned value =>
      rw [called, sendResult] at ran
      split at ran <;> cases ran <;> cases retried
    | failed =>
      rw [called, sendResult] at ran
      cases ran
      cases retried
    | runtime reason =>
      rw [called, sendResult] at ran
      simp only [bind_eq_ok, pure_eq_ok] at ran
      obtain ⟨_, matched, rfl⟩ := ran
      change _ = true at retried
      simp only at retried
      rw [retried] at matched
      obtain ⟨started, timely, status⟩ := retry_needs_status called matched
      exact ⟨started, timely, status, spared_of_status invocation status⟩

/-! ## The loop -/

/-- What the loop has made when it ends: every attempt but the last was retried. -/
theorem sendWithRetry_made (codec : Encoding → List UInt8 → Option Text) (py : PyText)
    (attempts : Nat → Attempt lib) (left : Nat) :
    ∃ earlier last, (sendWithRetry codec py attempts left).1 = earlier ++ [last] ∧
      (∀ attempt ∈ earlier, attempt.Retried) ∧ (sendWithRetry codec py attempts left).2 = send codec py last := by
  induction left generalizing attempts with
  | zero => exact ⟨[], attempts 0, rfl, by simp, rfl⟩
  | succ left ih =>
    rw [sendWithRetry]
    cases ran : send codec py (attempts 0) with
    | error error => exact ⟨[], attempts 0, rfl, by simp, ran.symm⟩
    | ok result =>
      simp only
      split
      · exact ⟨[], attempts 0, rfl, by simp, ran.symm⟩
      · rename_i goesOn
        obtain ⟨earlier, last, made, retried, result'⟩ := ih fun n => attempts (n + 1)
        have again : result.retryable = true := by
          by_contra stops
          exact goesOn (.inr stops)
        refine ⟨attempts 0 :: earlier, last, by simp [made], ?_, result'⟩
        exact List.forall_mem_cons.mpr ⟨retried_of_send ran again, retried⟩

private theorem mem_of_followed {earlier : List α} (split : earlier ++ [last] = before ++ x :: after)
    (more : after ≠ []) : x ∈ earlier := by
  obtain ⟨init, final, rfl⟩ := List.eq_nil_or_concat' after |>.resolve_left more
  have regrouped : before ++ x :: (init ++ [final]) = (before ++ x :: init) ++ [final] := by simp
  rw [regrouped] at split
  rw [List.append_inj_left' split rfl]
  simp

theorem mutation_of_succeeded (succeeded : Succeeded lib event) : isMutation event.1 = true := by
  obtain ⟨request, answer⟩ := event
  cases request with
  | createReply | postForm => rfl
  | _ => cases succeeded

/-- No mutation that may have been applied is repeated: another attempt follows
only an exit with the status 75 of a sidecar that created nothing; of all the
mutations of the loop every one but the last was rejected; and success means
that the last attempt's mutation returned no error. -/
theorem mutations_never_repeated (lib : GoLib) (codec : Encoding → List UInt8 → Option Text) (py : PyText)
    (attempts : Nat → Attempt lib) (maxRetries : Int) :
    let made := (sendWithRetry codec py attempts maxRetries.toNat).1
    (∀ before attempt after, made = before ++ attempt :: after → after ≠ [] → attempt.Retried) ∧
      (∀ before mutation after, made.flatMap Attempt.mutations = before ++ mutation :: after → after ≠ [] →
        Spares mutation) ∧
      ∀ result, (sendWithRetry codec py attempts maxRetries.toNat).2 = .ok result → result.success = true →
        ∃ earlier method arguments invocation, made = earlier ++ [.invoked method arguments invocation] ∧
          ∃ event ∈ invocation.trace, isMutation event.1 = true ∧ Succeeded lib event := by
  obtain ⟨earlier, last, made, retried, ended⟩ := sendWithRetry_made codec py attempts maxRetries.toNat
  simp only [made]
  refine ⟨?_, ?_, ?_⟩
  · intro before attempt after split more
    exact retried attempt (mem_of_followed split more)
  · intro before mutation after split more
    rw [List.flatMap_append, List.flatMap_singleton] at split
    have among : mutation ∈ earlier.flatMap Attempt.mutations := by
      have single := mutations_length last
      rcases calls : last.mutations with _ | ⟨call, _ | ⟨_, _⟩⟩
      · rw [calls, List.append_nil] at split
        rw [split]
        simp
      · rw [calls] at split
        exact mem_of_followed split more
      · simp [calls] at single
    obtain ⟨attempt, held, called⟩ := List.mem_flatMap.mp among
    exact (retried attempt held).spares mutation called
  · intro result finished success
    rw [ended] at finished
    cases last with
    | unclaimed =>
      cases finished
      cases success
    | raised error => cases finished
    | unencodable method =>
      cases finished
      cases success
    | invoked method arguments invocation =>
      have held := (sendResult_success finished).mp success
      obtain ⟨event, called, succeeded⟩ := succeeded_of_confirmed invocation held
      exact ⟨earlier, method, arguments, invocation, rfl, event, called, mutation_of_succeeded succeeded,
        succeeded⟩

end HermesHey.Sidecar
