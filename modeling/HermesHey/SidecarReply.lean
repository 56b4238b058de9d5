import HermesHey.Adapter
import HermesHey.Sidecar

/-! The sidecar's `reply` and `comment` modes, and what their exit status says
about the mutation they make. -/
namespace HermesHey.Sidecar
open Library Library.Json Adapter

/-! ## The modes -/

/-- `fmt.Errorf("label: %w", err)`, marked safe to retry when the check finds it so. -/
def classify (safe : GoError → Bool) (label : String) (err : GoError) : GoError :=
  if safe err then .safeRetry (.wrap (text label) err) else .wrap (text label) err

/-- `verifyAccount` -/
def verifyAccount (identity : Option Identity) (accountID : Int) : Go Unit :=
  let usable (account : Account) := account.id = accountID && (account.status = text "active" ||
    account.status = text "inactive" && (account.purpose = text "work" || account.purpose = text "domains"))
  match identity with
  | none => .fail (.plain (text "identity account mismatch"))
  | some found => require (0 < accountID && found.accounts.any usable) "identity account mismatch"

/-- `newSDKClients`, with the identity that it returns -/
def newSDKClients (accountID : Int) : Go (Option Identity) := do
  let outcome ← ask .identity
  let identity ← (pass outcome).mapFail (.wrap (text "fetch identity"))
  verifyAccount identity accountID
  let selected ← ask (.forAccount accountID)
  (pass selected).mapFail (.wrap (text "select account"))
  return identity

/-- `sdkAdapter.NewReply` -/
def newReply (id : Int) : Go (Option MessageDraft) := do
  require (0 < id) "entry ID must be positive"
  let outcome ← ask (.newReply id)
  pass outcome

/-- `sdkAdapter.DefaultSenderID` -/
def defaultSenderID : Go Int := do
  let outcome ← ask .defaultSenderID
  pass outcome

/-- `sdkAdapter.CreateReply` -/
def createReply (id : Int) (content : Text) (sentTo cc bcc : List Text) : Go Unit := do
  require (0 < id) "entry ID must be positive"
  let outcome ← ask (.createReply id content sentTo cc bcc)
  pass outcome

/-- How `CreateComment` reads the response. -/
def commentOutcome (lib : GoLib) (threadID : Int) (response : Option FormResponse) : Except GoError Unit :=
  match response with
  | none => .error (.plain (text "comment response was missing"))
  | some response =>
    if 200 ≤ response.statusCode ∧ response.statusCode < 300 then .ok ()
    else if response.statusCode ≠ 302 ∧ response.statusCode ≠ 303 then
      .error (.plain (text "comment response was not successful"))
    else if lib.parseUrl response.location = some (text "/topics/" ++ decimalInt threadID, false) then .ok ()
    else .error (.plain (text "comment response has invalid redirect"))

private theorem commentOutcome_error (read : commentOutcome lib threadID response = .error err) :
    ∃ reason, err = .plain reason := by
  unfold commentOutcome at read
  split at read
  · cases read
    exact ⟨_, rfl⟩
  split at read
  · cases read
  split at read
  · cases read
    exact ⟨_, rfl⟩
  split at read
  · cases read
  · cases read
    exact ⟨_, rfl⟩

/-- `sdkAdapter.CreateComment` -/
def createComment (lib : GoLib) (threadID : Int) (content : Text) : Go Unit := do
  require (0 < threadID) "thread ID must be positive"
  require (trimSpace content ≠ []) "comment content is required"
  let outcome ← ask (.postForm threadID content)
  let response ← pass outcome
  Program.lift (commentOutcome lib threadID response)

/-- `contactEmails` -/
def contactEmails (lib : GoLib) (contacts : List Contact) : List Text :=
  let add (found : List Text × List Text) (contact : Contact) :=
    let email := trimSpace contact.emailAddress
    let key := lib.toLower email
    if email ≠ [] ∧ key ∉ found.2 then (found.1 ++ [email], key :: found.2) else found
  (contacts.foldl add ([], [])).1

def maxReplyBodyBytes : Nat := 512 * 2 ^ 10

/-- The confirmation on the standard output. -/
def okRecord : Value := .obj [(text "ok", .bool true)]

/-- `runReply` -/
def runReply (lib : GoLib) (threadID : Int) : Go Unit := do
  require (0 < threadID) "thread ID must be positive"
  let input ← ask .readInput
  match input with
  | none => .fail (.plain (text "invalid reply input"))
  | some content =>
    require (trimSpace content ≠ [] && byteLength content ≤ maxReplyBodyBytes) "invalid reply content"
    let entries ← (topicEntries threadID).mapFail (classify isTransientReadError "list thread entries")
    match entries.find? fun entry => entry.kind = text "message" && 0 < entry.id with
    | none => .fail (.plain (text "thread has no replyable message"))
    | some entry =>
      let prefill ← (newReply entry.id).mapFail (classify isTransientReadError "load reply recipients")
      match prefill with
      | none => .fail (.plain (text "reply recipients returned no data"))
      | some draft =>
        let sentTo := contactEmails lib draft.directly
        let cc := contactEmails lib draft.copied
        let bcc := contactEmails lib draft.blindcopied
        require (0 < sentTo.length + cc.length + bcc.length) "reply has no recipients"
        let senderID ← defaultSenderID.mapFail (classify isTransientReadError "resolve reply sender")
        require (0 < senderID) "resolve reply sender: no default sender"
        (createReply entry.id content sentTo cc bcc).mapFail
          (classify isDefinitiveCreateRejection "create reply")
        writeNDJSON lib okRecord

/-- `runComment` -/
def runComment (lib : GoLib) (threadID : Int) : Go Unit := do
  require (0 < threadID) "thread ID must be positive"
  let input ← ask .readInput
  match input with
  | none => .fail (.plain (text "invalid comment input"))
  | some content =>
    require (trimSpace content ≠ [] && byteLength content ≤ maxReplyBodyBytes) "invalid comment content"
    (createComment lib threadID content).mapFail (classify isDefinitiveCreateRejection "create comment")
    writeNDJSON lib okRecord

/-- `run` of the two modes. `arguments` are the account and the thread that the
flags, `validateCommon` and `ParseInt` made of the command line, or their error text. -/
def run (lib : GoLib) (method : Method) (arguments : Except Text (Int × Int)) : Go Unit :=
  match arguments, method with
  | .error message, _ => .fail (.plain message)
  | .ok (account, threadID), .reply => do
    let _ ← (newSDKClients account).mapFail (classify isTransientReadError "initialize reply client")
    runReply lib threadID
  | .ok (account, threadID), .comment => do
    let _ ← (newSDKClients account).mapFail (classify isTransientReadError "initialize comment client")
    runComment lib threadID

/-- `exitCode` -/
def exitCode (err : GoError) : Int := if err.isSafeRetry then 75 else 1

/-- The exit status of `main`. -/
def exitStatus : Except GoError Unit → Int
  | .ok _ => 0
  | .error err => if err.isCanceled then 0 else exitCode err

/-! ## The mutation of a run -/

def isMutation : Call → Bool
  | .createReply _ _ _ _ _ | .postForm _ _ => true
  | _ => false

/-- The mutation returned no error. -/
def Succeeded (lib : GoLib) : Sigma Answer → Prop
  | ⟨.createReply _ _ _ _ _, outcome⟩ => outcome = Except.ok ()
  | ⟨.postForm threadID _, outcome⟩ =>
    ∃ response, outcome = Except.ok response ∧ commentOutcome lib threadID response = .ok ()
  | _ => False

/-- The HTTP error confirms that nothing was created. -/
def Definitive (error : Foreign) : Prop := ∃ api, error.api = some api ∧ api.httpStatus ∈ rejectionStatuses

/-- The mutation was rejected with a status that confirms that nothing was created. -/
def Rejected : Sigma Answer → Prop
  | ⟨.createReply _ _ _ _ _, outcome⟩ => ∃ error, outcome = Except.error error ∧ Definitive error
  | ⟨.postForm _ _, outcome⟩ => ∃ error, outcome = Except.error error ∧ Definitive error
  | _ => False

/-- No mutation was called. -/
def Untouched (history : History) : Prop := ∀ event ∈ history, isMutation event.1 = false

/-- One mutation at most, and the confirmation is written only after it succeeded. -/
def mutationContract (lib : GoLib) : Program.Contract Answer where
  may _ _ _ := True
  must history request := (isMutation request = true → Untouched history) ∧
    ∀ record, request = .write record → ∃ event ∈ history, Succeeded lib event

/-- A run that returns has had its mutation succeed; one that asks for a retry
has called none, or had it rejected. -/
def Judged (lib : GoLib) : Except GoError Unit → History → Prop
  | .ok _, history => ∃ event ∈ history, Succeeded lib event
  | .error err, history =>
    err.isSafeRetry = true → ∀ event ∈ history, isMutation event.1 = true → Rejected event

/-! ## What runs before the mutation -/

/-- The code keeps the contract without calling a mutation. -/
abbrev Quiet (lib : GoLib) (history : History) (code : Go α) : Prop :=
  Program.Meets (mutationContract lib) (fun _ history => Untouched history) history code

private theorem untouched_append (untouched : Untouched history) (harmless : isMutation request = false)
    (answer : Answer request) : Untouched (history ++ [⟨request, answer⟩]) := by
  intro event held
  rcases List.mem_append.mp held with old | new
  · exact untouched event old
  · rw [List.mem_singleton] at new
    rw [new]
    exact harmless

private theorem quiet_ask (untouched : Untouched history) (harmless : isMutation request = false)
    (silent : ∀ record, request ≠ .write record) : Quiet lib history (ask request) := by
  refine ⟨⟨?_, ?_⟩, fun answer _ => untouched_append untouched harmless answer⟩
  · intro mutates
    rw [harmless] at mutates
    cases mutates
  · intro record same
    exact absurd same (silent record)

private theorem quiet_require (untouched : Untouched history) (check : Bool) (message : String) :
    Quiet lib history (require check message) := by
  rw [require]
  split <;> exact untouched

private theorem quiet_pass (untouched : Untouched history) (outcome : Except Foreign α) :
    Quiet lib history (pass outcome) := by
  cases outcome <;> exact untouched

/-- After code that only reads, the history is still untouched, however the code ended. -/
theorem Quiet.bind {first : Go α} {rest : α → Go β} {post : Except GoError β → History → Prop}
    (quiet : Quiet lib history first) (fails : ∀ err history, Untouched history → post (.error err) history)
    (returns : ∀ value history, Untouched history →
      Program.Meets (mutationContract lib) post history (rest value)) :
    Program.Meets (mutationContract lib) post history (first >>= rest) :=
  Program.Meets.bind quiet returns fails

/-- Wrapping an error makes no call. -/
theorem Quiet.mapFail {code : Go α} (quiet : Quiet lib history code) (change : GoError → GoError) :
    Quiet lib history (code.mapFail change) :=
  Program.Meets.mapFail quiet

private theorem untouched_fails (_ : GoError) (history : History) (untouched : Untouched history) :
    Untouched history := untouched

private theorem quiet_topicPages (untouched : Untouched history) (topic : Int) (left : Nat) (page : Text)
    (entries : List Entry) : Quiet lib history (topicPages topic left page entries) := by
  induction left generalizing history page entries with
  | zero => exact untouched
  | succ left ih =>
    rw [topicPages]
    apply (quiet_ask untouched rfl (by simp)).bind untouched_fails
    intro outcome history untouched
    apply (quiet_pass untouched outcome).bind untouched_fails
    intro found history untouched
    cases found with
    | none => exact untouched
    | some result =>
      simp only
      split
      · exact untouched
      · exact ih untouched _ _

private theorem quiet_topicEntries (untouched : Untouched history) (topic : Int) :
    Quiet lib history (topicEntries topic) := by
  apply (quiet_require untouched _ _).bind untouched_fails
  intro _ history untouched
  exact quiet_topicPages untouched topic _ _ _

private theorem quiet_newSDKClients (untouched : Untouched history) (accountID : Int) :
    Quiet lib history (newSDKClients accountID) := by
  apply (quiet_ask untouched rfl (by simp)).bind untouched_fails
  intro outcome history untouched
  apply ((quiet_pass untouched outcome).mapFail _).bind untouched_fails
  intro identity history untouched
  have verified : Quiet lib history (verifyAccount identity accountID) := by
    cases identity with
    | none => exact untouched
    | some found => exact quiet_require untouched _ _
  apply verified.bind untouched_fails
  intro _ history untouched
  apply (quiet_ask untouched rfl (by simp)).bind untouched_fails
  intro selected history untouched
  apply ((quiet_pass untouched selected).mapFail _).bind untouched_fails
  exact fun _ _ untouched => untouched

private theorem quiet_newReply (untouched : Untouched history) (id : Int) : Quiet lib history (newReply id) := by
  apply (quiet_require untouched _ _).bind untouched_fails
  intro _ history untouched
  apply (quiet_ask untouched rfl (by simp)).bind untouched_fails
  intro outcome history untouched
  exact quiet_pass untouched outcome

private theorem quiet_defaultSenderID (untouched : Untouched history) : Quiet lib history defaultSenderID := by
  apply (quiet_ask untouched rfl (by simp)).bind untouched_fails
  intro outcome history untouched
  exact quiet_pass untouched outcome

/-! ## The mutation and the confirmation -/

private theorem judged_untouched (err : GoError) (history : History) (untouched : Untouched history) :
    Judged lib (.error err) history := by
  intro _ event held mutates
  rw [untouched event held] at mutates
  cases mutates

private theorem definitive_of_classify
    (safe : (classify isDefinitiveCreateRejection label (.foreign error)).isSafeRetry = true) :
    Definitive error := by
  by_cases definitive : isDefinitiveCreateRejection (.foreign error) = true
  · rw [isDefinitiveCreateRejection, GoError.asApi] at definitive
    split at definitive
    · rename_i api found
      exact ⟨api, found, of_decide_eq_true definitive⟩
    · cases definitive
  · rw [classify, if_neg definitive] at safe
    cases safe

private theorem plain_not_safe :
    (classify isDefinitiveCreateRejection label (.plain reason)).isSafeRetry = false := rfl

private theorem rejected_append (untouched : Untouched history) (rejected : Rejected event) :
    ∀ held ∈ history ++ [event], isMutation held.1 = true → Rejected held := by
  intro held inside mutates
  rcases List.mem_append.mp inside with old | new
  · rw [untouched held old] at mutates
    cases mutates
  · rw [List.mem_singleton] at new
    rw [new]
    exact rejected

private theorem succeeded_append (succeeded : Succeeded lib event) (history : History) :
    ∃ held ∈ history ++ [event], Succeeded lib held :=
  ⟨event, List.mem_append_right _ (List.mem_singleton_self event), succeeded⟩

private theorem mutation_must (untouched : Untouched history) (silent : ∀ record, request ≠ .write record) :
    (mutationContract lib).must history request :=
  ⟨fun _ => untouched, fun record same => absurd same (silent record)⟩

private theorem judged_createReply (untouched : Untouched history) :
    Program.Meets (mutationContract lib) (Judged lib) history
      ((createReply entryID content sentTo cc bcc).mapFail (classify isDefinitiveCreateRejection label)) := by
  apply Program.Meets.mapFail
  apply (quiet_require untouched _ _).bind
  · intro err history untouched
    exact judged_untouched _ _ untouched
  intro _ history untouched
  refine Program.meets_ask (mutation_must untouched (by simp)) ?_
  intro outcome _
  cases outcome with
  | ok done =>
    have succeeded : Succeeded lib ⟨.createReply entryID content sentTo cc bcc, Except.ok done⟩ := rfl
    exact succeeded_append succeeded history
  | error error =>
    intro safe
    exact rejected_append untouched ⟨error, rfl, definitive_of_classify safe⟩

private theorem judged_createComment (untouched : Untouched history) :
    Program.Meets (mutationContract lib) (Judged lib) history
      ((createComment lib threadID content).mapFail (classify isDefinitiveCreateRejection label)) := by
  apply Program.Meets.mapFail
  apply (quiet_require untouched _ _).bind
  · intro err history untouched
    exact judged_untouched _ _ untouched
  intro _ history untouched
  apply (quiet_require untouched _ _).bind
  · intro err history untouched
    exact judged_untouched _ _ untouched
  intro _ history untouched
  refine Program.meets_ask (mutation_must untouched (by simp)) ?_
  intro outcome _
  cases outcome with
  | error error =>
    intro safe
    exact rejected_append untouched ⟨error, rfl, definitive_of_classify safe⟩
  | ok response =>
    change Program.Meets _ _ _ (Program.lift (commentOutcome lib threadID response))
    apply Program.meets_lift
    cases read : commentOutcome lib threadID response with
    | ok done =>
      have succeeded : Succeeded lib ⟨.postForm threadID content, Except.ok response⟩ :=
        ⟨response, rfl, read⟩
      exact succeeded_append succeeded history
    | error err =>
      obtain ⟨reason, rfl⟩ := commentOutcome_error read
      intro safe
      rw [plain_not_safe] at safe
      cases safe

private theorem judged_writeNDJSON (succeeded : ∃ event ∈ history, Succeeded lib event) (value : Value) :
    Program.Meets (mutationContract lib) (Judged lib) history (writeNDJSON lib value) := by
  rw [writeNDJSON, require]
  split
  swap
  · intro safe
    cases safe
  refine Program.meets_ask ⟨by simp [isMutation], fun _ _ => succeeded⟩ ?_
  intro written _
  obtain ⟨event, held, done⟩ := succeeded
  cases written.error with
  | none => exact ⟨event, List.mem_append_left _ held, done⟩
  | some error =>
    intro safe
    cases safe

private theorem judged_confirm {mutate : Go Unit}
    (judged : Program.Meets (mutationContract lib) (Judged lib) history mutate) (value : Value) :
    Program.Meets (mutationContract lib) (Judged lib) history (mutate >>= fun _ => writeNDJSON lib value) :=
  judged.bind (fun _ _ succeeded => judged_writeNDJSON succeeded value) (fun _ _ rejected => rejected)

private theorem judged_runReply (untouched : Untouched history) (threadID : Int) :
    Program.Meets (mutationContract lib) (Judged lib) history (runReply lib threadID) := by
  apply (quiet_require untouched _ _).bind judged_untouched
  intro _ history untouched
  apply (quiet_ask untouched rfl (by simp)).bind judged_untouched
  intro input history untouched
  cases input with
  | none => exact judged_untouched _ _ untouched
  | some content =>
    apply (quiet_require untouched _ _).bind judged_untouched
    intro _ history untouched
    apply ((quiet_topicEntries untouched threadID).mapFail _).bind judged_untouched
    intro entries history untouched
    split
    · exact judged_untouched _ _ untouched
    rename_i entry _
    apply ((quiet_newReply untouched entry.id).mapFail _).bind judged_untouched
    intro prefill history untouched
    cases prefill with
    | none => exact judged_untouched _ _ untouched
    | some draft =>
      apply (quiet_require untouched _ _).bind judged_untouched
      intro _ history untouched
      apply ((quiet_defaultSenderID untouched).mapFail _).bind judged_untouched
      intro senderID history untouched
      apply (quiet_require untouched _ _).bind judged_untouched
      intro _ history untouched
      exact judged_confirm (judged_createReply untouched) okRecord

private theorem judged_runComment (untouched : Untouched history) (threadID : Int) :
    Program.Meets (mutationContract lib) (Judged lib) history (runComment lib threadID) := by
  apply (quiet_require untouched _ _).bind judged_untouched
  intro _ history untouched
  apply (quiet_ask untouched rfl (by simp)).bind judged_untouched
  intro input history untouched
  cases input with
  | none => exact judged_untouched _ _ untouched
  | some content =>
    apply (quiet_require untouched _ _).bind judged_untouched
    intro _ history untouched
    exact judged_confirm (judged_createComment untouched) okRecord

/-- The exit status of a whole run tells what became of its mutation. -/
theorem judged_run (lib : GoLib) (method : Method) (arguments : Except Text (Int × Int)) :
    Program.Meets (mutationContract lib) (Judged lib) [] (run lib method arguments) := by
  have untouched : Untouched [] := by simp [Untouched]
  cases arguments with
  | error reason => exact judged_untouched _ _ untouched
  | ok parsed =>
    obtain ⟨account, threadID⟩ := parsed
    cases method with
    | reply =>
      apply ((quiet_newSDKClients untouched account).mapFail _).bind judged_untouched
      intro _ history untouched
      exact judged_runReply untouched threadID
    | comment =>
      apply ((quiet_newSDKClients untouched account).mapFail _).bind judged_untouched
      intro _ history untouched
      exact judged_runComment untouched threadID

end HermesHey.Sidecar
