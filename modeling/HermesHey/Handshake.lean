import HermesHey.CommandLine
import HermesHey.WatchProcess

/-! The mode `verify` and `HeySDKClient.verify`. The client goes on only with a sidecar of its
version that found the account and the address of the client in the identity of the server. -/
namespace HermesHey.Sidecar
open Library Library.Json HermesHey.Core Adapter CommandLine

/-! ## The sidecar -/

/-- A user of the identity. -/
structure User where
  accountId : Int
  contact : Contact

/-- `verifyIdentity`. The users are the `AllUsers` of the identity. -/
def verifyIdentity (lib : GoLib) (identity : Option Identity) (users : List User) (accountID : Int) (ownEmail : Text) :
    Except Text Unit :=
  let usable (account : Account) := account.id = accountID && (account.status = text "active" ||
    account.status = text "inactive" && (account.purpose = text "work" || account.purpose = text "domains"))
  let owned (user : User) := user.accountId = accountID &&
    lib.equalFold (trimSpace user.contact.emailAddress) (trimSpace ownEmail)
  match identity with
  | none => .error (text "identity verification failed")
  | some found =>
    if accountID ≤ 0 ∨ trimSpace ownEmail = [] then .error (text "identity verification failed")
    else if ¬ found.accounts.any usable then .error (text "identity account mismatch")
    else if users.any owned then .ok ()
    else .error (text "identity email mismatch")

/-- `sdkVersion`, and `SDK_VERSION` of the client -/
def sdkVersion : Text := text "0.24.0"

/-- `newVerifyResponse` -/
def verifyResponse (account : Int) (email : Text) : Members :=
  [(text "ok", .bool true), (text "protocol_version", .int 2), (text "sdk_version", .str sdkVersion),
    (text "account", .int account), (text "email", .str email)]

/-- `run` with the mode `verify`, on its arguments -/
def runVerify (lib : GoLib) (users : List User) (account : Int) (ownEmail : Text) : Go Unit := do
  let identity ← newSDKClients account
  Program.lift ((verifyIdentity lib identity users account ownEmail).mapError .plain)
  writeNDJSON lib (.obj (verifyResponse account (trimSpace ownEmail)))

/-- The sidecar that `HeySDKClient.verify` starts. -/
def verifyProgram (lib : GoLib) (net : NetLib) (users : List User) (client : Client) : Go Unit :=
  match readArguments net (client.command .verify) with
  | .ok (.verify account options) => runVerify lib users account.toInt options.ownEmail
  -- The command line selects the mode.
  | .ok _ => .fail (.plain (text "unknown mode"))
  | .error message => .fail (.plain message)

/-! ## The client -/

/-- What `verify` asks of the response. -/
def acceptedResponse (accountID : Int) (ownEmail : Text) (result : Members) : Bool :=
  sameKeys (result.map Prod.fst) [text "ok", text "protocol_version", text "sdk_version", text "account", text "email"] &&
    result.lookup (text "ok") == some (.bool true) && result.lookup (text "protocol_version") == some (.int 2) &&
    result.lookup (text "sdk_version") == some (.str sdkVersion) && result.lookup (text "account") == some (.int accountID) &&
    result.lookup (text "email") == some (.str ownEmail)

/-- `HeySDKClient.verify`, on the outcome of the runner -/
def verify (client : Client) (outcome : Except PyError Members) : Except PyError Bool := do
  let result ← outcome
  if acceptedResponse (digitsValue client.account) client.ownEmail result then return true
  else .error (.runtime "HEY SDK sidecar verification failed")

/-! ## What a run has verified -/

/-- The server's identity passed, and the account was selected. -/
structure Verified (lib : GoLib) (users : List User) (account : Int) (ownEmail : Text) (history : History) : Prop where
  identity : ∃ identity, ⟨.identity, .ok (some identity)⟩ ∈ history ∧
    verifyIdentity lib (some identity) users account ownEmail = .ok ()
  selected : ⟨.forAccount account, .ok ()⟩ ∈ history

/-- Nothing is written but the response, and only when the identity has passed. -/
def verifyContract (lib : GoLib) (users : List User) (account : Int) (ownEmail : Text) : Program.Contract Answer where
  may _ _ _ := True
  must history request := ∀ record, request = .write record → Verified lib users account ownEmail history ∧
    stdout history = [] ∧ record = lib.marshal (.obj (verifyResponse account (trimSpace ownEmail))) ++ text "\n"

/-- A run that returns has written the response. -/
def Answered (lib : GoLib) (account : Int) (ownEmail : Text) : Except GoError Unit → History → Prop
  | .ok _, history => ∃ before written, stdout before = [] ∧ written.error = none ∧ history = before ++
      [⟨.write (lib.marshal (.obj (verifyResponse account (trimSpace ownEmail))) ++ text "\n"), written⟩]
  | .error _, _ => True

section
variable {lib : GoLib} {users : List User} {account : Int} {ownEmail : Text}

private theorem newSDKClients_meets : Program.Meets (verifyContract lib users account ownEmail)
    (Program.Returns fun identity later => later = [⟨.identity, .ok identity⟩, ⟨.forAccount account, .ok ()⟩])
    [] (newSDKClients account) := by
  refine Program.meets_ask (by rintro _ ⟨⟩) ?_
  intro outcome _
  have passed : Program.Meets (verifyContract lib users account ownEmail)
      (Program.Returns fun identity later => outcome = .ok identity ∧ later = [⟨.identity, .ok identity⟩])
      [⟨.identity, outcome⟩] ((pass outcome).mapFail (GoError.wrap (text "fetch identity"))) := by
    cases outcome with
    | error _ => exact trivial
    | ok identity => exact ⟨rfl, rfl⟩
  refine passed.bind_returns ?_
  rintro identity _ ⟨rfl, rfl⟩
  have checked : Program.Meets (verifyContract lib users account ownEmail)
      (Program.Returns fun _ later => later = [⟨.identity, .ok identity⟩]) [⟨.identity, .ok identity⟩]
        (verifyAccount identity account) := by
    cases identity with
    | none => exact trivial
    | some found =>
      rw [verifyAccount, require]
      split
      · exact rfl
      · exact trivial
  refine checked.bind_returns ?_
  rintro _ _ rfl
  refine Program.meets_ask (by rintro _ ⟨⟩) ?_
  intro selected _
  cases selected with
  | error _ => exact trivial
  | ok _ => exact rfl

private theorem runVerify_meets : Program.Meets (verifyContract lib users account ownEmail) (Answered lib account ownEmail) []
    (runVerify lib users account ownEmail) := by
  refine newSDKClients_meets.bind ?_ fun _ _ _ => trivial
  rintro identity _ rfl
  cases checked : verifyIdentity lib identity users account ownEmail with
  | error _ =>
    rw [Except.mapError]
    exact trivial
  | ok _ =>
    cases identity with
    | none => cases checked
    | some found =>
      refine meets_require (fun _ => ?_) trivial
      have verified : Verified lib users account ownEmail [⟨.identity, .ok (some found)⟩, ⟨.forAccount account, .ok ()⟩] :=
        ⟨⟨found, by simp, checked⟩, by simp⟩
      refine Program.meets_ask ?_ ?_
      · rintro record ⟨⟩
        exact ⟨verified, rfl, rfl⟩
      · intro written _
        cases ended : written.error with
        | some _ => exact trivial
        | none => exact ⟨_, written, rfl, ended, rfl⟩

end

/-! ## The client and the sidecar -/

/-- `account_id` of the client -/
def clientAccount (client : Client) : Int := digitsValue client.account

private theorem clientAccount_machine (client : Client) : Credentials.Machine (clientAccount client) ∧
    client.accountID.toInt = clientAccount client := by
  obtain ⟨_, n, positive, bound, spelled⟩ := Accounts.canonicalAccount_eq_ok.mp client.canonical
  rw [Client.accountID, clientAccount, spelled, digitsValue_decimal, Int64.toInt_ofNat_of_lt bound]
  exact ⟨⟨by omega, by omega⟩, rfl⟩

private theorem verifyProgram_meets (standard : net.Standard) (lib : GoLib) (users : List User) (client : Client) :
    Program.Meets (verifyContract lib users (clientAccount client) client.ownEmail)
      (Answered lib (clientAccount client) client.ownEmail) [] (verifyProgram lib net users client) := by
  rw [verifyProgram, readArguments_verify standard, Client.meaning]
  by_cases unnamed : trimSpace client.ownEmail = []
  · rw [if_pos unnamed]
    exact trivial
  · rw [if_neg unnamed]
    simp only [(clientAccount_machine client).2]
    exact runVerify_meets

private theorem stdout_append (first later : History) : stdout (first ++ later) = stdout first ++ stdout later :=
  List.flatMap_append

private theorem stdout_write (record : Text) (written : Written) :
    stdout [⟨.write record, written⟩] = record.take written.count := List.append_nil _

private theorem write_of_result {invocation : Invocation program}
    (returned : runSidecar codec operation invocation = .ok result) :
    ∃ before record written after, invocation.trace = before ++ ⟨.write record, written⟩ :: after := by
  by_contra silent
  have unwritten : stdout invocation.trace = [] := by
    refine List.flatMap_eq_nil_iff.mpr ?_
    rintro ⟨request, answer⟩ held
    cases request with
    | write record =>
      obtain ⟨before, after, split⟩ := List.append_of_mem held
      exact absurd ⟨before, record, answer, after, split⟩ silent
    | _ => rfl
  have empty : invocation.output = [] := by rw [Invocation.output, unwritten, Text.utf8_nil, List.take_nil]
  rw [runSidecar] at returned
  split at returned
  · cases returned
  split at returned
  · cases returned
  split at returned
  · cases returned
  split at returned
  · cases returned
  rw [empty] at returned
  cases returned

private theorem decodes_response (machine : Credentials.Machine account) (scalars : Scalars email) :
    decodeSidecarBytes codec (Text.utf8 (GoJson.marshal (.obj (verifyResponse account email)) ++ text "\n")) =
      .ok (.obj (verifyResponse account email)) := by
  have kept : Json.Kept rejectDuplicateKeys (.obj (verifyResponse account email)) := by
    refine Wire.kept_object (by simp only [verifyResponse, List.map_cons, List.map_nil]; decide) ?_
    have version : (2 : Int).natAbs < 10 ^ digitLimit := Wire.machine_fits ⟨by decide, by decide⟩
    simp only [verifyResponse, List.forall_mem_cons]
    exact ⟨trivial, version, trivial, Wire.machine_fits machine, trivial, by simp⟩
  have plain : Plain (.obj (verifyResponse account email)) := by
    refine ⟨by simp only [verifyResponse, List.map_cons, List.map_nil]; decide, ?_⟩
    simp [verifyResponse, PlainMembers, Plain]
  have writable : Writable (.obj (verifyResponse account email)) := by
    refine writableMembers_iff.mpr ?_
    simp only [verifyResponse, List.forall_mem_cons]
    exact ⟨⟨scalars_text _, trivial⟩, ⟨scalars_text _, trivial⟩, ⟨scalars_text _, scalars_text "0.24.0"⟩,
      ⟨scalars_text _, trivial⟩, ⟨scalars_text _, scalars⟩, by simp⟩
  have document := GoJson.marshalStyle.document _ plain writable
  have printable : Printable (GoJson.marshal (.obj (verifyResponse account email))) :=
    GoJson.marshalStyle.printable printable_nil _ plain
  refine decodeSidecarBytes_eq_ok.mpr ⟨_, document.decodeBytes_line printable codec, ?_⟩
  exact document.loads kept (by simp [Blank, Json.isSpace]) trivial

private theorem accepts_response (account : Int) (email : Text) :
    acceptedResponse account email (verifyResponse account email) = true := by
  have keys : sameKeys ((verifyResponse account email).map Prod.fst)
      [text "ok", text "protocol_version", text "sdk_version", text "account", text "email"] = true := by
    simp only [verifyResponse, List.map_cons, List.map_nil]
    decide
  rw [acceptedResponse, keys]
  simp [verifyResponse, List.lookup_cons, text_beq]

/-- **The handshake.** The client accepts a sidecar only if that run found the client's account and address
in the identity of the server; and if it returned, its output was read and the address has no white
space around it, the client does accept it. -/
theorem handshake_verifies (standard : net.Standard) (lib : GoLib) (codec : Encoding → List UInt8 → Option Text)
    (marshal : lib.marshal = GoJson.marshal) (users : List User)
    (client : Client) (scalars : Scalars client.ownEmail) (invocation : Invocation (verifyProgram lib net users client)) :
    (verify client (runSidecar codec (text "verify") invocation) = .ok true →
      Verified lib users (clientAccount client) client.ownEmail invocation.trace ∧ invocation.ending.returncode = 0) ∧
      (invocation.ending = .exited (.ok ()) → invocation.started = true → invocation.timedOut = false →
        Wire.Piped invocation.trace → (Text.utf8 (stdout invocation.trace)).length ≤ min invocation.read maxSidecarOutput →
          trimSpace client.ownEmail = client.ownEmail → verify client (runSidecar codec (text "verify") invocation) = .ok true) := by
  obtain ⟨reached, calls⟩ := (verifyProgram_meets standard lib users client).run invocation.ran fun _ _ _ _ => trivial
  constructor
  · intro accepted
    cases returned : runSidecar codec (text "verify") invocation with
    | error _ =>
      rw [returned] at accepted
      cases accepted
    | ok result =>
      obtain ⟨before, record, written, after, split⟩ := write_of_result returned
      obtain ⟨verified, _, _⟩ := calls before _ after split record rfl
      have earlier : before ⊆ invocation.trace := fun event held => split ▸ List.mem_append_left _ held
      obtain ⟨⟨identity, answered, checked⟩, selected⟩ := verified
      refine ⟨⟨⟨identity, earlier answered, checked⟩, earlier selected⟩, ?_⟩
      by_contra failed
      rw [runSidecar, if_pos failed] at returned
      split at returned
      · cases returned
      split at returned
      · cases returned
      split at returned <;> cases returned
  · intro ending started running piped read trimmed
    rw [invocation.exited _ ending] at reached
    obtain ⟨before, written, silent, ended, split⟩ := reached
    rw [List.nil_append] at split
    have whole := (piped before _ written [] split).1 ended
    have printed : stdout invocation.trace =
        GoJson.marshal (.obj (verifyResponse (clientAccount client) client.ownEmail)) ++ text "\n" := by
      rw [split, stdout_append, silent, List.nil_append]
      refine (stdout_write _ written).trans ?_
      rw [List.take_of_length_le whole, marshal, trimmed]
    have output : invocation.output = Text.utf8 (stdout invocation.trace) := by
      rw [Invocation.output, List.take_of_length_le]
      omega
    have returned : runSidecar codec (text "verify") invocation = .ok (verifyResponse (clientAccount client) client.ownEmail) := by
      have success : invocation.ending.returncode = 0 := by rw [ending]; rfl
      have small : ¬ maxSidecarOutput < invocation.output.length := by
        rw [output]
        omega
      rw [runSidecar, if_neg (by simp [started]), if_neg (by simp [running]), if_neg small, if_neg (by simp [success]), output,
        printed, decodes_response (clientAccount_machine client).1 scalars]
    rw [returned]
    exact if_pos (accepts_response _ _)

/-- A client that the server knows by its address. -/
def sampleVerifier : Client := { sampleClient with ownEmail := text "me@example.com" }

def sampleUsers : List User := [⟨42, ⟨9, text "Me", text "Me@Example.com "⟩⟩]

def sampleAnswers : History :=
  [⟨.identity, .ok (some ⟨[⟨42, text "active", text "personal"⟩]⟩)⟩, ⟨.forAccount 42, .ok ()⟩,
    ⟨.write (GoJson.marshal (.obj (verifyResponse 42 (text "me@example.com"))) ++ text "\n"), ⟨200, none⟩⟩]

theorem handshake_verifies_sample : ∃ invocation : Invocation (verifyProgram Wire.sampleTextLib sampleNet sampleUsers sampleVerifier),
    verify sampleVerifier (runSidecar (fun _ _ => none) (text "verify") invocation) = .ok true ∧
      Verified Wire.sampleTextLib sampleUsers (clientAccount sampleVerifier) sampleVerifier.ownEmail invocation.trace := by
  have standard : sampleNet.Standard := ⟨by simp only [sampleNet, ↓reduceIte]⟩
  have ran : Run Program.Step (verifyProgram Wire.sampleTextLib sampleNet sampleUsers sampleVerifier) sampleAnswers
      (Program.lift (.ok ())) := by
    rw [verifyProgram, readArguments_verify standard, Client.meaning, if_neg (by decide +kernel)]
    exact .cons .answered (.cons .answered (.cons .answered .nil))
  let invocation : Invocation (verifyProgram Wire.sampleTextLib sampleNet sampleUsers sampleVerifier) :=
    { trace := sampleAnswers, rest := Program.lift (.ok ()), ran, started := true, timedOut := false,
      ending := .exited (.ok ()), exited := by rintro _ ⟨⟩; rfl, read := 200 }
  have piped : Wire.Piped invocation.trace := by
    intro before record written after split
    have held : ⟨.write record, written⟩ ∈ sampleAnswers := by
      have same : sampleAnswers = _ := split
      rw [same]
      simp
    simp only [sampleAnswers, List.mem_cons, List.not_mem_nil, or_false] at held
    rcases held with same | same | same <;> cases same
    exact ⟨fun _ => by decide +kernel, fun failed => absurd rfl failed⟩
  obtain ⟨sound, complete⟩ := handshake_verifies standard Wire.sampleTextLib (fun _ _ => none) rfl sampleUsers sampleVerifier
    (scalars_text "me@example.com") invocation
  have read : (Text.utf8 (stdout sampleAnswers)).length ≤ min 200 maxSidecarOutput := by decide +kernel
  have accepted := complete rfl rfl rfl piped read (by decide +kernel)
  exact ⟨invocation, accepted, (sound accepted).1⟩

end HermesHey.Sidecar
