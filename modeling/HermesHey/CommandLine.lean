import HermesHey.Accounts
import HermesHey.Library.Duration
import HermesHey.Library.Flags
import HermesHey.Library.GoJsonDocument
import HermesHey.SidecarReply

/-! The command lines of `client.py`, and what `run` of `app.go` makes of its arguments.
The sidecar understands a request as the client meant it, or refuses it before any call. -/
namespace HermesHey.CommandLine
open Library Library.Json Library.Duration HermesHey.Core HermesHey.Sidecar Accounts
open Library.Flags (Flag Distinct written spell)

/-! ## The sidecar -/

/-- What the flags of a mode are set to. -/
structure Options where
  account : Text
  ownEmail : Text
  configDir : Text
  baseURL : Text
  threadID : Text
  cursorState : Text
  pollInterval : Int64

def defaultURL : Text := text "https://app.hey.com"

/-- The values before `Parse`. -/
def defaults : Options where
  account := []
  ownEmail := []
  configDir := []
  baseURL := defaultURL
  threadID := []
  cursorState := []
  pollInterval := 30 * 1000000000

def accountFlag : Flag Options := ⟨text "account", fun options value => some { options with account := value }⟩
def ownEmailFlag : Flag Options := ⟨text "own-email", fun options value => some { options with ownEmail := value }⟩
def configDirFlag : Flag Options := ⟨text "config-dir", fun options value => some { options with configDir := value }⟩
def baseURLFlag : Flag Options := ⟨text "base-url", fun options value => some { options with baseURL := value }⟩
def threadFlag : Flag Options := ⟨text "thread-id", fun options value => some { options with threadID := value }⟩
def cursorStateFlag : Flag Options := ⟨text "cursor-state", fun options value => some { options with cursorState := value }⟩

def pollIntervalFlag : Flag Options where
  name := text "poll-interval"
  set options value := (parseDuration value.utf8).toOption.map fun interval => { options with pollInterval := interval }

/-- `commonFlags` -/
def commonFlags (withEmail : Bool) : List (Flag Options) :=
  accountFlag :: (if withEmail then [ownEmailFlag] else []) ++ [configDirFlag, baseURLFlag]

/-- What `url.Parse` makes of a URL. -/
structure URL where
  scheme : Text
  user : Bool
  host : Text
  hostname : Text
  path : Text
  rawQuery : Text
  fragment : Text

/-- What `validateBaseURL` uses of the packages `net/url` and `net`. -/
structure NetLib where
  parse : Text → Option URL
  /-- `ParseIP` gives an address, and it `IsLoopback`. -/
  loopback : Text → Bool

/-- How the packages read the address that is the default. -/
structure NetLib.Standard (net : NetLib) : Prop where
  parsed : net.parse defaultURL = some
    { scheme := text "https", user := false, host := text "app.hey.com", hostname := text "app.hey.com", path := [],
      rawQuery := [], fragment := [] }

/-- `validateBaseURL` -/
def validateBaseURL (net : NetLib) (value : Text) : Except Text Unit :=
  match net.parse value with
  | none => .error (text "invalid base URL")
  | some url =>
    if url.host = [] ∨ url.user ∨ url.path ≠ [] ∧ url.path ≠ text "/" ∨ url.rawQuery ≠ [] ∨ url.fragment ≠ [] then
      .error (text "invalid base URL")
    else if url.scheme = text "https" then .ok ()
    else if url.scheme = text "http" ∧ (url.hostname = text "localhost" ∨ net.loopback url.hostname) then .ok ()
    else .error (text "base URL must use HTTPS")

/-- `validateCommon` -/
def validateCommon (net : NetLib) (options : Options) : Except Text Int64 := do
  let account ← parseCanonicalAccount options.account.utf8
  if trimSpace options.configDir = [] then .error (text "config directory is required")
  else
    validateBaseURL net options.baseURL
    return account

/-- The mode of a run, and what it goes on with. -/
inductive Command where
  | verify (account : Int64) (options : Options)
  | watch (account : Int64) (options : Options)
  | thread (method : Adapter.Method) (account threadID : Int64) (options : Options)

/-- The flags of a mode, and no argument that is left. -/
def parseMode (mode : String) (formal : List (Flag Options)) (arguments : List Text) : Except Text Options :=
  match Flags.parse formal defaults arguments with
  | .ok (options, []) => .ok options
  | _ => .error (text "invalid " ++ text mode ++ text " arguments")

/-- The mode `verify`, up to `newSDKClients` -/
def readVerify (net : NetLib) (arguments : List Text) : Except Text Command := do
  let options ← parseMode "verify" (commonFlags true) arguments
  let account ← validateCommon net options
  if trimSpace options.ownEmail = [] then .error (text "own email is required")
  else return .verify account options

/-- The mode `watch`, up to `newSDKClients` -/
def readWatch (net : NetLib) (arguments : List Text) : Except Text Command := do
  let options ← parseMode "watch" (commonFlags true ++ [cursorStateFlag, pollIntervalFlag]) arguments
  let account ← validateCommon net options
  if trimSpace options.ownEmail = [] ∨ options.cursorState = [] ∨ options.pollInterval ≤ 0 then
    .error (text "invalid watch arguments")
  else return .watch account options

/-- The modes `reply` and `comment`, up to `newSDKClients` -/
def readThread (net : NetLib) (method : Adapter.Method) (mode : String) (arguments : List Text) : Except Text Command := do
  let options ← parseMode mode (commonFlags false ++ [threadFlag]) arguments
  let account ← validateCommon net options
  match Strconv.parseInt options.threadID.utf8 with
  | .error _ => .error (text "thread ID must be positive")
  | .ok threadID =>
    if threadID ≤ 0 then .error (text "thread ID must be positive")
    else return .thread method account threadID options

/-- `run`, up to `newSDKClients` -/
def readArguments (net : NetLib) : List Text → Except Text Command
  | [] => .error (text "a mode is required")
  | mode :: arguments =>
    if mode = text "verify" then readVerify net arguments
    else if mode = text "watch" then readWatch net arguments
    else if mode = text "reply" then readThread net .reply "reply" arguments
    else if mode = text "comment" then readThread net .comment "comment" arguments
    else .error (text "unknown mode")

/-! ## The client -/

/-- What the classes of `client.py` are made with. A resolved directory is an absolute path. -/
structure Client where
  account : Text
  ownEmail : Text
  credentialDir : Text
  canonical : canonicalAccount (.str account) = .ok account
  resolved : trimSpace credentialDir ≠ []

inductive Request where
  | verify
  | watch (cursorState pollInterval : Text)
  | thread (method : Adapter.Method) (threadID : Int)

namespace Client

/-- The `command` of `make_sidecar_runner`, after the binary -/
def runnerCommand (client : Client) (args : List Text) : List Text :=
  args ++ [text "--account", client.account, text "--config-dir", client.credentialDir]

/-- The `command` of `HeySDKWatch.lines`, after the binary -/
def watchCommand (client : Client) (cursorState pollInterval : Text) : List Text :=
  [text "watch", text "--own-email", client.ownEmail, text "--cursor-state", cursorState, text "--poll-interval",
    pollInterval, text "--account", client.account, text "--config-dir", client.credentialDir]

/-- The arguments of the process that serves the request. -/
def command (client : Client) : Request → List Text
  | .verify => client.runnerCommand [text "verify", text "--own-email", client.ownEmail]
  | .watch cursorState pollInterval => client.watchCommand cursorState pollInterval
  | .thread .reply threadID => client.runnerCommand [text "reply", text "--thread-id", decimalInt threadID]
  | .thread .comment threadID => client.runnerCommand [text "comment", text "--thread-id", decimalInt threadID]

/-- `int(self.account)` -/
def accountID (client : Client) : Int64 := .ofNat (digitsValue client.account)

/-- The values that every command sets. -/
def options (client : Client) : Options :=
  { defaults with account := client.account, configDir := client.credentialDir }

/-- What a request means. -/
def meaning (client : Client) : Request → Except Text Command
  | .verify =>
    if trimSpace client.ownEmail = [] then .error (text "own email is required")
    else .ok (.verify client.accountID { client.options with ownEmail := client.ownEmail })
  | .watch cursorState pollInterval =>
    match parseDuration pollInterval.utf8 with
    | .error _ => .error (text "invalid watch arguments")
    | .ok interval =>
      if trimSpace client.ownEmail = [] ∨ cursorState = [] ∨ interval ≤ 0 then .error (text "invalid watch arguments")
      else .ok (.watch client.accountID
        { client.options with ownEmail := client.ownEmail, cursorState, pollInterval := interval })
  | .thread method threadID =>
    if 0 < threadID ∧ threadID < 2 ^ 63 then
      .ok (.thread method client.accountID (.ofInt threadID) { client.options with threadID := decimalInt threadID })
    else .error (text "thread ID must be positive")

end Client

/-! ## Requests are understood -/

private theorem distinct_email : Distinct (commonFlags true) := ⟨by decide, by decide⟩

private theorem distinct_watch : Distinct (commonFlags true ++ [cursorStateFlag, pollIntervalFlag]) := ⟨by decide, by decide⟩

private theorem distinct_thread : Distinct (commonFlags false ++ [threadFlag]) := ⟨by decide, by decide⟩

private theorem parseMode_written (mode : String) (distinct : Distinct formal) (settings : List (Flag Options × Text))
    (listed : ∀ setting ∈ settings, setting.1 ∈ formal) : parseMode mode formal (written settings) =
      match settings.foldlM (fun options setting => setting.1.set options setting.2) defaults with
      | none => .error (text "invalid " ++ text mode ++ text " arguments")
      | some options => .ok options := by
  rw [parseMode, Flags.parse_written distinct settings listed]
  cases settings.foldlM (fun options setting => setting.1.set options setting.2) defaults <;> rfl

private theorem validateCommon_client (standard : net.Standard) (client : Client) {options : Options}
    (account : options.account = client.account) (configDir : options.configDir = client.credentialDir)
    (baseURL : options.baseURL = defaultURL) : validateCommon net options = .ok client.accountID := by
  have read : parseCanonicalAccount client.account.utf8 = .ok client.accountID := by
    obtain ⟨_, n, positive, bound, spelled⟩ := canonicalAccount_eq_ok.mp client.canonical
    have literal : text (String.ofList (Nat.toDigits 10 n)) = decimal n := by rw [text, String.toList_ofList, decimal]
    rw [Client.accountID, spelled, digitsValue_decimal, ← literal, Text.utf8_text]
    exact parseCanonicalAccount_eq_ok.mpr ⟨n, positive, bound, literal, rfl⟩
  have secure : validateBaseURL net defaultURL = .ok () := by
    rw [validateBaseURL, standard.parsed]
    rfl
  rw [validateCommon, account, configDir, baseURL, read]
  simp only [bind, Except.bind, if_neg client.resolved, secure]
  rfl

private theorem readThread_client (standard : net.Standard) (client : Client) (method : Adapter.Method)
    (mode : String)
    (threadID : Int) : readThread net method mode (written [(threadFlag, decimalInt threadID), (accountFlag, client.account),
      (configDirFlag, client.credentialDir)]) = client.meaning (.thread method threadID) := by
  have parsed := parseMode_written mode distinct_thread [(threadFlag, decimalInt threadID),
    (accountFlag, client.account), (configDirFlag, client.credentialDir)] (by simp [commonFlags])
  have common : validateCommon net { client.options with threadID := decimalInt threadID } = .ok client.accountID :=
    validateCommon_client standard client rfl rfl rfl
  rw [readThread, parsed]
  simp only [List.foldlM_cons, List.foldlM_nil, threadFlag, accountFlag, configDirFlag, bind, Option.bind, Except.bind, pure,
    Client.meaning]
  change Except.bind (validateCommon net { client.options with threadID := decimalInt threadID }) _ = _
  rw [common]
  simp only [Except.bind, GoJson.utf8_decimalInt]
  by_cases fits : -2 ^ 63 ≤ threadID ∧ threadID < 2 ^ 63
  · have positive : Int64.ofInt threadID ≤ 0 ↔ threadID ≤ 0 := by
      rw [Int64.le_iff_toInt_le, Int64.toInt_ofInt_of_le fits.1 fits.2]
      rfl
    rw [Strconv.parseInt_formatInt fits.1 fits.2]
    simp only [positive]
    by_cases refused : threadID ≤ 0
    · rw [if_pos refused, if_neg (by omega)]
    · rw [if_neg refused, if_pos (by omega)]
      rfl
  · rw [Strconv.parseInt_outside (by omega), if_neg (by omega)]

private theorem readVerify_client (standard : net.Standard) (client : Client) :
    readVerify net (written [(ownEmailFlag, client.ownEmail), (accountFlag, client.account),
      (configDirFlag, client.credentialDir)]) = client.meaning .verify := by
  have parsed := parseMode_written "verify" distinct_email [(ownEmailFlag, client.ownEmail),
    (accountFlag, client.account), (configDirFlag, client.credentialDir)] (by simp [commonFlags])
  have common : validateCommon net { client.options with ownEmail := client.ownEmail } = .ok client.accountID :=
    validateCommon_client standard client rfl rfl rfl
  rw [readVerify, parsed]
  simp only [List.foldlM_cons, List.foldlM_nil, ownEmailFlag, accountFlag, configDirFlag, bind, Option.bind, Except.bind, pure,
    Client.meaning]
  change Except.bind (validateCommon net { client.options with ownEmail := client.ownEmail }) _ = _
  rw [common]
  rfl

private theorem readWatch_client (standard : net.Standard) (client : Client) (cursorState pollInterval : Text) :
    readWatch net (written [(ownEmailFlag, client.ownEmail), (cursorStateFlag, cursorState), (pollIntervalFlag, pollInterval),
      (accountFlag, client.account), (configDirFlag, client.credentialDir)]) =
        client.meaning (.watch cursorState pollInterval) := by
  have parsed := parseMode_written "watch" distinct_watch [(ownEmailFlag, client.ownEmail), (cursorStateFlag, cursorState),
    (pollIntervalFlag, pollInterval), (accountFlag, client.account), (configDirFlag, client.credentialDir)] (by simp [commonFlags])
  rw [readWatch, parsed]
  simp only [List.foldlM_cons, List.foldlM_nil, ownEmailFlag, accountFlag, configDirFlag, cursorStateFlag, pollIntervalFlag,
    bind, Option.bind, Except.bind, pure, Client.meaning]
  cases parseDuration pollInterval.utf8 with
  | error _ => rfl
  | ok interval =>
    have common : validateCommon net
        { client.options with ownEmail := client.ownEmail, cursorState, pollInterval := interval } = .ok client.accountID :=
      validateCommon_client standard client rfl rfl rfl
    change Except.bind (validateCommon net
      { client.options with ownEmail := client.ownEmail, cursorState, pollInterval := interval }) _ = _
    rw [common]
    rfl

/-- The arguments of the verification are read back. -/
theorem readArguments_verify (standard : net.Standard) (client : Client) :
    readArguments net (client.command .verify) = client.meaning .verify := readVerify_client standard client

/-- So are those of a reply and of a comment. -/
theorem readArguments_thread (standard : net.Standard) (client : Client) (method : Adapter.Method) (threadID : Int) :
    readArguments net (client.command (.thread method threadID)) = client.meaning (.thread method threadID) := by
  cases method with
  | reply => exact readThread_client standard client .reply "reply" threadID
  | comment => exact readThread_client standard client .comment "comment" threadID

/-- **The sidecar understands the client.** Every command line that the client builds is read as the
request it stands for, whatever the values are, or refused as the request itself is. -/
theorem command_understood (standard : net.Standard) (client : Client) (request : Request) :
    readArguments net (client.command request) = client.meaning request := by
  cases request with
  | verify => exact readArguments_verify standard client
  | watch cursorState pollInterval => exact readWatch_client standard client cursorState pollInterval
  | thread method threadID => exact readArguments_thread standard client method threadID

/-- A library that knows the default address only. -/
def sampleNet : NetLib where
  parse url := if url = defaultURL then some
    { scheme := text "https", user := false, host := text "app.hey.com", hostname := text "app.hey.com", path := [],
      rawQuery := [], fragment := [] } else none
  loopback _ := false

/-- A client whose address looks like a flag. -/
def sampleClient : Client where
  account := text "42"
  ownEmail := text "--help"
  credentialDir := text "/var/lib/hey"
  canonical := by decide +kernel
  resolved := by decide

theorem command_understood_sample : readArguments sampleNet (sampleClient.command .verify) =
    .ok (.verify 42 { sampleClient.options with ownEmail := text "--help" }) := by
  have standard : sampleNet.Standard := ⟨by simp only [sampleNet, ↓reduceIte]⟩
  rw [command_understood standard sampleClient .verify, Client.meaning, if_neg (by decide +kernel)]
  rfl

end HermesHey.CommandLine
