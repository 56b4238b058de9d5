import HermesHey.Library.Decimal
import HermesHey.Library.Transition
import Mathlib.Logic.Function.Basic

/-! Calls of `AccessToken` and `Refresh` on one credential directory, by any
number of credential managers in any number of processes. -/
namespace HermesHey.Credentials
open Library

structure Credential where
  accessToken : Text
  refreshToken : Text
  expiresAt : Int
  oauthType : Text
  tokenEndpoint : Text
  sessionCookie : Text
  scope : Text
  userId : Text
  deriving DecidableEq

/-- `credentials.json`: the entries by origin. -/
abbrev File := Text → Option Credential

/-- Another call of the operating system, or the data it reads, makes `load` fail. -/
def load (file : File) (origin : Text) : Option Text → Except Text (Credential × File)
  | some reason => .error reason
  | none =>
    match file origin with
    | none => .error (text "credentials not found")
    | some credential => .ok (credential, file)

/-- `load` returns what the file holds for the origin, and all of the file beside it. -/
theorem load_ok : load file origin fault = .ok (credential, all) ↔
    fault = none ∧ file origin = some credential ∧ all = file := by
  cases fault with
  | some reason => simp [load]
  | none =>
    cases found : file origin with
    | none => simp [load, found]
    | some stored => simp [load, found, eq_comm]

inductive SaveFault where
  /-- Nothing has replaced `credentials.json`. -/
  | unwritten (reason : Text)
  /-- `syncParentDirectory` fails after the replacement. -/
  | unsynced (reason : Text)

/-- The file after `save`, and its error. -/
def save (file all : File) (origin : Text) (credential : Credential) (fault : Option SaveFault) :
    File × Option Text :=
  if credential.accessToken = [] then (file, some (text "invalid credential state"))
  else
    match fault with
    | none => (Function.update all origin (some credential), none)
    | some (.unwritten reason) => (file, some reason)
    | some (.unsynced reason) => (Function.update all origin (some credential), some reason)

/-- A save that succeeded wrote a usable credential over what was loaded, and nothing else. -/
theorem save_saved (saved : save file all origin credential fault = (file', none)) :
    credential.accessToken ≠ [] ∧ file' = Function.update all origin (some credential) := by
  unfold save at saved
  split at saved
  · cases saved
  · rename_i present
    cases fault with
    | none =>
      cases saved
      exact ⟨present, rfl⟩
    | some fault => cases fault <;> cases saved

/-! ## A refresh -/

/-- `credential.ExpiresAt > 0 && time.Now().Unix() >= credential.ExpiresAt-300` -/
def Credential.expired (credential : Credential) (now : Int) : Bool :=
  0 < credential.expiresAt ∧ credential.expiresAt - 300 ≤ now

def cliOAuthClientID : Text := text "khMWSVDVSq78oyKA3KtxmYRv"
def cliInstallID : Text := text "hey-cli"
def refreshField : Text := text "refresh_token"

/-- The form posted to the token endpoint. -/
def refreshForm (credential : Credential) : List (Text × Text) :=
  [(text "grant_type", text "refresh_token"), (text "client_id", cliOAuthClientID),
    (refreshField, credential.refreshToken), (text "install_id", cliInstallID)]

/-- The refresh token of a form is the one of the credential it was made from. -/
theorem refreshForm_token : (refreshForm credential).lookup refreshField = some credential.refreshToken := by
  simp only [refreshForm, refreshField, List.lookup_cons, text_beq]
  rfl

structure TokenResponse where
  accessToken : Text
  refreshToken : Text
  expiresIn : Int
  scope : Text

/-- The credential with what the token endpoint answered; `int64` wraps around. -/
def Credential.refreshed (credential : Credential) (token : TokenResponse) (now : Int) : Credential :=
  { credential with
    accessToken := token.accessToken
    refreshToken := if token.refreshToken = [] then credential.refreshToken else token.refreshToken
    expiresAt := if 0 < token.expiresIn then (now + token.expiresIn).bmod (2 ^ 64) else 0
    scope := if token.scope = [] then credential.scope else token.scope }

inductive RequestFault where
  | request (reason : Text)
  | body (reason : Text)
  | tooLarge
  | status (code : Nat)
  | invalid

def RequestFault.message : RequestFault → Text
  | .request reason => text "token refresh request failed: " ++ reason
  | .body reason => text "read token refresh response: " ++ reason
  | .tooLarge => text "token refresh response is too large"
  | .status code => text "token refresh failed with status " ++ decimal code
  | .invalid => text "token refresh returned invalid data"

/-! ## Calls -/

inductive Operation where
  | accessToken
  | refresh
  deriving DecidableEq

inductive Outcome where
  | token (accessToken : Text)
  | refreshed
  | failed (error : Text)
  deriving DecidableEq

/-- Which manager a call is made on, and what it calls. -/
structure Setup where
  manager : Nat → Nat
  operation : Nat → Operation
  originOf : Nat → Text
  /-- `hey.RequireSecureEndpoint` returns nil. -/
  secure : Text → Bool
  /-- The error of `http.NewRequestWithContext`. -/
  uncreatable : Text → Option Text

def Setup.origin (setup : Setup) (c : Nat) : Text := setup.originOf (setup.manager c)

/-- How far a call is, with the local variables that are still read. -/
inductive Phase where
  | idle
  /-- Waits for `m.mu`. -/
  | waiting
  /-- `AccessToken`, before its first `load`. -/
  | loading
  /-- `refreshLocked`, waiting for the file lock. -/
  | locking (observed : Text)
  | reloading (observed : Text)
  | sending (observed : Text) (credential : Credential) (all : File)
  | sent (observed : Text) (credential : Credential) (all : File)
  | saving (observed : Text) (credential : Credential) (all : File)
  /-- `refreshLocked` is about to return this error. -/
  | unlocking (error : Option Text)
  /-- `AccessToken`, before its second `load`. -/
  | concluding
  | leaving (outcome : Outcome)
  | returned (outcome : Outcome)

/-- `refreshLocked` after `load`, up to the request. -/
def Setup.judged (setup : Setup) (observed : Text) (credential : Credential) (all : File) : Phase :=
  if observed ≠ [] ∧ credential.accessToken ≠ [] ∧ credential.accessToken ≠ observed then .unlocking none
  else if credential.refreshToken = [] ∨ credential.tokenEndpoint = [] then
    .unlocking (some (text "refresh credentials are incomplete"))
  else if ¬ setup.secure credential.tokenEndpoint then .unlocking (some (text "token endpoint is not secure"))
  else
    match setup.uncreatable credential.tokenEndpoint with
    | some reason => .unlocking (some (text "create token refresh request: " ++ reason))
    | none => .sending observed credential all

/-- The end of `AccessToken`. -/
def concluded (credential : Credential) : Phase :=
  if credential.accessToken = [] then .leaving (.failed (text "credentials contain no access token"))
  else .leaving (.token credential.accessToken)

/-- `AccessToken` after its first `load`. -/
def afterLoad (credential : Credential) (now : Int) : Phase :=
  if credential.expired now then .locking credential.accessToken else concluded credential

/-- After `refreshLocked` has returned. -/
def Operation.after : Operation → Option Text → Phase
  | _, some error => .leaving (.failed error)
  | .accessToken, none => .concluding
  | .refresh, none => .leaving .refreshed

/-- The last token of a manager whose call has loaded this credential. -/
def remembered (before : Text) (credential : Credential) : Text :=
  if credential.accessToken = [] then before else credential.accessToken

structure State where
  file : File
  /-- The call that holds `credentials.lock`. -/
  lock : Option Nat
  /-- The calls that hold `m.mu`, by manager. -/
  mutex : Nat → Option Nat
  lastToken : Nat → Text
  phase : Nat → Phase

/-- New processes on a credential directory. -/
def State.initial (file : File) : State where
  file
  lock := none
  mutex _ := none
  lastToken _ := []
  phase _ := .idle

def State.goes (s : State) (c : Nat) (phase : Phase) : State :=
  { s with phase := Function.update s.phase c phase }

def State.remembers (s : State) (manager : Nat) (token : Text) : State :=
  { s with lastToken := Function.update s.lastToken manager token }

def State.holds (s : State) (manager : Nat) (holder : Option Nat) : State :=
  { s with mutex := Function.update s.mutex manager holder }

@[simp] theorem State.goes_phase (s : State) : (s.goes c next).phase = Function.update s.phase c next := rfl
@[simp] private theorem State.goes_file (s : State) : (s.goes c next).file = s.file := rfl
@[simp] private theorem State.goes_lock (s : State) : (s.goes c next).lock = s.lock := rfl
@[simp] private theorem State.remembers_phase (s : State) : (s.remembers m token).phase = s.phase := rfl
@[simp] private theorem State.remembers_file (s : State) : (s.remembers m token).file = s.file := rfl
@[simp] private theorem State.remembers_lock (s : State) : (s.remembers m token).lock = s.lock := rfl
@[simp] private theorem State.holds_phase (s : State) : (s.holds m holder).phase = s.phase := rfl
@[simp] private theorem State.holds_file (s : State) : (s.holds m holder).file = s.file := rfl
@[simp] private theorem State.holds_lock (s : State) : (s.holds m holder).lock = s.lock := rfl

/-- A step of a call. The credentials are those that `load` returned, that the
request is made of, and that `save` stored. -/
inductive Event where
  | starts (c : Nat)
  | enters (c : Nat)
  | observes (c : Nat) (credential : Credential) (now : Int)
  | locks (c : Nat)
  | reloads (c : Nat) (credential : Credential)
  | sends (c : Nat) (credential : Credential)
  | answers (c : Nat) (token : TokenResponse) (now : Int)
  | saves (c : Nat) (credential : Credential)
  | unlocks (c : Nat) (error : Option Text)
  | concludes (c : Nat) (credential : Credential)
  | returns (c : Nat) (outcome : Outcome)
  | loadFails (c : Nat) (reason : Text)
  | lockFails (c : Nat) (reason : Text)
  | requestFails (c : Nat) (fault : RequestFault)
  | saveFails (c : Nat) (reason : Text)

def Event.call : Event → Nat
  | .starts c | .enters c | .observes c _ _ | .locks c | .reloads c _ | .sends c _ | .answers c _ _
  | .saves c _ | .unlocks c _ | .concludes c _ | .returns c _
  | .loadFails c _ | .lockFails c _ | .requestFails c _ | .saveFails c _ => c

section
variable (setup : Setup)

/-- `m.mu` is taken: `Refresh` reads `m.lastToken` and calls `refreshLocked` at once. -/
def State.entered (s : State) (c : Nat) : Phase :=
  match setup.operation c with
  | .accessToken => .loading
  | .refresh => .locking (s.lastToken (setup.manager c))

/-- A call that `load` has failed in. -/
def loadFailure (reason : Text) : Phase → Option Phase
  | .loading => some (.leaving (.failed (text "load credentials: " ++ reason)))
  | .reloading _ => some (.unlocking (some (text "load credentials for refresh: " ++ reason)))
  | .concluding => some (.leaving (.failed (text "load refreshed credentials: " ++ reason)))
  | _ => none

inductive Step (s : State) : Event → State → Prop where
  | starts (here : s.phase c = .idle) : Step s (.starts c) (s.goes c .waiting)
  | enters (here : s.phase c = .waiting) (free : s.mutex (setup.manager c) = none) :
      Step s (.enters c) ((s.holds (setup.manager c) (some c)).goes c (s.entered setup c))
  | observes (here : s.phase c = .loading)
      (loaded : load s.file (setup.origin c) fault = .ok (credential, all)) :
      Step s (.observes c credential now)
        ((s.remembers (setup.manager c) credential.accessToken).goes c (afterLoad credential now))
  /-- The file lock is exclusive. -/
  | locks (here : s.phase c = .locking observed) (free : s.lock = none) :
      Step s (.locks c) (State.goes { s with lock := some c } c (.reloading observed))
  | reloads (here : s.phase c = .reloading observed)
      (loaded : load s.file (setup.origin c) fault = .ok (credential, all))
      (judged : setup.judged observed credential all = next) (asked : next ≠ .unlocking none) :
      Step s (.reloads c credential) (s.goes c next)
  /-- Another call has refreshed the token already. -/
  | reloadsOther (here : s.phase c = .reloading observed)
      (loaded : load s.file (setup.origin c) fault = .ok (credential, all))
      (judged : setup.judged observed credential all = .unlocking none) :
      Step s (.reloads c credential)
        ((s.remembers (setup.manager c) credential.accessToken).goes c (.unlocking none))
  /-- `refreshForm credential` is posted. -/
  | sends (here : s.phase c = .sending observed credential all) :
      Step s (.sends c credential) (s.goes c (.sent observed credential all))
  | answers (here : s.phase c = .sent observed credential all) (valid : token.accessToken ≠ []) :
      Step s (.answers c token now) (s.goes c (.saving observed (credential.refreshed token now) all))
  | saves (here : s.phase c = .saving observed credential all)
      (saved : save s.file all (setup.origin c) credential fault = (file, none)) :
      Step s (.saves c credential)
        ((State.remembers { s with file } (setup.manager c) credential.accessToken).goes c (.unlocking none))
  | unlocks (here : s.phase c = .unlocking error) :
      Step s (.unlocks c error) (State.goes { s with lock := none } c ((setup.operation c).after error))
  | concludes (here : s.phase c = .concluding)
      (loaded : load s.file (setup.origin c) fault = .ok (credential, all)) :
      Step s (.concludes c credential)
        ((s.remembers (setup.manager c) (remembered (s.lastToken (setup.manager c)) credential)).goes c
          (concluded credential))
  | returns (here : s.phase c = .leaving outcome) :
      Step s (.returns c outcome) ((s.holds (setup.manager c) none).goes c (.returned outcome))
  | loadFails (failed : load s.file (setup.origin c) fault = .error reason)
      (fails : loadFailure reason (s.phase c) = some next) :
      Step s (.loadFails c reason) (s.goes c next)
  | lockFails (here : s.phase c = .locking observed) :
      Step s (.lockFails c reason)
        (s.goes c (.leaving (.failed (text "lock credentials for refresh: " ++ reason))))
  | requestFails (here : s.phase c = .sent observed credential all) :
      Step s (.requestFails c fault) (s.goes c (.unlocking (some fault.message)))
  | saveFails (here : s.phase c = .saving observed credential all)
      (failed : save s.file all (setup.origin c) credential fault = (file, some reason)) :
      Step s (.saveFails c reason)
        (State.goes { s with file } c (.unlocking (some (text "save refreshed credentials: " ++ reason))))

end

/-! ## What a step does to the phases -/

/-- Phases in the order in which a call goes through them. -/
def Phase.rank : Phase → Nat
  | .idle => 0
  | .waiting => 1
  | .loading => 2
  | .locking _ => 3
  | .reloading _ => 4
  | .sending _ _ _ => 5
  | .sent _ _ _ => 6
  | .saving _ _ _ => 7
  | .unlocking _ => 8
  | .concluding => 9
  | .leaving _ => 10
  | .returned _ => 11

/-- The rank of the phase that the event ends, or less. -/
def Event.rank : Event → Nat
  | .enters _ => 1
  | .observes _ _ _ => 2
  | .locks _ => 3
  | .reloads _ _ => 4
  | .sends _ _ => 5
  | .answers _ _ _ => 6
  | .saves _ _ => 7
  | .unlocks _ _ => 8
  | .concludes _ _ => 9
  | .returns _ _ => 10
  | _ => 0

/-- A conclusion is followed by the end of the call alone. -/
theorem concluded_rank (credential : Credential) : 9 < (concluded credential).rank := by
  unfold concluded
  split <;> simp [Phase.rank]

private theorem afterLoad_rank (credential : Credential) (now : Int) : 2 < (afterLoad credential now).rank := by
  unfold afterLoad
  split
  · simp [Phase.rank]
  · exact (by decide : 2 < 9).trans (concluded_rank _)

private theorem judged_rank (setup : Setup) (observed : Text) (credential : Credential) (all : File) :
    4 < (setup.judged observed credential all).rank := by
  unfold Setup.judged
  split
  · simp [Phase.rank]
  split
  · simp [Phase.rank]
  split
  · simp [Phase.rank]
  split <;> simp [Phase.rank]

private theorem after_rank (operation : Operation) (error : Option Text) : 8 < (operation.after error).rank := by
  cases error with
  | some => simp [Operation.after, Phase.rank]
  | none => cases operation <;> simp [Operation.after, Phase.rank]

private theorem entered_rank (setup : Setup) (s : State) (c : Nat) : 1 < (s.entered setup c).rank := by
  unfold State.entered
  split <;> simp [Phase.rank]

private theorem loadFailure_rank (fails : loadFailure reason phase = some next) : phase.rank < next.rank := by
  cases phase <;> cases fails <;> simp [Phase.rank]

/-- A step moves one call only. -/
theorem step_others (taken : Step setup s e t) (other : c ≠ e.call) : t.phase c = s.phase c := by
  cases taken <;> exact Function.update_of_ne other _ _

/-- A call only goes on. -/
theorem step_rank (taken : Step setup s e t) :
    e.rank ≤ (s.phase e.call).rank ∧ (s.phase e.call).rank < (t.phase e.call).rank := by
  cases taken with
  | loadFails _ fails => exact ⟨Nat.zero_le _, by simpa [Event.call] using loadFailure_rank fails⟩
  | enters here free => simpa [Event.call, Event.rank, here, Phase.rank] using entered_rank setup s _
  | observes here loaded => simpa [Event.call, Event.rank, here, Phase.rank] using afterLoad_rank _ _
  | reloads here loaded judged asked =>
    subst judged
    simpa [Event.call, Event.rank, here, Phase.rank] using judged_rank setup _ _ _
  | unlocks here => simpa [Event.call, Event.rank, here, Phase.rank] using after_rank _ _
  | concludes here loaded => simpa [Event.call, Event.rank, here, Phase.rank] using concluded_rank _
  | _ here => simp [Event.call, Event.rank, here, Phase.rank]

end HermesHey.Credentials
