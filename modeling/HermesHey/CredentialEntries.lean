import HermesHey.TokenExpiry
import HermesHey.Library.RawMessages
import HermesHey.Library.GoJsonGrammar

/-! What a refresh leaves of `credentials.json`, as JSON. `load` and `save` of `auth.go`
keep the entries of other origins as raw messages, but decode the entry of their own
origin into `cliCredential` and write it anew. -/
namespace HermesHey.CredentialEntries
open Library HermesHey.Credentials
open Library.GoJson (Bytes Value Members RawMap readValue parse decodeMap marshalMap decodeStruct storeString
  storeInt64 finds integer lastOf)

/-! ## The structure -/

/-- The strings of `cliCredential`. -/
inductive Field where
  | accessToken
  | refreshToken
  | oauthType
  | tokenEndpoint
  | sessionCookie
  | scope
  | userId
  deriving DecidableEq

namespace Field

def all : List Field := [accessToken, refreshToken, oauthType, tokenEndpoint, sessionCookie, scope, userId]

/-- The name in the `json` tag. -/
def name : Field → String
  | accessToken => "access_token"
  | refreshToken => "refresh_token"
  | oauthType => "oauth_type"
  | tokenEndpoint => "token_endpoint"
  | sessionCookie => "session_cookie"
  | scope => "scope"
  | userId => "user_id"

/-- The tag has `omitempty`. -/
def omitEmpty : Field → Bool
  | oauthType | sessionCookie | scope | userId => true
  | accessToken | refreshToken | tokenEndpoint => false

def get (field : Field) (credential : Credential) : Text :=
  match field with
  | accessToken => credential.accessToken
  | refreshToken => credential.refreshToken
  | oauthType => credential.oauthType
  | tokenEndpoint => credential.tokenEndpoint
  | sessionCookie => credential.sessionCookie
  | scope => credential.scope
  | userId => credential.userId

def set (field : Field) (credential : Credential) (value : Text) : Credential :=
  match field with
  | accessToken => { credential with accessToken := value }
  | refreshToken => { credential with refreshToken := value }
  | oauthType => { credential with oauthType := value }
  | tokenEndpoint => { credential with tokenEndpoint := value }
  | sessionCookie => { credential with sessionCookie := value }
  | scope => { credential with scope := value }
  | userId => { credential with userId := value }

end Field

/-- `var credential cliCredential` -/
def zeroCredential : Credential where
  accessToken := []
  refreshToken := []
  expiresAt := 0
  oauthType := []
  tokenEndpoint := []
  sessionCookie := []
  scope := []
  userId := []

/-- What one member of an entry does to the credential. Unknown fields are dropped. -/
def storeCredential (credential : Credential) (member : Text × Value) : Option Credential :=
  if finds "expires_at" member.1 then
    (storeInt64 credential.expiresAt member.2).map fun value => { credential with expiresAt := value }
  else
    match Field.all.find? (finds ·.name member.1) with
    | none => some credential
    | some field => (storeString (field.get credential) member.2).map (field.set credential)

def decodeCredential : Value → Option Credential := decodeStruct storeCredential zeroCredential

/-- One field as `Marshal` writes it. -/
def marshalField (credential : Credential) (field : Field) : Members :=
  if field.omitEmpty ∧ field.get credential = [] then [] else [(text field.name, .string (field.get credential))]

/-- `json.Marshal(credential)` -/
def marshalCredential (credential : Credential) : Value :=
  .object (marshalField credential .accessToken ++ marshalField credential .refreshToken ++
    [(text "expires_at", integer credential.expiresAt)] ++
    [Field.oauthType, .tokenEndpoint, .sessionCookie, .scope, .userId].flatMap (marshalField credential))

/-! ## load and save -/

/-- `maxCredentialFileBytes` -/
def maxCredentialFileBytes : ℕ := 2 ^ 20

/-- `load` on the bytes of the file. The checks of the directory and of the file's mode come before. -/
def loadEntries (origin : Text) (data : Bytes) : Except Text (Credential × RawMap) :=
  if maxCredentialFileBytes < data.length then .error (text "credential file is insecure or oversized")
  else
    match readValue data with
    | .error _ => .error (text "invalid credential file")
    | .ok (file, rest) =>
      match decodeMap file, readValue rest with
      | some all, .error .eof =>
        match all.lookup origin with
        | none => .error (text "credentials not found")
        | some raw =>
          match decodeCredential raw with
          | none => .error (text "invalid credential entry")
          | some credential => .ok (credential, all)
      | _, _ => .error (text "invalid credential file")

/-- `save`: the value that it writes. The size of its text and the file system may keep it from that. -/
def saveEntries (origin : Text) (all : RawMap) (credential : Credential) (fault : Value → Option SaveFault) :
    Except Text Value :=
  if credential.accessToken = [] then .error (text "invalid credential state")
  else
    let file := marshalMap (all.insert origin (marshalCredential credential))
    match fault file with
    | some (.unwritten reason) | some (.unsynced reason) => .error reason
    | none => .ok file

/-! ## A refresh -/

/-- `maxTokenResponseBytes` -/
def maxTokenResponseBytes : ℕ := 2 ^ 20

def zeroToken : TokenResponse where
  accessToken := []
  refreshToken := []
  expiresIn := 0
  scope := []

/-- What one member of the response does to `token`. -/
def storeToken (token : TokenResponse) (member : Text × Value) : Option TokenResponse :=
  if finds "access_token" member.1 then
    (storeString token.accessToken member.2).map fun value => { token with accessToken := value }
  else if finds "refresh_token" member.1 then
    (storeString token.refreshToken member.2).map fun value => { token with refreshToken := value }
  else if finds "expires_in" member.1 then
    (storeInt64 token.expiresIn member.2).map fun value => { token with expiresIn := value }
  else if finds "scope" member.1 then
    (storeString token.scope member.2).map fun value => { token with scope := value }
  else some token

/-- The answer of the token endpoint: its status, and what `io.ReadAll` returns of the limited body. -/
structure Response where
  status : ℕ
  body : Except Text Bytes

/-- The part of `refreshLocked` that reads the response. -/
def readToken (response : Response) : Except RequestFault TokenResponse :=
  match response.body with
  | .error reason => .error (.body reason)
  | .ok body =>
    if maxTokenResponseBytes < body.length then .error .tooLarge
    else if response.status ≠ 200 then .error (.status response.status)
    else
      match (parse body).bind (decodeStruct storeToken zeroToken) with
      | none => .error .invalid
      | some token => if token.accessToken = [] then .error .invalid else .ok token

/-- What one refresh meets outside. -/
structure Outside where
  /-- `lockCredentials` fails. -/
  lock : Option Text
  /-- The file or its directory cannot be used. -/
  access : Option Text
  data : Bytes
  /-- `hey.RequireSecureEndpoint` -/
  secure : Text → Bool
  /-- `http.NewRequestWithContext` refuses the URL. -/
  uncreatable : Text → Option Text
  request : Text → List (Text × Text) → Except Text Response
  now : Int
  fault : Value → Option SaveFault

/-- `credentialManager.refreshLocked`. Without a request there is no file to save. -/
def refreshLocked (origin observed : Text) (outside : Outside) : Except Text (Option (TokenResponse × Value)) :=
  match outside.lock with
  | some reason => .error (text "lock credentials for refresh: " ++ reason)
  | none =>
    match outside.access.elim (loadEntries origin outside.data) .error with
    | .error reason => .error (text "load credentials for refresh: " ++ reason)
    | .ok (credential, all) =>
      if observed ≠ [] ∧ credential.accessToken ≠ [] ∧ credential.accessToken ≠ observed then .ok none
      else if credential.refreshToken = [] ∨ credential.tokenEndpoint = [] then
        .error (text "refresh credentials are incomplete")
      else if ¬ outside.secure credential.tokenEndpoint then .error (text "token endpoint is not secure")
      else
        match outside.uncreatable credential.tokenEndpoint with
        | some reason => .error (text "create token refresh request: " ++ reason)
        | none =>
          match outside.request credential.tokenEndpoint (refreshForm credential) with
          | .error reason => .error (RequestFault.request reason).message
          | .ok response =>
            match readToken response with
            | .error fault => .error fault.message
            | .ok token =>
              match saveEntries origin all (credential.refreshed token outside.now) outside.fault with
              | .error reason => .error (text "save refreshed credentials: " ++ reason)
              | .ok file => .ok (some (token, file))

/-! ## What a refresh should keep -/

/-- The fields that the response changes. -/
def Rotated (token : TokenResponse) (key : Text) : Prop :=
  key = text "access_token" ∨ key = text "expires_at" ∨ key = text "refresh_token" ∧ token.refreshToken ≠ [] ∨
    key = text "scope" ∧ token.scope ≠ []

/-- The field of an origin's entry. -/
def fieldOf (file : Value) (origin key : Text) : Option Value := (file.member origin).bind (·.member key)

/-- The file changes in the rotated fields of the origin's entry only. -/
structure OnlyRotates (origin : Text) (token : TokenResponse) (before after : Value) : Prop where
  others : ∀ other, other ≠ origin → after.member other = before.member other
  fields : ∀ key, ¬ Rotated token key → fieldOf after origin key = fieldOf before origin key

/-- Every field that is not rotated has the exact name of a string of `cliCredential` and is not empty. -/
def Storable (token : TokenResponse) (entry : Value) : Prop :=
  ∀ key value, entry.member key = some value → ¬ Rotated token key →
    ∃ field : Field, key = text field.name ∧ ∃ s, s ≠ [] ∧ value = .string s

/-! ## The names of the fields -/

private theorem Field.fold_injective {f g : Field}
    (same : GoJson.foldName (text f.name) = GoJson.foldName (text g.name)) : f = g := by
  revert same
  cases f <;> cases g <;> decide

private theorem Field.fold_expires (f : Field) :
    GoJson.foldName (text f.name) ≠ GoJson.foldName (text "expires_at") := by
  cases f <;> decide

private theorem finds_iff : finds field key = true ↔ GoJson.foldName key = GoJson.foldName (text field) := by
  simp [finds]

private theorem find_field {f : Field} (found : finds f.name key = true) :
    finds "expires_at" key = false ∧ Field.all.find? (finds ·.name key) = some f := by
  have fold := finds_iff.mp found
  constructor
  · rw [Bool.eq_false_iff]
    intro expires
    exact f.fold_expires (fold.symm.trans (finds_iff.mp expires))
  · have listed : f ∈ Field.all := by cases f <;> decide
    cases first : Field.all.find? (finds ·.name key) with
    | none => exact absurd found (by simpa using List.find?_eq_none.mp first f listed)
    | some g =>
      have other := finds_iff.mp (List.find?_some (p := fun f : Field => finds f.name key) first)
      rw [Field.fold_injective (other.symm.trans fold)]

private theorem get_set (f : Field) : f.get (f.set credential value) = value := by cases f <;> rfl

private theorem get_set_other {f g : Field} (other : g ≠ f) : f.get (g.set credential value) = f.get credential := by
  cases f <;> cases g <;> first | rfl | exact absurd rfl other

private theorem storeString_value (stored : storeString old value = some new) : new = value.string?.getD old := by
  cases value with
  | string _ | null =>
    cases stored
    rfl
  | bool _ | number _ | array _ | object _ => cases stored

private theorem storeCredential_get {f : Field} (stored : storeCredential credential member = some next) :
    f.get next = if finds f.name member.1 then member.2.string?.getD (f.get credential) else f.get credential := by
  unfold storeCredential at stored
  by_cases found : finds f.name member.1 = true
  · obtain ⟨expires, first⟩ := find_field found
    rw [expires, first] at stored
    obtain ⟨value, read, rfl⟩ := Option.map_eq_some_iff.mp stored
    rw [if_pos found, get_set, storeString_value read]
  · rw [if_neg found]
    split at stored
    · obtain ⟨_, _, rfl⟩ := Option.map_eq_some_iff.mp stored
      cases f <;> rfl
    · split at stored
      · cases stored
        rfl
      · rename_i g first
        obtain ⟨_, _, rfl⟩ := Option.map_eq_some_iff.mp stored
        apply get_set_other
        rintro rfl
        exact found (List.find?_some (p := fun f : Field => finds f.name member.1) first)

private theorem foldlM_get {f : Field} (exactly : ∀ member ∈ members, finds f.name member.1 = true → member.1 = text f.name)
    (plain : ∀ value, lastOf members (text f.name) = some value → ∃ s, value = .string s)
    (decoded : members.foldlM storeCredential credential = some final) :
    f.get final = ((lastOf members (text f.name)).bind Value.string?).getD (f.get credential) := by
  -- a field takes the string of its last member, where only its exact name finds it; induction on the
  -- members
  induction members generalizing credential with
  | nil =>
    cases decoded
    rfl
  | cons member rest ih =>
    obtain ⟨name, value⟩ := member
    obtain ⟨first, others⟩ := List.forall_mem_cons.mp exactly
    rw [List.foldlM_cons] at decoded
    obtain ⟨next, stored, decoded⟩ := Option.bind_eq_some_iff.mp decoded
    have later : ∀ value, lastOf rest (text f.name) = some value → ∃ s, value = .string s := by
      intro value found
      exact plain value (by rw [lastOf, found, Option.some_or])
    rw [ih others later decoded, storeCredential_get stored, lastOf]
    cases found : lastOf rest (text f.name) with
    | some last =>
      obtain ⟨s, rfl⟩ := later last found
      rfl
    | none =>
      by_cases same : name = text f.name
      · rw [if_pos (finds_iff.mpr (by rw [same])), if_pos same]
        cases value <;> rfl
      · rw [if_neg (mt first same), if_neg same]
        rfl

/-! ## What is written of an entry -/

private theorem Field.name_injective {f g : Field} (same : text f.name = text g.name) : f = g :=
  fold_injective (congrArg GoJson.foldName same)

private theorem marshalField_last (credential : Credential) (f g : Field) :
    lastOf (marshalField credential g) (text f.name) = if g = f then
      if f.omitEmpty ∧ f.get credential = [] then none else some (.string (f.get credential)) else none := by
  unfold marshalField
  by_cases same : g = f
  · subst same
    rw [if_pos rfl]
    split <;> simp [lastOf]
  · rw [if_neg same]
    split
    · rfl
    · simp [lastOf, mt Field.name_injective same]

private theorem marshal_field (credential : Credential) (f : Field) :
    (marshalCredential credential).member (text f.name) =
      if f.omitEmpty ∧ f.get credential = [] then none else some (.string (f.get credential)) := by
  have expires : text "expires_at" ≠ text f.name := fun same => f.fold_expires (congrArg GoJson.foldName same.symm)
  simp only [marshalCredential, Value.member, GoJson.lastOf_append, List.flatMap_cons, List.flatMap_nil, marshalField_last, lastOf]
  cases f <;> simp [expires]

private theorem marshal_names (written : (marshalCredential credential).member key = some value) :
    key = text "expires_at" ∨ ∃ f : Field, key = text f.name := by
  have each (f : Field) (held : (key, value) ∈ marshalField credential f) : ∃ f : Field, key = text f.name := by
    unfold marshalField at held
    split at held
    · cases held
    · obtain ⟨rfl, _⟩ := Prod.mk.inj (List.mem_singleton.mp held)
      exact ⟨f, rfl⟩
  have held := GoJson.lastOf_mem written
  simp only [List.mem_append, List.mem_singleton, List.mem_flatMap] at held
  rcases held with ((access | refresh) | expires) | ⟨f, _, other⟩
  · exact .inr (each _ access)
  · exact .inr (each _ refresh)
  · exact .inl (Prod.mk.inj expires).1
  · exact .inr (each f other)

/-! ## Runs -/

private theorem loadEntries_ok (loaded : loadEntries origin data = .ok (credential, all)) :
    ∃ before entry, parse data = some before ∧ decodeMap before = some all ∧ before.member origin = some entry ∧
      decodeCredential entry = some credential := by
  unfold loadEntries at loaded
  split at loaded
  · cases loaded
  split at loaded
  · cases loaded
  rename_i file rest found
  split at loaded
  · rename_i raws decoded ended
    split at loaded
    · cases loaded
    rename_i entry looked
    split at loaded
    · cases loaded
    rename_i read
    cases loaded
    have parsed : parse data = some file :=
      GoJson.parse_eq_some.mpr (GoJson.readValue_blank.mp ⟨rest, found, GoJson.readValue_eof.mp ended⟩)
    exact ⟨file, entry, parsed, decoded, (GoJson.lookup_decodeMap decoded origin) ▸ looked, read⟩
  · cases loaded

private theorem saveEntries_ok (saved : saveEntries origin all credential fault = .ok file) :
    credential.accessToken ≠ [] ∧ file = marshalMap (all.insert origin (marshalCredential credential)) := by
  unfold saveEntries at saved
  split at saved
  · cases saved
  · rename_i present
    dsimp only at saved
    split at saved
    · cases saved
    · cases saved
    · cases saved
      exact ⟨present, rfl⟩

/-- A refresh that asked for a token and saved it. -/
structure Refreshed (origin : Text) (outside : Outside) (token : TokenResponse) (after : Value)
    (credential : Credential) (all : RawMap) : Prop where
  loaded : loadEntries origin outside.data = .ok (credential, all)
  refreshable : credential.refreshToken ≠ [] ∧ credential.tokenEndpoint ≠ []
  answered : ∃ response, outside.request credential.tokenEndpoint (refreshForm credential) = .ok response ∧
    readToken response = .ok token
  present : (credential.refreshed token outside.now).accessToken ≠ []
  saved : after = marshalMap (all.insert origin (marshalCredential (credential.refreshed token outside.now)))

private theorem refreshLocked_saved (ran : refreshLocked origin observed outside = .ok (some (token, after))) :
    ∃ credential all, Refreshed origin outside token after credential all := by
  unfold refreshLocked at ran
  split at ran
  · cases ran
  split at ran
  · cases ran
  rename_i credential all read
  split at ran
  · cases ran
  split at ran
  · cases ran
  rename_i complete
  split at ran
  · cases ran
  split at ran
  · cases ran
  split at ran
  · cases ran
  rename_i response answer
  split at ran
  · cases ran
  rename_i decoded
  split at ran
  · cases ran
  rename_i file saved
  cases ran
  refine ⟨credential, all, ?_, not_or.mp complete, ⟨response, answer, decoded⟩, (saveEntries_ok saved).1, (saveEntries_ok saved).2⟩
  cases accessed : outside.access with
  | none => rwa [accessed] at read
  | some reason =>
    rw [accessed] at read
    cases read

/-! ## The file as the managers see it -/

/-- The credentials of a file by origin. -/
def fileOf (file : Value) : File := fun origin => (file.member origin).bind decodeCredential

private theorem set_empty (f : Field) (unset : f.get credential = []) : f.set credential [] = credential := by
  cases f <;> (rw [← unset]; rfl)

private theorem foldlM_marshalField (credential : Credential) (f : Field) (unset : f.get partly = []) :
    (marshalField credential f).foldlM storeCredential partly = some (f.set partly (f.get credential)) := by
  unfold marshalField
  split
  · rename_i omitted
    rw [omitted.2, set_empty f unset]
    rfl
  · obtain ⟨expires, first⟩ := find_field (finds_iff.mpr (Eq.refl (GoJson.foldName (text f.name))))
    simp [storeCredential, expires, first, storeString]

/-- A marshalled credential is decoded as it was. -/
theorem decode_marshal (machine : Machine credential.expiresAt) :
    decodeCredential (marshalCredential credential) = some credential := by
  have number (partly : Credential) : [(text "expires_at", integer credential.expiresAt)].foldlM storeCredential partly =
      some { partly with expiresAt := credential.expiresAt } := by
    have named : finds "expires_at" (text "expires_at") = true := finds_iff.mpr rfl
    simp [storeCredential, named, GoJson.storeInt64_integer machine.1 machine.2]
  simp only [decodeCredential, marshalCredential, decodeStruct, List.foldlM_append, List.flatMap_cons, List.flatMap_nil,
    List.foldlM_nil, Option.bind_eq_bind]
  iterate 2 rw [foldlM_marshalField _ _ rfl, Option.bind_some]
  rw [number, Option.bind_some]
  iterate 5 rw [foldlM_marshalField _ _ rfl, Option.bind_some]
  simp only [Field.set, Field.get, Option.pure_def]

private theorem fileOf_insert (machine : Machine credential.expiresAt) (decoded : decodeMap before = some all) :
    fileOf (marshalMap (all.insert origin (marshalCredential credential))) =
      Function.update (fileOf before) origin (some credential) := by
  funext other
  rw [fileOf, GoJson.member_marshalMap]
  by_cases same : other = origin
  · subst same
    rw [AList.lookup_insert, Option.bind_some, decode_marshal machine, Function.update_self]
  · rw [AList.lookup_insert_ne same, GoJson.lookup_decodeMap decoded, Function.update_of_ne same, fileOf]

private theorem refreshed_machine (credential : Credential) (token : TokenResponse) (now : Int) :
    Machine (credential.refreshed token now).expiresAt := by
  unfold Credential.refreshed Machine
  dsimp only
  split
  · have low := Int.le_bmod (x := now + token.expiresIn) (show 0 < 2 ^ 64 by decide)
    have high := Int.bmod_lt (x := now + token.expiresIn) (show 0 < 2 ^ 64 by decide)
    constructor
    · omega
    · omega
  · decide

/-- **The file of a refresh as its entries**: the refresh loads and saves what `load` and `save` of
the credential managers do on credentials by origin. -/
theorem refresh_refines (ran : refreshLocked origin observed outside = .ok (some (token, after))) :
    ∃ before credential, parse outside.data = some before ∧
      Credentials.load (fileOf before) origin none = .ok (credential, fileOf before) ∧
      Credentials.save (fileOf before) (fileOf before) origin (credential.refreshed token outside.now) none =
        (fileOf after, none) := by
  obtain ⟨credential, all, refreshed⟩ := refreshLocked_saved ran
  obtain ⟨before, entry, parsed, raws, looked, decoded⟩ := loadEntries_ok refreshed.loaded
  refine ⟨before, credential, parsed, load_ok.mpr ⟨rfl, ?_, rfl⟩, ?_⟩
  · rw [fileOf, looked]
    exact decoded
  · rw [save, if_neg refreshed.present, refreshed.saved, fileOf_insert (refreshed_machine credential token outside.now) raws]

/-! ## The condition -/

private theorem rotated_name (rotated : Rotated token key) :
    key = text "expires_at" ∨ ∃ f : Field, key = text f.name := by
  rcases rotated with access | expires | ⟨refresh, _⟩ | ⟨scope, _⟩
  · exact .inr ⟨.accessToken, access⟩
  · exact .inl expires
  · exact .inr ⟨.refreshToken, refresh⟩
  · exact .inr ⟨.scope, scope⟩

private theorem refreshed_get {f : Field} (kept : ¬ Rotated token (text f.name)) :
    f.get (Credential.refreshed credential token now) = f.get credential := by
  cases f with
  | accessToken => exact absurd (.inl rfl) kept
  | refreshToken => exact if_pos (by_contra fun some => kept (.inr (.inr (.inl ⟨rfl, some⟩))))
  | scope => exact if_pos (by_contra fun some => kept (.inr (.inr (.inr ⟨rfl, some⟩))))
  | oauthType | tokenEndpoint | sessionCookie | userId => rfl

private theorem Refreshed.get_some {f : Field} (refreshed : Refreshed origin outside token after credential all)
    (kept : ¬ Rotated token (text f.name)) (written : f.omitEmpty = false) : f.get credential ≠ [] := by
  cases f with
  | accessToken => exact absurd (.inl rfl) kept
  | refreshToken => exact refreshed.refreshable.1
  | tokenEndpoint => exact refreshed.refreshable.2
  | oauthType | sessionCookie | scope | userId => cases written

private theorem decode_get {f : Field} (decoded : decodeCredential entry = some credential)
    (storable : Storable token entry)
    (kept : ¬ Rotated token (text f.name)) :
    f.get credential = ((entry.member (text f.name)).bind Value.string?).getD [] := by
  have empty : f.get zeroCredential = [] := by cases f <;> rfl
  cases entry with
  | object members =>
    rw [← empty]
    apply foldlM_get ?_ ?_ decoded
    · rintro ⟨name, value⟩ held found
      have fold := finds_iff.mp found
      cases looked : lastOf members name with
      | none => exact absurd (List.mem_map_of_mem held) (GoJson.lastOf_eq_none.mp looked)
      | some last =>
        have named : name = text "expires_at" ∨ ∃ g : Field, name = text g.name := by
          by_cases rotated : Rotated token name
          · exact rotated_name rotated
          · obtain ⟨g, same, _⟩ := storable name last looked rotated
            exact .inr ⟨g, same⟩
        rcases named with rfl | ⟨g, rfl⟩
        · exact absurd fold.symm f.fold_expires
        · rw [Field.fold_injective fold]
    · intro value found
      obtain ⟨_, _, s, _, same⟩ := storable _ value found kept
      exact ⟨s, same⟩
  | null =>
    cases decoded
    exact empty
  | bool _ => cases decoded
  | number _ => cases decoded
  | string _ => cases decoded
  | array _ => cases decoded

private theorem Refreshed.member (refreshed : Refreshed origin outside token after credential all) :
    after.member origin = some (marshalCredential (credential.refreshed token outside.now)) := by
  rw [refreshed.saved, GoJson.member_marshalMap, AList.lookup_insert]

private theorem saved_field {f : Field} (refreshed : Refreshed origin outside token after credential all)
    (kept : ¬ Rotated token (text f.name)) : fieldOf after origin (text f.name) =
      if f.get credential = [] then none else some (.string (f.get credential)) := by
  rw [fieldOf, refreshed.member, Option.bind_some, marshal_field, refreshed_get kept]
  by_cases omitted : f.omitEmpty = true
  · simp only [omitted, true_and]
  · have some := refreshed.get_some kept (Bool.eq_false_iff.mpr omitted)
    simp only [omitted, false_and, if_neg some, Bool.false_eq_true, if_false]

private theorem saved_names (refreshed : Refreshed origin outside token after credential all)
    (kept : ¬ Rotated token key)
    (written : fieldOf after origin key = some value) : ∃ f : Field, key = text f.name := by
  rw [fieldOf, refreshed.member, Option.bind_some] at written
  rcases marshal_names written with expires | named
  · exact absurd (.inr (.inl expires)) kept
  · exact named

private theorem storable_kept (refreshed : Refreshed origin outside token after credential all)
    (decoded : decodeCredential entry = some credential) (storable : Storable token entry) (kept : ¬ Rotated token key) :
    fieldOf after origin key = entry.member key := by
  by_cases named : ∃ f : Field, key = text f.name
  · obtain ⟨f, rfl⟩ := named
    rw [saved_field refreshed kept, decode_get decoded storable kept]
    cases held : entry.member (text f.name) with
    | none => rfl
    | some value =>
      obtain ⟨_, _, s, some, rfl⟩ := storable _ value held kept
      exact if_neg some
  · have before : entry.member key = none := by
      by_contra held
      obtain ⟨value, held⟩ := Option.ne_none_iff_exists'.mp held
      obtain ⟨f, same, _⟩ := storable key value held kept
      exact named ⟨f, same⟩
    rw [before]
    by_contra written
    obtain ⟨value, written⟩ := Option.ne_none_iff_exists'.mp written
    exact named (saved_names refreshed kept written)

/-- **A refresh changes only what it rotates, where the entry fits into `cliCredential`.** The
entries of other origins are always kept. -/
theorem refresh_only_rotates_iff (ran : refreshLocked origin observed outside = .ok (some (token, after))) :
    ∃ before entry, parse outside.data = some before ∧ before.member origin = some entry ∧
      (∀ other, other ≠ origin → after.member other = before.member other) ∧
      (OnlyRotates origin token before after ↔ Storable token entry) := by
  obtain ⟨credential, all, refreshed⟩ := refreshLocked_saved ran
  obtain ⟨before, entry, parsed, raws, looked, decoded⟩ := loadEntries_ok refreshed.loaded
  have fields (key : Text) : fieldOf before origin key = entry.member key := by rw [fieldOf, looked, Option.bind_some]
  have others (other : Text) (apart : other ≠ origin) : after.member other = before.member other := by
    rw [refreshed.saved, GoJson.member_marshalMap, AList.lookup_insert_ne apart, GoJson.lookup_decodeMap raws]
  refine ⟨before, entry, parsed, looked, others, ?_, ?_⟩
  · intro only key value held kept
    have same := only.fields key kept
    rw [fields, held] at same
    obtain ⟨f, rfl⟩ := saved_names refreshed kept same
    rw [saved_field refreshed kept] at same
    split at same
    · cases same
    · rename_i some
      cases same
      exact ⟨f, rfl, _, some, rfl⟩
  · intro storable
    refine ⟨others, fun key kept => ?_⟩
    rw [fields]
    exact storable_kept refreshed decoded storable kept

/-! ## Two entries -/

def sampleOrigin : Text := text "https://app.hey.com"

/-- A file with one more field in its entry. -/
def sampleFile (field : String) : Bytes :=
  Strconv.bytes "\x7b\"https://app.hey.com\":\x7b\"access_token\":\"old\",\"refresh_token\":\"first\",\"expires_at\":1," ++
    Strconv.bytes "\"token_endpoint\":\"https://app.hey.com/oauth/token\",\"" ++ Strconv.bytes field ++
    Strconv.bytes "\":\"7\"\x7d\x7d"

/-- The entry of the file. -/
def sampleEntry (field : String) : Value :=
  .object [(text "access_token", .string (text "old")), (text "refresh_token", .string (text "first")),
    (text "expires_at", .number (Strconv.bytes "1")),
    (text "token_endpoint", .string (text "https://app.hey.com/oauth/token")), (text field, .string (text "7"))]

/-- The endpoint answers with an access token and nothing else. -/
def sampleOutside (field : String) : Outside where
  lock := none
  access := none
  data := sampleFile field
  secure := fun _ => true
  uncreatable := fun _ => none
  request := fun _ _ => .ok { status := 200, body := .ok (Strconv.bytes "\x7b\"access_token\":\"new\"\x7d") }
  now := 1000
  fault := fun _ => none

def sampleToken : TokenResponse := { zeroToken with accessToken := text "new" }

set_option maxRecDepth 100000 in
private theorem sample_known : parse (sampleFile "user_id") = some (.object [(sampleOrigin, sampleEntry "user_id")]) ∧
    ∃ after, refreshLocked sampleOrigin (text "old") (sampleOutside "user_id") = .ok (some (sampleToken, after)) :=
  ⟨rfl, _, rfl⟩

private theorem sample_storable : Storable sampleToken (sampleEntry "user_id") := by
  intro key value held kept
  have member := GoJson.lastOf_mem held
  simp only [List.mem_cons, Prod.mk.injEq, List.not_mem_nil, or_false] at member
  rcases member with ⟨rfl, rfl⟩ | ⟨rfl, rfl⟩ | ⟨rfl, rfl⟩ | ⟨rfl, rfl⟩ | ⟨rfl, rfl⟩
  · exact absurd (.inl rfl) kept
  · exact ⟨.refreshToken, rfl, _, by decide, rfl⟩
  · exact absurd (.inr (.inl rfl)) kept
  · exact ⟨.tokenEndpoint, rfl, _, by decide, rfl⟩
  · exact ⟨.userId, rfl, _, by decide, rfl⟩

/-- A field of the structure is kept. -/
theorem refresh_only_rotates_iff_sample : ∃ before after,
    refreshLocked sampleOrigin (text "old") (sampleOutside "user_id") = .ok (some (sampleToken, after)) ∧
      parse (sampleFile "user_id") = some before ∧ OnlyRotates sampleOrigin sampleToken before after := by
  obtain ⟨known, after, ran⟩ := sample_known
  obtain ⟨before, entry, parsed, looked, _, only⟩ := refresh_only_rotates_iff ran
  have same : some (Value.object [(sampleOrigin, sampleEntry "user_id")]) = some before := known.symm.trans parsed
  cases same
  have same : some (sampleEntry "user_id") = some entry := looked
  cases same
  exact ⟨_, after, ran, known, only.mpr sample_storable⟩

set_option maxRecDepth 100000 in
/-- A field that the structure does not know is lost. -/
theorem refresh_drops_field : ∃ before after,
    refreshLocked sampleOrigin (text "old") (sampleOutside "account") = .ok (some (sampleToken, after)) ∧
      parse (sampleFile "account") = some before ∧ ¬ OnlyRotates sampleOrigin sampleToken before after := by
  refine ⟨.object [(sampleOrigin, sampleEntry "account")], _, rfl, rfl, fun only => ?_⟩
  have kept : ¬ Rotated sampleToken (text "account") := by
    rintro (named | named | ⟨named, _⟩ | ⟨named, _⟩) <;> exact absurd (text_inj.mp named) (by decide)
  have same : none = some (Value.string (text "7")) := only.fields (text "account") kept
  cases same

end HermesHey.CredentialEntries
