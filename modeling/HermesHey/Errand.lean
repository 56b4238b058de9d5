import HermesHey.CommandLine
import HermesHey.SendRetry
import HermesHey.WatchEvent

/-! One request of the client to the modes `reply` and `comment`, from its command line and its
standard input to the calls of the sidecar. Every call is made for the account, the thread and
the text of the request, and a reply goes to the message that the thread lists first. -/
namespace HermesHey.Sidecar
open Library Library.Json HermesHey.Core Adapter CommandLine
open Library.GoJson (Bytes readValue decodeStruct storeString finds)

/-! ## The standard input -/

def maxReplyInputBytes : ℕ := 2 ^ 20

/-- What a member of the object does to `content`; other fields are disallowed. -/
def storeContent (old : Text) (member : Text × GoJson.Value) : Option Text :=
  if finds "content" member.1 then storeString old member.2 else none

/-- The two calls of `Decode` in `runReply` and in `runComment`, on all the bytes of the input. -/
def readInput (input : Bytes) : Option Text :=
  match readValue (input.take (maxReplyInputBytes + 1)) with
  | .error _ => none
  | .ok (value, rest) =>
    match decodeStruct storeContent [] value with
    | none => none
    | some content =>
      match readValue rest with
      | .error .eof => some content
      | _ => none

/-- `json.dumps(payload, ensure_ascii=False) + "\n"` in `run` of `make_sidecar_runner` -/
def stdin (content : Text) : Text := render (.obj [(text "content", .str content)]) ++ text "\n"

/-- The document on the standard input. -/
private def payload (content : Text) : Value := .obj [(text "content", .str content)]

private theorem stdin_utf8 (content : Text) : (stdin content).utf8 = (spaced.write (payload content)).utf8 ++ ['\n'.toUInt8] := by
  rw [stdin, ← write_spaced, Text.utf8_append]
  rfl

private theorem decode_payload : decodeStruct storeContent [] (GoJson.goValue (payload content)) = some content := by
  have named : finds "content" (text "content") = true := by decide
  simp [payload, GoJson.goValue, GoJson.goMembers, decodeStruct, storeContent, storeString, named]

/-- **The text arrives, or nothing does.** An input within the limit is read as the text that was sent,
and a longer one is refused. -/
theorem readInput_stdin (scalars : Scalars content) : readInput (stdin content).utf8 =
    if (stdin content).utf8.length ≤ maxReplyInputBytes + 2 then some content else none := by
  have plain : Plain (payload content) := by simp [payload, Plain, PlainMembers]
  have writable : Writable (payload content) := ⟨scalars_text _, scalars, trivial⟩
  have shallow : GoJson.depth (payload content) ≤ GoJson.maxNestingDepth := Nat.le_of_ble_eq_true rfl
  rw [readInput, stdin_utf8, List.length_append, List.length_singleton]
  generalize document : (spaced.write (payload content)).utf8 = written
  by_cases fits : written.length + 1 ≤ maxReplyInputBytes + 2
  · rw [if_pos fits]
    obtain ⟨gap, blank, front⟩ : ∃ gap, GoJson.Blank gap ∧
        (written ++ ['\n'.toUInt8]).take (maxReplyInputBytes + 1) = written ++ gap := by
      refine ⟨['\n'.toUInt8].take (maxReplyInputBytes + 1 - written.length), ?_, ?_⟩
      · intro b held
        obtain rfl := List.mem_singleton.mp (List.mem_of_mem_take held)
        rfl
      · rw [List.take_append, List.take_of_length_le (by omega)]
    have spelled := GoJson.textOf_write spaced plain writable shallow blank
    obtain ⟨rest, found, ended⟩ := GoJson.readValue_blank.mpr spelled
    rw [document] at found
    rw [front, found]
    simp only [decode_payload, GoJson.readValue_eof.mpr ended]
  · rw [if_neg fits]
    have front : (written ++ ['\n'.toUInt8]).take (maxReplyInputBytes + 1) = written.take (maxReplyInputBytes + 1) := by
      rw [List.take_append_of_le_length (by omega)]
    have cut : written.take (maxReplyInputBytes + 1) ++ written.drop (maxReplyInputBytes + 1) = (spaced.write (payload content)).utf8 := by
      rw [List.take_append_drop, document]
    have shorter : written.drop (maxReplyInputBytes + 1) ≠ [] := by
      rw [Ne, List.drop_eq_nil_iff]
      omega
    rw [front]
    cases found : readValue (written.take (maxReplyInputBytes + 1)) with
    | error _ => rfl
    | ok found' => exact absurd found (GoJson.readValue_part spaced plain writable shallow cut shorter)

/-! ## The errand -/

/-- A request of the client. -/
structure Errand where
  client : Client
  method : Method
  threadID : Int
  content : Text

namespace Errand

/-- What the sidecar makes of the command line of the request. -/
def arguments (net : NetLib) (errand : Errand) : Except Text (Int × Int) :=
  match readArguments net (errand.client.command (.thread errand.method errand.threadID)) with
  | .ok (.thread _ account threadID _) => .ok (account.toInt, threadID.toInt)
  -- Only the modes `reply` and `comment` come here.
  | .ok _ => .error (text "unknown mode")
  | .error message => .error message

/-- `account_id` of the client -/
def account (errand : Errand) : Int := digitsValue errand.client.account

/-- The standard input of the process, if the text can be encoded. -/
def input (errand : Errand) : Bytes := (stdin errand.content).utf8

end Errand

/-- The entries of a thread that were listed so far. -/
def listed (threadID : Int) (history : History) : List Entry := history.flatMap fun
  | ⟨.entriesPage topic _, .ok (some page)⟩ => if topic = threadID then page.entries else []
  | _ => []

/-- The message that is replied to. -/
def replyable (entries : List Entry) : Option Entry := entries.find? fun entry => entry.kind = text "message" && 0 < entry.id

/-- The text is one that the modes send. -/
def Sendable (content : Text) : Prop := trimSpace content ≠ [] ∧ byteLength content ≤ maxReplyBodyBytes

/-- The call is made for the errand. -/
def Serves (lib : GoLib) (errand : Errand) (history : History) : Call → Prop
  | .readInput | .identity => True
  | .defaultSenderID => errand.method = .reply ∧ Sendable errand.content
  | .forAccount account => account = errand.account
  | .entriesPage topic _ => errand.method = .reply ∧ topic = errand.threadID ∧ Sendable errand.content
  | .newReply entryID => errand.method = .reply ∧ ∃ entry, replyable (listed errand.threadID history) = some entry ∧
      entryID = entry.id
  | .createReply entryID content sentTo cc bcc => errand.method = .reply ∧ content = errand.content ∧ Sendable content ∧
      (∃ entry, replyable (listed errand.threadID history) = some entry ∧ entryID = entry.id) ∧
      ∃ draft, ⟨.newReply entryID, .ok (some draft)⟩ ∈ history ∧ sentTo = contactEmails lib draft.directly ∧
        cc = contactEmails lib draft.copied ∧ bcc = contactEmails lib draft.blindcopied ∧
        0 < sentTo.length + cc.length + bcc.length
  | .postForm threadID content => errand.method = .comment ∧ threadID = errand.threadID ∧ content = errand.content ∧
      Sendable content
  | .write record => record = lib.marshal okRecord ++ text "\n"
  | _ => False

/-- The input is read as what the client sent. -/
def Fed (errand : Errand) : ∀ request, Answer request → Prop
  | .readInput, input => input = readInput errand.input
  | _, _ => True

def errandContract (lib : GoLib) (errand : Errand) : Program.Contract Answer where
  may _ := Fed errand
  must := Serves lib errand

/-! ## The program keeps to the errand -/

section
variable {lib : GoLib} {errand : Errand} {history : History}

/-- The code makes its calls for the errand, and what it returns is as told. -/
private abbrev Serving (lib : GoLib) (errand : Errand) (held : α → History → Prop) (history : History) (code : Go α) : Prop :=
  Program.Meets (errandContract lib errand) (Program.Returns held) history code

private theorem listed_append (threadID : Int) (first later : History) :
    listed threadID (first ++ later) = listed threadID first ++ listed threadID later := List.flatMap_append

private theorem listed_other (other : ∀ topic page, request ≠ .entriesPage topic page) (answer : Answer request) :
    listed threadID [⟨request, answer⟩] = [] := by
  cases request with
  | entriesPage topic page => exact absurd rfl (other topic page)
  | _ => rfl

private theorem listed_snoc (other : ∀ topic page, request ≠ .entriesPage topic page) (answer : Answer request) :
    listed threadID (history ++ [⟨request, answer⟩]) = listed threadID history := by
  rw [listed_append, listed_other other, List.append_nil]

private theorem within_newSDKClients (account : Int) :
    Program.Within (fun request => request = .identity ∨ request = .forAccount account) (newSDKClients account) := by
  refine (Program.within_ask (.inl rfl)).bind fun outcome => ?_
  refine ((within_pass outcome).mapFail _).bind fun identity => ?_
  have verified : Program.Within (fun request => request = .identity ∨ request = .forAccount account)
      (verifyAccount identity account) := by
    cases identity with
    | none => exact Program.within_fail _
    | some found => exact within_require _ _
  refine verified.bind fun _ => (Program.within_ask (.inr rfl)).bind fun selected => ?_
  exact ((within_pass selected).mapFail _).bind fun _ => Program.within_pure identity

private theorem serving_newSDKClients : Serving lib errand (fun _ later => listed errand.threadID later = [])
    [] (newSDKClients errand.account) := by
  refine ((within_newSDKClients errand.account).meets ?_).returns ?_
  · rintro history request (rfl | rfl)
    · exact trivial
    · exact rfl
  · rintro _ _ ⟨trace, rfl, inside⟩
    refine List.flatMap_eq_nil_iff.mpr ?_
    rintro ⟨request, answer⟩ held
    rcases inside _ held with same | same <;> cases same <;> rfl

private theorem serving_topicPages (reply : errand.method = .reply) (sendable : Sendable errand.content)
    (left : ℕ) (page : Text)
    (entries : List Entry) (same : entries = listed errand.threadID history) :
    Serving lib errand (fun found later => found = listed errand.threadID later) history
      (topicPages errand.threadID left page entries) := by
  -- the pages of the thread are read one after the other; induction on those that may still be read
  induction left generalizing history page entries with
  | zero => exact trivial
  | succ left ih =>
    refine Program.meets_ask ⟨reply, rfl, sendable⟩ ?_
    intro outcome _
    refine meets_pass ?_ fun _ => trivial
    rintro found rfl
    cases found with
    | none => exact trivial
    | some result =>
      have longer : entries ++ result.entries = listed errand.threadID
          (history ++ [⟨.entriesPage errand.threadID page, .ok (some result)⟩]) := by
        rw [listed_append, ← same]
        simp [listed]
      simp only
      split
      · exact longer
      · exact ih result.nextPage _ longer

private theorem serving_topicEntries (reply : errand.method = .reply) (sendable : Sendable errand.content)
    (none : listed errand.threadID history = []) :
    Serving lib errand (fun found later => found = listed errand.threadID later) history
      (topicEntries errand.threadID) :=
  meets_require (fun _ => serving_topicPages reply sendable _ _ _ none.symm) trivial

private theorem serving_newReply (reply : errand.method = .reply)
    (first : replyable (listed errand.threadID history) = some entry) :
    Serving lib errand
      (fun draft later => later = history ++ [⟨.newReply entry.id, .ok draft⟩]) history (newReply entry.id) := by
  refine meets_require (fun _ => ?_) trivial
  refine Program.meets_ask ⟨reply, entry, first, rfl⟩ ?_
  intro outcome _
  cases outcome with
  | error _ => exact trivial
  | ok draft => exact rfl

private theorem serving_defaultSenderID (reply : errand.method = .reply) (sendable : Sendable errand.content) :
    Serving lib errand (fun senderID later => later = history ++ [⟨.defaultSenderID, .ok senderID⟩])
      history defaultSenderID := by
  refine Program.meets_ask ⟨reply, sendable⟩ ?_
  intro outcome _
  cases outcome with
  | error _ => exact trivial
  | ok senderID => exact rfl

private theorem serving_writeNDJSON (history : History) :
    Serving lib errand (fun _ _ => True) history (writeNDJSON lib okRecord) := by
  refine meets_require (fun _ => ?_) trivial
  refine Program.meets_ask rfl ?_
  intro written _
  cases written.error <;> exact trivial

private theorem content_fed (scalars : Scalars errand.content) (fed : some content = readInput errand.input) :
    content = errand.content := by
  rw [Errand.input, readInput_stdin scalars] at fed
  split at fed
  · exact Option.some.inj fed
  · cases fed

private theorem sendable_checked
    (checked : (trimSpace content ≠ [] && byteLength content ≤ maxReplyBodyBytes : Bool) = true) : Sendable content := by
  rw [Sendable]
  simpa using checked

private theorem serving_runReply (scalars : Scalars errand.content) (reply : errand.method = .reply)
    (none : listed errand.threadID history = []) :
    Serving lib errand (fun _ _ => True) history (runReply lib errand.threadID) := by
  refine meets_require (fun _ => ?_) trivial
  refine Program.meets_ask trivial ?_
  intro input fed
  have unlisted : listed errand.threadID (history ++ [⟨.readInput, input⟩]) = [] := by
    rw [listed_snoc (by simp), none]
  cases input with
  | none => exact trivial
  | some content =>
    obtain rfl := content_fed scalars fed
    refine meets_require (fun checked => ?_) trivial
    have sendable := sendable_checked checked
    refine ((serving_topicEntries reply sendable unlisted).mapFail_returns _).bind_returns ?_
    rintro entries history rfl
    split
    · exact trivial
    rename_i entry found
    have first : replyable (listed errand.threadID history) = some entry := found
    refine ((serving_newReply reply first).mapFail_returns _).bind_returns ?_
    rintro prefill _ rfl
    cases prefill with
    | none => exact trivial
    | some draft =>
      refine meets_require (fun addressed => ?_) trivial
      refine ((serving_defaultSenderID reply sendable).mapFail_returns _).bind_returns ?_
      rintro senderID _ rfl
      refine meets_require (fun _ => ?_) trivial
      have same : listed errand.threadID
          (history ++ [⟨.newReply entry.id, .ok (some draft)⟩] ++ [⟨.defaultSenderID, .ok senderID⟩]) =
            listed errand.threadID history := (listed_snoc (by simp) _).trans (listed_snoc (by simp) _)
      have created : Serving lib errand (fun _ _ => True)
          (history ++ [⟨.newReply entry.id, .ok (some draft)⟩] ++ [⟨.defaultSenderID, .ok senderID⟩])
          (createReply entry.id errand.content (contactEmails lib draft.directly) (contactEmails lib draft.copied)
            (contactEmails lib draft.blindcopied)) := by
        refine meets_require (fun _ => ?_) trivial
        refine Program.meets_ask ⟨reply, rfl, sendable, ⟨entry, same ▸ first, rfl⟩, draft, by simp, rfl, rfl, rfl,
          by simpa using addressed⟩ ?_
        intro outcome _
        cases outcome <;> exact trivial
      exact (created.mapFail_returns _).bind_returns fun _ _ _ => serving_writeNDJSON _

private theorem serving_runComment (scalars : Scalars errand.content) (comment : errand.method = .comment) :
    Serving lib errand (fun _ _ => True) history (runComment lib errand.threadID) := by
  refine meets_require (fun _ => ?_) trivial
  refine Program.meets_ask trivial ?_
  intro input fed
  cases input with
  | none => exact trivial
  | some content =>
    obtain rfl := content_fed scalars fed
    refine meets_require (fun checked => ?_) trivial
    have created : Serving lib errand (fun _ _ => True) (history ++ [⟨.readInput, some errand.content⟩])
        (createComment lib errand.threadID errand.content) := by
      refine meets_require (fun _ => ?_) trivial
      refine meets_require (fun _ => ?_) trivial
      refine Program.meets_ask ⟨comment, rfl, rfl, sendable_checked checked⟩ ?_
      intro outcome _
      refine meets_pass (fun response _ => ?_) fun _ => trivial
      cases commentOutcome lib errand.threadID response <;> exact trivial
    exact (created.mapFail_returns _).bind_returns fun _ _ _ => serving_writeNDJSON _

private theorem arguments_eq (standard : net.Standard) (errand : Errand) : errand.arguments net =
    if 0 < errand.threadID ∧ errand.threadID < 2 ^ 63 then .ok (errand.account, errand.threadID)
    else .error (text "thread ID must be positive") := by
  rw [Errand.arguments, readArguments_thread standard, Client.meaning]
  by_cases fits : 0 < errand.threadID ∧ errand.threadID < 2 ^ 63
  · rw [if_pos fits, if_pos fits]
    obtain ⟨_, n, positive, bound, spelled⟩ := Accounts.canonicalAccount_eq_ok.mp errand.client.canonical
    have account : errand.client.accountID.toInt = errand.account := by
      rw [Client.accountID, Errand.account, spelled, digitsValue_decimal, Int64.toInt_ofNat_of_lt bound]
    have threadID : (Int64.ofInt errand.threadID).toInt = errand.threadID :=
      Int64.toInt_ofInt_of_le (by omega) fits.2
    simp only [account, threadID]
  · rw [if_neg fits, if_neg fits]

private theorem serving_run (standard : net.Standard) (scalars : Scalars errand.content) :
    Serving lib errand (fun _ _ => True) [] (run lib errand.method (errand.arguments net)) := by
  rw [arguments_eq standard]
  split
  · cases method : errand.method with
    | reply => exact (serving_newSDKClients.mapFail_returns _).bind_returns fun _ _ none => serving_runReply scalars method none
    | comment => exact (serving_newSDKClients.mapFail_returns _).bind_returns fun _ _ _ => serving_runComment scalars method
  · exact trivial

end

/-- **The sidecar does what it was asked.** Every call that it makes, whatever is answered and wherever
the run is cut, is made for the account, the thread and the text of the client's request; and when the
client is told that the request succeeded, the mutation was called once, and it succeeded. -/
theorem errand_is_served (lib : GoLib) (codec : Encoding → List UInt8 → Option Text) (standard : net.Standard)
    (errand : Errand) (scalars : Scalars errand.content)
    (invocation : Invocation (run lib errand.method (errand.arguments net)))
    (fed : ∀ event ∈ invocation.trace, Fed errand event.1 event.2) :
    (∀ before event after, invocation.trace = before ++ event :: after → Serves lib errand before event.1) ∧
      (confirmed (callMutation codec errand.method invocation) = true → ∃ before event after,
        invocation.trace = before ++ event :: after ∧ isMutation event.1 = true ∧ Succeeded lib event ∧
          Untouched before ∧ Untouched after) := by
  have allowed : Program.Allowed (errandContract lib errand) [] invocation.trace := by
    intro before event after split
    exact fed event (split ▸ by simp)
  refine ⟨((serving_run standard scalars).run invocation.ran allowed).2, fun told => ?_⟩
  obtain ⟨event, held, succeeded⟩ := succeeded_of_confirmed invocation told
  obtain ⟨before, after, split⟩ := List.append_of_mem held
  have once := invocation.judged.2
  have mutates := mutation_of_succeeded succeeded
  refine ⟨before, event, after, split, mutates, succeeded, (once before event after split).1 mutates, ?_⟩
  intro later inside
  obtain ⟨between, rest, again⟩ := List.append_of_mem inside
  by_contra repeated
  have untouched := (once (before ++ event :: between) later rest (by rw [split, again]; simp)).1 (by simpa using repeated)
  have quiet := untouched event (by simp)
  rw [mutates] at quiet
  cases quiet

/-- A comment of two letters. -/
def sampleErrand : Errand where
  client := sampleClient
  method := .comment
  threadID := 7
  content := text "hi"

def sampleService : History :=
  [⟨.identity, .ok (some ⟨[⟨42, text "active", text "personal"⟩]⟩)⟩, ⟨.forAccount 42, .ok ()⟩, ⟨.readInput, some (text "hi")⟩,
    ⟨.postForm 7 (text "hi"), .ok (some ⟨204, []⟩)⟩, ⟨.write (sampleLib.marshal okRecord ++ text "\n"), ⟨12, none⟩⟩]

theorem errand_is_served_sample : ∃ before event after, sampleService = before ++ event :: after ∧
    isMutation event.1 = true ∧ Succeeded sampleLib event ∧ Untouched before ∧ Untouched after := by
  have standard : sampleNet.Standard := ⟨by simp only [sampleNet, ↓reduceIte]⟩
  have scalars : Scalars sampleErrand.content := scalars_text "hi"
  have ran : Run Program.Step (run sampleLib sampleErrand.method (sampleErrand.arguments sampleNet)) sampleService
      (Program.lift (.ok ())) := by
    rw [arguments_eq standard]
    exact .cons .answered (.cons .answered (.cons .answered (.cons .answered (.cons .answered .nil))))
  let invocation : Invocation (run sampleLib sampleErrand.method (sampleErrand.arguments sampleNet)) :=
    { trace := sampleService, rest := Program.lift (.ok ()), ran, started := true, timedOut := false,
      ending := .exited (.ok ()), exited := by rintro _ ⟨⟩; rfl, read := 12 }
  have fed : ∀ event ∈ invocation.trace, Fed sampleErrand event.1 event.2 := by
    have read : readInput sampleErrand.input = some (text "hi") := by
      rw [Errand.input, readInput_stdin scalars]
      decide +kernel
    intro event held
    simp only [invocation, sampleService, List.mem_cons, List.not_mem_nil, or_false] at held
    rcases held with rfl | rfl | rfl | rfl | rfl
    · exact trivial
    · exact trivial
    · exact read.symm
    · exact trivial
    · exact trivial
  exact (errand_is_served sampleLib (fun _ _ => none) standard sampleErrand scalars invocation fed).2 rfl

end HermesHey.Sidecar
