import HermesHey.Library.JsonHooks
import HermesHey.WatchStream

/-! What `client.py` makes of an object with two members of one key. The hook
refuses it wherever it stands in the document, so neither a response nor a line
of the watch that can be read in two ways gets past the decoder. -/
namespace HermesHey.DuplicateKeys
open Library Library.Json HermesHey.Core Adapter DurableQueue WatchStream
open Sidecar (Go Invocation runSidecar decodeSidecarJson rejectDuplicateKeys)

/-! ## The hook -/

/-- One round of the loop of `_reject_duplicate_keys`. -/
def addMember (value : Members) (member : Text × Value) : Except ScanError Members :=
  if member.1 ∈ value.map Prod.fst then .error .refused else .ok (dictSet value member.1 member.2)

/-- `_reject_duplicate_keys`, pair by pair. -/
def collectMembers (pairs : Members) : Except ScanError Value := do return .obj (← pairs.foldlM addMember [])

private theorem foldlM_addMember (pairs : Members) :
    ∀ value : Members, (value.map Prod.fst).Nodup → pairs.foldlM addMember value =
      if ((value ++ pairs).map Prod.fst).Nodup then .ok (value ++ pairs) else .error .refused := by
  induction pairs with
  | nil =>
    intro value distinct
    rw [List.append_nil, if_pos distinct]
    rfl
  | cons member rest ih =>
    intro value distinct
    rw [List.foldlM_cons, addMember]
    split
    · rename_i seen
      have again : ¬ ((value ++ member :: rest).map Prod.fst).Nodup := by
        rw [List.map_append, List.nodup_append]
        rintro ⟨_, _, apart⟩
        exact apart _ seen _ List.mem_cons_self rfl
      rw [if_neg again]
      rfl
    · rename_i fresh
      have longer : ((value ++ [member]).map Prod.fst).Nodup := by
        rw [List.map_append, List.map_singleton, List.nodup_append]
        refine ⟨distinct, List.nodup_singleton _, fun key held other same => ?_⟩
        rw [List.mem_singleton.mp same]
        rintro rfl
        exact fresh held
      rw [ok_bind, dictSet, if_neg fresh, ih _ longer, List.append_assoc]
      rfl

private theorem collectMembers_eq (pairs : Members) : collectMembers pairs = rejectDuplicateKeys pairs := by
  rw [collectMembers, rejectDuplicateKeys, foldlM_addMember pairs [] List.nodup_nil, List.nil_append]
  split <;> rfl

private theorem rejectDuplicateKeys_eq_ok (members : Members) (value : Value) :
    rejectDuplicateKeys members = .ok value ↔ (members.map Prod.fst).Nodup ∧ value = .obj members := by
  unfold rejectDuplicateKeys
  split
  · simp_all [eq_comm]
  · simp_all

/-- The decoder gives the tree of a document without ambiguous objects, and raises on any other. -/
theorem decodeSidecarJson_eq_ok :
    decodeSidecarJson t = .ok value ↔ loads keepPairs t = .ok value ∧ Unambiguous value :=
  loads_strict rejectDuplicateKeys_eq_ok

/-! ## The lines of the watch -/

/-- What `readline` gives `HeySDKWatch.lines`. -/
inductive Line where
  /-- The text of its bytes. -/
  | read (line : Text)
  /-- Not the bytes of a text. -/
  | undecodable
  /-- Longer than the reader's limit. -/
  | oversized

/-- `HeySDKWatch.lines`, from one line to the dictionary it yields. -/
def watchLine : Line → Except PyError Members
  | .undecodable => .error (.runtime "HEY SDK watch returned invalid JSON")
  | .oversized => .error (.runtime "HEY SDK watch returned oversized JSON")
  | .read line =>
    match decodeSidecarJson line with
    | .error .malformed | .error .refused => .error (.runtime "HEY SDK watch returned invalid JSON")
    -- Any other `ValueError` is taken for one of `readline`.
    | .error .digits | .error .depth => .error (.runtime "HEY SDK watch returned oversized JSON")
    | .ok (.obj value) => .ok value
    | .ok _ => .error (.type "HEY SDK watch returned invalid JSON")

/-- `HeySDKWatch.lines` after the last line, when the process has ended with `code`. -/
def watchEnded (code : Int) : PyError :=
  if code ≠ 0 then .runtime (text "HEY SDK watch failed (exit " ++ decimalInt code ++ text ")")
  else .runtime "HEY SDK watch stopped unexpectedly"

section
variable (limits : Limits) (py : PyText) (config : Config) (code : Int)

/-- The loop of `_watch_supervisor` over the lines of one process. -/
def watchLines (readySeen : Bool) : List Line → Watch Unit
  | [] => .fail (watchEnded code)
  | line :: rest => do
    let raw ← Program.lift (watchLine line)
    if ¬ readySeen then do
      Program.lift (checkReady raw)
      drainPending
      watchLines true rest
    else do
      processWatchLine limits py config raw
      watchLines true rest

end

/-! ## What passes -/

/-- The line is one object, and nothing in it can be read in two ways. -/
def Clear (line : Line) (raw : Members) : Prop :=
  ∃ t, line = .read t ∧ loads keepPairs t = .ok (.obj raw) ∧ Unambiguous (.obj raw)

/-- `lines` yields the objects that can be read in one way only. -/
theorem watchLine_eq_ok : watchLine line = .ok raw ↔ Clear line raw := by
  constructor
  · intro read
    rw [watchLine.eq_def] at read
    split at read
    · cases read
    · cases read
    · rename_i t
      split at read <;> cases read
      rename_i decoded
      exact ⟨t, rfl, decodeSidecarJson_eq_ok.mp decoded⟩
  · rintro ⟨t, rfl, decoded⟩
    rw [watchLine, decodeSidecarJson_eq_ok.mpr decoded]

/-- What a call takes from the line that was read last. -/
def Carries (config : Config) (raw : Members) : Request → Prop
  | .drain => True
  | .ingest event => EventFrame config raw event
  | .acknowledge identity => ∃ event, EventFrame config raw event ∧ identity = event.identity

/-- The call is made for a line before which, and in which, nothing is ambiguous. -/
def Passed (config : Config) (lines : List Line) (request : Request) : Prop :=
  ∃ front line raws raw, front ++ [line] <+: lines ∧ List.Forall₂ Clear front raws ∧ Clear line raw ∧
    Carries config raw request

private theorem processWatchLine_within {limits : Limits} {py : PyText} {calls : Request → Prop}
    (carried : ∀ request, Carries config raw request → calls request) :
    Program.Within calls (processWatchLine limits py config raw) := by
  unfold processWatchLine
  cases checked : checkWatchLine config raw with
  | error e => exact Program.within_fail e
  | ok event =>
    have frame : EventFrame config raw event := checkWatchLine_eq_ok.mp checked
    refine ⟨carried (.ingest event) frame, fun found => ?_⟩
    refine (Program.within_lift _).bind fun accepted => ?_
    refine Program.Within.bind ?_ fun _ => ?_
    · unfold WatchStream.ack
      split
      · exact Program.within_fail _
      · exact (Program.within_ask (carried (.acknowledge event.identity) ⟨event, frame, rfl⟩)).bind fun written =>
          Program.within_lift written
    · split
      · exact (Program.within_ask (carried .drain trivial)).bind fun drained => Program.within_lift drained
      · exact Program.within_pure ()

private theorem watchLines_within (limits : Limits) (py : PyText) (config : Config) (code : Int) (lines : List Line) :
    ∀ (ready : Bool) (front rest : List Line) (raws : List Members), lines = front ++ rest →
      List.Forall₂ Clear front raws → Program.Within (Passed config lines) (watchLines limits py config code ready rest) := by
  -- induction on the lines to come; those behind were all clear
  intro ready front rest
  induction rest generalizing ready front with
  | nil => exact fun _ _ _ => Program.within_fail _
  | cons line rest ih =>
    intro raws split behind
    rw [watchLines]
    cases read : watchLine line with
    | error e => exact Program.within_fail e
    | ok raw =>
      have clear : Clear line raw := watchLine_eq_ok.mp read
      have here : front ++ [line] <+: lines := ⟨rest, by rw [split, List.append_assoc, List.singleton_append]⟩
      have carried : ∀ request, Carries config raw request → Passed config lines request :=
        fun request carries => ⟨front, line, raws, raw, here, behind, clear, carries⟩
      have later : Program.Within (Passed config lines) (watchLines limits py config code true rest) :=
        ih true (front ++ [line]) (raws ++ [raw]) (by rw [split, List.append_assoc, List.singleton_append])
          (List.rel_append behind (.cons clear .nil))
      change Program.Within _ (if ¬ ready then _ else _)
      split
      · refine (Program.within_lift _).bind fun _ => ?_
        refine Program.Within.bind ?_ fun _ => later
        exact (Program.within_ask (carried .drain trivial)).bind fun drained => Program.within_lift drained
      · exact (processWatchLine_within carried).bind fun _ => later

private theorem runSidecar_clear {program : Go Unit} {invocation : Invocation program}
    (ran : runSidecar codec operation invocation = .ok result) :
    ∃ output, decodeBytes codec invocation.output = some output ∧ loads keepPairs output = .ok (.obj result) ∧
      Unambiguous (.obj result) := by
  rw [runSidecar] at ran
  split at ran
  · cases ran
  split at ran
  · cases ran
  split at ran
  · cases ran
  split at ran
  · cases ran
  split at ran <;> cases ran
  rename_i decoded
  obtain ⟨output, read, decoded⟩ := Sidecar.decodeSidecarBytes_eq_ok.mp decoded
  exact ⟨output, read, decodeSidecarJson_eq_ok.mp decoded⟩

/-- **Duplicate keys are rejected at every depth.** Of the documents that plain
decoding accepts, the decoder of `client.py` accepts exactly those without an
ambiguous object, with the same value. So what the runner returns, and the line
behind every call of the supervisor of the watch, can be read in one way only. -/
theorem duplicate_keys_rejected :
    (∀ t value, loads plainHook t = .ok value → ∃ raw, loads keepPairs t = .ok raw ∧
      ((∃ found, decodeSidecarJson t = .ok found) ↔ Unambiguous raw) ∧
      ∀ found, decodeSidecarJson t = .ok found → found = value) ∧
    (∀ codec (program : Go Unit) (invocation : Invocation program) (operation : Text) (result : Members),
      runSidecar codec operation invocation = .ok result → ∃ output, decodeBytes codec invocation.output = some output ∧
        loads keepPairs output = .ok (.obj result) ∧ Unambiguous (.obj result)) ∧
    ∀ limits py config code lines trace rest,
      Run Program.Step (watchLines limits py config code false lines) trace rest →
        ∀ call ∈ trace, Passed config lines call.1 := by
  refine ⟨?_, fun _ _ _ _ _ ran => runSidecar_clear ran, ?_⟩
  · intro t value plain
    obtain ⟨raw, kept, _⟩ := loads_eq_ok.mp plain
    refine ⟨raw, kept, ?_, ?_⟩
    · constructor
      · rintro ⟨found, decoded⟩
        obtain ⟨tree, clear⟩ := decodeSidecarJson_eq_ok.mp decoded
        cases kept.symm.trans tree
        exact clear
      · exact fun clear => ⟨raw, decodeSidecarJson_eq_ok.mpr ⟨kept, clear⟩⟩
    · intro found decoded
      obtain ⟨tree, clear⟩ := decodeSidecarJson_eq_ok.mp decoded
      have same := (loads_plain tree clear).symm.trans plain
      cases same
      rfl
  · intro limits py config code lines trace rest ran
    exact ((watchLines_within limits py config code lines false [] lines [] rfl .nil).run ran).1

/-- An event frame whose event names its thread twice. -/
def sampleTwice : Text := text "\x7b\"type\":\"event\",\"event\":\x7b\"thread_id\":1,\"thread\\u005fid\":2\x7d\x7d"

theorem duplicate_keys_rejected_sample :
    ∃ raw, loads keepPairs sampleTwice = .ok raw ∧
      ((∃ found, decodeSidecarJson sampleTwice = .ok found) ↔ Unambiguous raw) ∧
      ∀ found, decodeSidecarJson sampleTwice = .ok found →
        found = .obj [(text "type", .str (text "event")), (text "event", .obj [(text "thread_id", .int 2)])] :=
  duplicate_keys_rejected.1 sampleTwice _ (by decide +kernel)

end HermesHey.DuplicateKeys
