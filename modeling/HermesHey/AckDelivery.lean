import HermesHey.AckLines
import HermesHey.DurableQueue
import HermesHey.Library.GoJsonDocument

/-! The acknowledgements in the pipe to the sidecar. The lines that `HeySDKWatch.ack` writes
are those that `waitForAck` accepts, one for each event and in the order of the events. -/
namespace HermesHey.AckLines
open Library Library.Json HermesHey.Sidecar HermesHey.Core
open DurableQueue (isEventIdentity)
open Library.BufReader (cut)
open Library.GoJson (Bytes TextOf Spells)

/-! ## The client -/

/-- `json.dumps({"ack": event_id}, separators=(",", ":"))` -/
def ackDocument (eventID : Text) : Text :=
  ch '\x7b' :: quoteAscii (text "ack") ++ ch ':' :: quoteAscii eventID ++ [ch '\x7d']

/-- `HeySDKWatch.ack` while the process runs: the bytes that it writes. The expression is that of
the engine's `_EVENT_IDENTITY`. -/
def ack (eventID : Text) : Except PyError Bytes :=
  if ¬ isEventIdentity eventID then .error (.runtime "HEY SDK watch event identity is invalid")
  else .ok (ackDocument eventID ++ text "\n").utf8

/-! ## An acknowledgement -/

private theorem spanPositive_split (spanned : spanPositive t = some (digits, rest)) :
    t = digits ++ rest ∧ ∀ point ∈ digits, CodePoint.isDigit point = true := by
  unfold spanPositive spanDigits at spanned
  split at spanned
  · rename_i first others left front
    obtain ⟨taken, dropped⟩ := Prod.mk.inj front
    split at spanned
    · cases spanned
    · cases spanned
      refine ⟨?_, fun point held => ?_⟩
      · rw [← taken, ← dropped, List.takeWhile_append_dropWhile]
      · exact List.mem_takeWhile_imp (taken ▸ held)
  · cases spanned

/-- What an identity consists of. -/
private def Plain (c : Char) : Prop := Bare c ∧ c ≠ '\x7d'

private theorem plain_of_digit (digit : CodePoint.isDigit point = true) : ∃ c, point = ch c ∧ Plain c := by
  cases point with
  | surrogate offset => cases digit
  | scalar c =>
    obtain ⟨low, high⟩ : 48 ≤ c.toNat ∧ c.toNat ≤ 57 := Char.isDigit_iff_toNat.mp digit
    refine ⟨c, rfl, ⟨by omega, by omega, ?_, ?_⟩, ?_⟩
    · rintro rfl
      exact absurd low (by decide)
    · rintro rfl
      exact absurd high (by decide)
    · rintro rfl
      exact absurd high (by decide)

private theorem plain_of_literal (plain : ∀ c ∈ s.toList, Plain c) :
    ∀ point ∈ text s, ∃ c, point = ch c ∧ Plain c := by
  intro point held
  obtain ⟨c, inside, rfl⟩ := List.mem_map.mp held
  exact ⟨c, rfl, plain c inside⟩

private theorem identity_plain (identity : isEventIdentity t = true) :
    ∃ chars : List Char, t = chars.map ch ∧ ∀ c ∈ chars, Plain c := by
  have each : ∀ point ∈ t, ∃ c, point = ch c ∧ Plain c := by
    simp only [isEventIdentity, Bool.and_eq_true, List.isPrefixOf_iff_prefix] at identity
    obtain ⟨⟨after, rfl⟩, first⟩ := identity
    rw [show 7 = (text "thread:").length by decide, List.drop_left] at first
    split at first
    · cases first
    rename_i digits rest spanned
    obtain ⟨rfl, threads⟩ := spanPositive_split spanned
    simp only [Bool.and_eq_true, List.isPrefixOf_iff_prefix] at first
    obtain ⟨⟨left, rfl⟩, second⟩ := first
    rw [show (text "thread:").length = (text ":entry:").length by decide, List.drop_left] at second
    split at second
    · rename_i digits' spanned'
      obtain ⟨rfl, entries⟩ := spanPositive_split spanned'
      rw [List.append_nil]
      simp only [List.mem_append]
      rintro point (thread | number | entry | number)
      · exact plain_of_literal (by simp [Plain, Bare]) point thread
      · exact plain_of_digit (threads point number)
      · exact plain_of_literal (by simp [Plain, Bare]) point entry
      · exact plain_of_digit (entries point number)
    · cases second
  clear identity
  induction t with
  | nil => exact ⟨[], rfl, by simp⟩
  | cons point rest ih =>
    obtain ⟨⟨c, rfl, plain⟩, others⟩ := List.forall_mem_cons.mp each
    obtain ⟨chars, rfl, more⟩ := ih others
    exact ⟨c :: chars, rfl, List.forall_mem_cons.mpr ⟨plain, more⟩⟩

private theorem unspaced : Json.Blank [] := List.forall_mem_nil _

/-- The separators of the acknowledgement. -/
private def compact : Style := dumpsStyle [] unspaced

private theorem compact_quote (s : Text) : compact.quote s = quote s := dumps_quote s

private theorem ackDocument_quote (identity : isEventIdentity eventID = true) : ackDocument eventID =
    ch '\x7b' :: quote (text "ack") ++ ch ':' :: quote eventID ++ [ch '\x7d'] := by
  obtain ⟨chars, rfl, plain⟩ := identity_plain identity
  have name : quoteAscii (text "ack") = quote (text "ack") := (quote_bare (by simp [Bare])).2
  rw [ackDocument, name, (quote_bare fun c held => (plain c held).1).2]

private theorem ackDocument_write (identity : isEventIdentity eventID = true) :
    ackDocument eventID = compact.write (.obj [(text "ack", .str eventID)]) := by
  rw [ackDocument_quote identity, Style.write, Style.writeMembers, Style.write, compact_quote, compact_quote,
    show compact.gap = [] from rfl]
  simp

private theorem ackDocument_brace (identity : isEventIdentity eventID = true) :
    ∃ front, (ackDocument eventID).utf8 = front ++ ['\x7d'.toUInt8] ∧ front.length = eventID.length + 9 ∧
      '\x7d'.toUInt8 ∉ front ∧ newline ∉ front := by
  have spelled := ackDocument_quote identity
  obtain ⟨chars, rfl, plain⟩ := identity_plain identity
  let front := "\x7b\"ack\":\"".toList ++ chars ++ ['"']
  have each : ∀ c ∈ front, c.toNat < 128 ∧ c.toNat ≠ 125 ∧ c.toNat ≠ 10 := by
    have literal : ∀ c ∈ "\x7b\"ack\":\"".toList, c.toNat < 128 ∧ c.toNat ≠ 125 ∧ c.toNat ≠ 10 := by simp
    intro c held
    rcases List.mem_append.mp held with held | last
    · rcases List.mem_append.mp held with held | inside
      · exact literal c held
      · obtain ⟨⟨printable, ascii, _⟩, brace⟩ := plain c inside
        exact ⟨by omega, fun same => brace (Char.toNat_inj.mp same), by omega⟩
    · obtain rfl := List.mem_singleton.mp last
      decide
  have absent : ∀ d : Char, d.toNat < 128 → (∀ c ∈ front, c.toNat ≠ d.toNat) → d.toUInt8 ∉ front.map Char.toUInt8 := by
    intro d ascii other held
    obtain ⟨c, inside, same⟩ := List.mem_map.mp held
    refine other c inside ?_
    rw [← Strconv.toNat_toUInt8 (each c inside).1, ← Strconv.toNat_toUInt8 ascii, same]
  have key : quote (text "ack") = "\"ack\"".toList.map ch := by decide
  have whole : ackDocument (chars.map ch) = front.map ch ++ [ch '\x7d'] := by
    rw [spelled, key, (quote_bare fun c held => (plain c held).1).1]
    simp [front]
  refine ⟨front.map Char.toUInt8, ?_, by simp [front], ?_, ?_⟩
  · rw [whole, Text.utf8_append, Text.utf8_chars fun c held => (each c held).1]
    rfl
  · exact absent _ (by decide) fun c held => (each c held).2.1
  · exact absent _ (by decide) fun c held => (each c held).2.2

private theorem checkAck_line (identity : isEventIdentity acked = true)
    (line : part = (ackDocument acked).utf8 ++ [newline] ∨ part = (ackDocument acked).utf8) :
    checkAck part (eventIdentity threadID entryID) = .ok () ↔ eventIdentity threadID entryID = acked := by
  have scalars : Scalars acked := by
    obtain ⟨chars, rfl, _⟩ := identity_plain identity
    intro point held
    obtain ⟨c, _, rfl⟩ := List.mem_map.mp held
    exact ⟨c, rfl⟩
  obtain ⟨gap, blank, rfl⟩ : ∃ gap, GoJson.Blank gap ∧ part = (ackDocument acked).utf8 ++ gap := by
    rcases line with rfl | rfl
    · exact ⟨[newline], List.forall_mem_singleton.mpr rfl, rfl⟩
    · exact ⟨[], by simp [GoJson.Blank], by rw [List.append_nil]⟩
  have spelled : TextOf ((ackDocument acked).utf8 ++ gap) (.object [(text "ack", .string acked)]) := by
    rw [ackDocument_write identity]
    exact GoJson.textOf_write compact (by simp [Json.Plain, PlainMembers]) ⟨scalars_text _, scalars, trivial⟩
      (Nat.le_of_ble_eq_true rfl) blank
  rw [checkAck_iff eventIdentity_some]
  constructor
  · rintro ⟨members, found, _, last⟩
    cases GoJson.textOf_unique spelled found
    cases last
    rfl
  · rintro rfl
    exact ⟨_, spelled, List.forall_mem_singleton.mpr ⟨(by decide : GoJson.finds "ack" (text "ack") = true), .inr ⟨_, rfl⟩⟩, rfl⟩

private theorem checkAck_part (identity : isEventIdentity acked = true)
    (cut : part ++ lost = (ackDocument acked).utf8)
    (shorter : lost ≠ []) : checkAck part (eventIdentity threadID entryID) ≠ .ok () := by
  rw [Ne, checkAck_iff eventIdentity_some]
  rintro ⟨members, ⟨rest, spelled, _⟩, _⟩
  obtain ⟨front, whole, _, absent, _⟩ := ackDocument_brace identity
  rw [whole] at cut
  have short : part ++ lost.dropLast = front := by
    rw [← List.dropLast_append_of_ne_nil shorter, cut, List.dropLast_concat]
  exact absent (short ▸ List.mem_append_left _ (spelled.brace trivial))

/-! ## Waits -/

/-- The wait for an event accepts the line. -/
def Accepts (line : Bytes) (eventID : Text) : Prop := line.length ≤ maxNDJSONBytes ∧ checkAck line eventID = .ok ()

/-- The waits of a run succeed when the first lines acknowledge the events; induction on the events. -/
theorem waits_iff {e : Engine size} (opened : e.reader = some r) (sound : r.Sound) :
    (waits e eventIDs).1 = .ok () ↔ ∃ taken, taken <+: lines r.pending ∧ List.Forall₂ Accepts taken eventIDs := by
  induction eventIDs generalizing e r with
  | nil => simp [waits]
  | cons eventID rest ih =>
    rw [waits]
    cases first : (waitForAck e eventID).1 with
    | error error =>
      refine iff_of_false (by simp) ?_
      rintro ⟨taken, front, matched⟩
      cases matched with
      | @cons line _ others _ accepted _ =>
        obtain ⟨more, pending⟩ := front
        have succeeded := (waitForAck_iff opened sound).mpr ⟨line, by rw [← pending]; rfl, accepted⟩
        rw [first] at succeeded
        cases succeeded
    | ok value =>
      obtain ⟨line, head, accepted⟩ := (waitForAck_iff opened sound).mp first
      obtain ⟨r', reader, later, left⟩ := waitForAck_left opened sound first
      obtain ⟨others, listed⟩ : ∃ others, lines r.pending = line :: others := List.head?_eq_some_iff.mp head
      rw [listed, List.tail_cons] at left
      simp only [ih reader later, left, listed]
      constructor
      · rintro ⟨taken, front, matched⟩
        exact ⟨line :: taken, List.cons_prefix_cons.mpr ⟨rfl, front⟩, .cons accepted matched⟩
      · rintro ⟨taken, front, matched⟩
        cases matched with
        | cons _ matched => exact ⟨_, (List.cons_prefix_cons.mp front).2, matched⟩

/-! ## A stream of acknowledgements that was cut -/

private theorem lines_line (absent : newline ∉ line) : lines (line ++ newline :: more) = (line ++ [newline]) :: lines more := by
  have found : cut newline (line ++ newline :: more) = some (line ++ [newline], more) :=
    BufReader.cut_eq_some.mpr ⟨line, absent, rfl, by simp⟩
  have taken : takeLine (line ++ newline :: more) = ((line ++ [newline], none), more) := by rw [takeLine, found]
  rw [lines_takeLine (by simp), taken]

private theorem lines_last (absent : newline ∉ line) (some : line ≠ []) : lines line = [line] := by
  have taken : takeLine line = ((line, Option.some endOfInput), []) := by rw [takeLine, BufReader.cut_eq_none.mpr absent]
  rw [lines_takeLine some, taken]
  rfl

private def ackLine (eventID : Text) : Bytes := (ackDocument eventID).utf8 ++ [newline]

private theorem ack_eq_ok : ack eventID = .ok line ↔ isEventIdentity eventID = true ∧ line = ackLine eventID := by
  have bytes : (ackDocument eventID ++ text "\n").utf8 = ackLine eventID := Text.utf8_append _ _
  unfold ack
  cases isEventIdentity eventID <;> simp [bytes, eq_comm]

/-- The numbers of an event fit the integers of the sidecar. -/
def Fits (entry : Int × Int) : Prop := entry.1.natAbs ≤ 2 ^ 63 ∧ entry.2.natAbs ≤ 2 ^ 63

private theorem eventIdentity_length (fits : Fits (threadID, entryID)) :
    (eventIdentity threadID entryID).length ≤ 54 := by
  have number : ∀ n : Int, n.natAbs ≤ 2 ^ 63 → (decimalInt n).length ≤ 20 := by
    intro n small
    cases n with
    | ofNat n => exact (decimal_length_le (by decide)).mpr (by simp only [Int.ofNat_eq_natCast, Int.natAbs_natCast] at small; omega)
    | negSucc n =>
      have digits : (decimal (n + 1)).length ≤ 19 := (decimal_length_le (by decide)).mpr (by simp at small; omega)
      exact Nat.succ_le_succ digits
  have thread := number threadID fits.1
  have entry := number entryID fits.2
  have literals : (text "thread:").length = 7 ∧ (text ":entry:").length = 7 := by decide
  simp only [eventIdentity, List.length_append, literals.1, literals.2]
  omega

private theorem accepts_line (fits : Fits entry) (identity : isEventIdentity acked = true)
    (line : part = ackLine acked ∨ part = (ackDocument acked).utf8) :
    Accepts part (eventIdentity entry.1 entry.2) ↔ eventIdentity entry.1 entry.2 = acked := by
  rw [Accepts, checkAck_line identity line]
  refine and_iff_right_of_imp ?_
  rintro rfl
  obtain ⟨front, whole, length, _⟩ := ackDocument_brace identity
  have short := eventIdentity_length fits
  have document : (ackDocument (eventIdentity entry.1 entry.2)).utf8.length = front.length + 1 := by
    rw [whole, List.length_append, List.length_singleton]
  rcases line with rfl | rfl
  · rw [ackLine, List.length_append, document, List.length_singleton, maxNDJSONBytes]
    omega
  · rw [document, maxNDJSONBytes]
    omega

private theorem dropLast_append_front (record more rest : Bytes) :
    (record ++ rest).dropLast <+: record ++ more ↔ rest.dropLast <+: more := by
  by_cases none : rest = []
  · rw [none, List.append_nil]
    exact iff_of_true ((List.dropLast_prefix record).trans (List.prefix_append _ _)) (List.nil_prefix)
  · rw [List.dropLast_append_of_ne_nil none, List.prefix_append_right_inj]

def identities (entries : List (Int × Int)) : List Text := entries.map fun entry => eventIdentity entry.1 entry.2

/-- The lines at the front of the stream are accepted for the events. -/
private def Accepted (stream : Bytes) (eventIDs : List Text) : Prop :=
  ∃ taken, taken <+: lines stream ∧ List.Forall₂ Accepts taken eventIDs

private theorem accepted_whole (fits : Fits entry) (identity : isEventIdentity acked = true) :
    Accepted (ackLine acked ++ more) (eventIdentity entry.1 entry.2 :: rest) ↔
      eventIdentity entry.1 entry.2 = acked ∧ Accepted more rest := by
  obtain ⟨front, whole, _, _, absent⟩ := ackDocument_brace identity
  have unbroken : newline ∉ (ackDocument acked).utf8 := by
    rw [whole, List.mem_append, not_or]
    exact ⟨absent, by decide⟩
  have split : lines (ackLine acked ++ more) = ackLine acked :: lines more := by
    rw [ackLine, List.append_assoc, List.singleton_append, lines_line unbroken]
  rw [Accepted, split]
  constructor
  · rintro ⟨taken, first, matched⟩
    cases matched with
    | cons accepted matched =>
      obtain ⟨rfl, others⟩ := List.cons_prefix_cons.mp first
      exact ⟨(accepts_line fits identity (.inl rfl)).mp accepted, _, others, matched⟩
  · rintro ⟨same, taken, others, matched⟩
    exact ⟨_ :: taken, List.cons_prefix_cons.mpr ⟨rfl, others⟩, .cons ((accepts_line fits identity (.inl rfl)).mpr same) matched⟩

private theorem accepted_part (fits : Fits entry) (identity : isEventIdentity acked = true)
    (cut : stream ++ lost = (ackDocument acked).utf8) :
    Accepted stream (eventIdentity entry.1 entry.2 :: rest) ↔
      lost = [] ∧ eventIdentity entry.1 entry.2 = acked ∧ rest = [] := by
  obtain ⟨front, whole, _, _, absent⟩ := ackDocument_brace identity
  have unbroken : newline ∉ stream := by
    intro held
    have inside : newline ∈ (ackDocument acked).utf8 := cut ▸ List.mem_append_left _ held
    rw [whole, List.mem_append] at inside
    exact inside.elim absent (by decide)
  by_cases none : stream = []
  · subst none
    have held : lost ≠ [] := by
      rintro rfl
      rw [whole] at cut
      simp at cut
    refine iff_of_false ?_ fun ended => held ended.1
    rintro ⟨taken, first, matched⟩
    obtain rfl := List.prefix_nil.mp first
    cases matched
  rw [Accepted, lines_last unbroken none]
  constructor
  · rintro ⟨taken, first, matched⟩
    cases matched with
    | cons accepted matched =>
      obtain ⟨rfl, others⟩ := List.cons_prefix_cons.mp first
      obtain rfl := List.prefix_nil.mp others
      cases matched
      have complete : lost = [] := by
        by_contra shorter
        exact checkAck_part identity cut shorter accepted.2
      rw [complete, List.append_nil] at cut
      exact ⟨complete, (accepts_line fits identity (.inr cut)).mp accepted, rfl⟩
  · rintro ⟨rfl, same, rfl⟩
    rw [List.append_nil] at cut
    exact ⟨[stream], List.prefix_refl _, .cons ((accepts_line fits identity (.inr cut)).mpr same) .nil⟩

private theorem accepted_iff (written : List.Forall₂ (fun eventID line => ack eventID = .ok line) acked records)
    (cut : stream <+: records.flatten) (fits : ∀ entry ∈ entries, Fits entry) :
    Accepted stream (identities entries) ↔
      identities entries <+: acked ∧ (records.take entries.length).flatten.dropLast <+: stream := by
  -- induction on the acknowledgements
  induction written generalizing stream entries with
  | nil =>
    obtain rfl := List.prefix_nil.mp cut
    cases entries with
    | nil => simp [Accepted, identities]
    | cons entry rest =>
      refine iff_of_false ?_ (by simp [identities])
      rintro ⟨taken, first, matched⟩
      obtain rfl := List.prefix_nil.mp first
      cases matched
  | @cons eventID line acked records own written ih =>
    cases entries with
    | nil => simp [Accepted, identities]
    | cons entry rest =>
      obtain ⟨first, others⟩ := List.forall_mem_cons.mp fits
      obtain ⟨identity, rfl⟩ := ack_eq_ok.mp own
      rw [List.flatten_cons] at cut
      rw [identities, List.map_cons, ← identities, List.cons_prefix_cons, List.length_cons, List.take_succ_cons,
        List.flatten_cons]
      by_cases complete : ackLine eventID <+: stream
      · obtain ⟨more, rfl⟩ := complete
        rw [accepted_whole first identity, ih ((List.prefix_append_right_inj _).mp cut) others, dropLast_append_front,
          and_assoc]
      · obtain ⟨lost, whole⟩ := cut
        obtain ⟨missing, record, shorter⟩ : ∃ missing, stream ++ missing = ackLine eventID ∧ missing ≠ [] := by
          rcases List.append_eq_append_iff.mp whole with ⟨missing, record, _⟩ | ⟨more, pending, _⟩
          · refine ⟨missing, record.symm, ?_⟩
            rintro rfl
            rw [List.append_nil] at record
            exact complete (record ▸ List.prefix_refl _)
          · exact absurd ⟨more, pending.symm⟩ complete
        have document : stream ++ missing.dropLast = (ackDocument eventID).utf8 := by
          rw [← List.dropLast_append_of_ne_nil shorter, record, ackLine, List.dropLast_concat]
        rw [accepted_part first identity document]
        constructor
        · rintro ⟨finished, same, ended⟩
          obtain rfl := List.map_eq_nil_iff.mp ended
          rw [finished, List.append_nil] at document
          refine ⟨⟨same, List.nil_prefix⟩, ?_⟩
          rw [List.length_nil, List.take_zero, List.flatten_nil, List.append_nil, ackLine, List.dropLast_concat, document]
        · rintro ⟨⟨same, others⟩, reached⟩
          have size := reached.length_le
          rw [← record, List.length_dropLast, List.length_append, List.length_append] at size
          have some : 0 < missing.length := List.length_pos_iff.mpr shorter
          have none : (records.take rest.length).flatten = [] := List.length_eq_zero_iff.mp (by omega)
          refine ⟨List.length_eq_zero_iff.mp (by rw [List.length_dropLast]; omega), same, ?_⟩
          cases written with
          | nil => exact List.prefix_nil.mp others
          | cons next _ =>
            cases rest with
            | nil => rfl
            | cons entry rest =>
              obtain ⟨_, rfl⟩ := ack_eq_ok.mp next
              simp [ackLine] at none

/-- **What the client acknowledges, the watch accepts.** Wherever the stream of acknowledgements is cut
and in whatever pieces it is read, the waits for the events all succeed exactly when the client
acknowledged these events first and in their order, and all but the last newline came through. -/
theorem acks_reach_watch (size : ℕ) (source : Source) (progress : source.Progress)
    (written : acked.mapM ack = .ok records)
    (arrived : source.rest <+: records.flatten) (entries : List (Int × Int)) (fits : ∀ entry ∈ entries, Fits entry) :
    (waits (.start size source) (identities entries)).1 = .ok () ↔
      identities entries <+: acked ∧ (records.take entries.length).flatten.dropLast <+: source.rest := by
  have fresh : (Engine.start size source).reader = some (.new size source) := rfl
  rw [waits_iff fresh (BufReader.sound_new progress), BufReader.pending_new]
  exact accepted_iff (mapM_eq_ok.mp written) arrived fits

/-- Two acknowledgements that arrive seven bytes at a time, without the last newline. -/
def sampleAcks : Source where
  rest := (ackDocument (eventIdentity 31 41) ++ text "\n" ++ ackDocument (eventIdentity 32 41)).utf8
  cuts := fun _ => 7
  eager := false

theorem acks_reach_watch_sample : (waits (.start 16 sampleAcks) (identities [(31, 41), (32, 41)])).1 = .ok () := by
  have progress : sampleAcks.Progress := fun _ => ⟨0, Nat.succ_pos 99, Nat.succ_pos 6⟩
  have written : [eventIdentity 31 41, eventIdentity 32 41].mapM ack =
      .ok [(ackDocument (eventIdentity 31 41) ++ text "\n").utf8, (ackDocument (eventIdentity 32 41) ++ text "\n").utf8] := by
    decide +kernel
  refine (acks_reach_watch 16 sampleAcks progress written ?_ [(31, 41), (32, 41)] ?_).mpr ⟨?_, ?_⟩
  · exact ⟨[newline], by decide +kernel⟩
  · simp [Fits]
  · exact List.prefix_refl _
  · exact ⟨[], by decide +kernel⟩

end HermesHey.AckLines
