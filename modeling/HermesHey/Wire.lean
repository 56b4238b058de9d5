import HermesHey.DuplicateKeys
import HermesHey.Library.JsonBytes
import HermesHey.Library.StreamReader

/-! The standard output of the watch as bytes in a pipe. `HeySDKWatch.lines` reads
the frames that were written, in their order, wherever the stream is cut and in
whatever pieces it arrives. -/
namespace HermesHey.Wire
open Library Library.Json HermesHey.Core DuplicateKeys
open Sidecar (rejectDuplicateKeys decodeSidecarJson byteLength maxNDJSONBytes)

/-- `_MAX_WATCH_LINE` -/
def maxWatchLine : ℕ := 4 * 2 ^ 20 + 1

section
variable (codec : Encoding → List UInt8 → Option Text)

/-- A line of bytes, as `json.loads` decodes it. -/
def decodeLine (line : List UInt8) : Line :=
  match decodeBytes codec line with
  | some t => .read t
  | none => .undecodable

/-- What the calls of `readline` give, up to the end of the stream. When the process has ended
and the pipe stays open, the last of them is given up. -/
def received : ℕ → StreamReader → List Line
  | 0, _ => []
  | calls + 1, r =>
    match r.readline maxWatchLine with
    | (none, _) => [.oversized]
    | (some [], _) => []
    | (some (first :: line), after) => decodeLine codec (first :: line) :: received calls after

end

/-- What `HeySDKWatch.lines` yields before it raises. -/
def yielded : List Line → List Members
  | [] => []
  | line :: rest =>
    match watchLine line with
    | .ok raw => raw :: yielded rest
    | .error _ => []

/-! ## Frames -/

/-- A record that `writeNDJSON` can write and the decoder of the client can read. -/
structure Frame where
  members : Members
  kept : Kept rejectDuplicateKeys (.obj members)
  writable : Writable (.obj members)
  fits : byteLength (GoJson.marshal (.obj members)) ≤ maxNDJSONBytes

mutual
private theorem plain_of_kept : ∀ v : Value, Kept rejectDuplicateKeys v → Plain v
  | .null, _ | .bool _, _ | .int _, _ | .str _, _ => trivial
  | .float _, kept => kept.elim
  | .arr elements, kept => plain_of_keptElements elements kept
  | .obj members, kept => by
    refine ⟨?_, plain_of_keptMembers members kept.2⟩
    have made := kept.1
    unfold rejectDuplicateKeys at made
    split at made
    · assumption
    · cases made

private theorem plain_of_keptElements : ∀ vs : List Value, KeptElements rejectDuplicateKeys vs → PlainElements vs
  | [], _ => trivial
  | first :: rest, kept => ⟨plain_of_kept first kept.1, plain_of_keptElements rest kept.2⟩

private theorem plain_of_keptMembers : ∀ ms : Members, KeptMembers rejectDuplicateKeys ms → PlainMembers ms
  | [], _ => trivial
  | (_, first) :: rest, kept => ⟨plain_of_kept first kept.1, plain_of_keptMembers rest kept.2⟩
end

private theorem byteLength_utf8 (scalars : Scalars t) : (Text.utf8 t).length = byteLength t := by
  induction t with
  | nil => rfl
  | cons point rest ih =>
    obtain ⟨⟨c, rfl⟩, others⟩ := scalars_cons.mp scalars
    have own := ih others
    rw [byteLength] at own ⊢
    rw [Text.utf8_cons_ch, List.length_append, own, String.length_utf8EncodeChar, List.map_cons, List.sum_cons]

namespace Frame

def document (frame : Frame) : Text := GoJson.marshal (.obj frame.members)

/-- The bytes of the record. -/
def bytes (frame : Frame) : List UInt8 := frame.document.utf8 ++ ['\n'.toUInt8]

private theorem is_document (frame : Frame) : Document (.value (.obj frame.members)) frame.document :=
  GoJson.marshalStyle.document _ (plain_of_kept _ frame.kept) frame.writable

private theorem printable (frame : Frame) : ∀ b ∈ frame.document.utf8, 0x20 ≤ b.toNat :=
  printable_bytes (GoJson.marshalStyle.printable printable_nil _ (plain_of_kept _ frame.kept))

private theorem unbroken (frame : Frame) : '\n'.toUInt8 ∉ frame.document.utf8 := by
  intro held
  exact absurd (frame.printable _ held) (by decide)

private theorem width (frame : Frame) : frame.document.utf8.length ≤ maxNDJSONBytes := by
  rw [byteLength_utf8 frame.is_document.scalars]
  exact frame.fits

private theorem decodeBytes_part (frame : Frame) (codec : Encoding → List UInt8 → Option Text)
    (cut : part <+: frame.bytes) :
    decodeBytes codec part = Text.decodeUtf8 part :=
  frame.is_document.decodeBytes_part (GoJson.marshalStyle.printable printable_nil _ (plain_of_kept _ frame.kept)) codec cut

private theorem decoded (frame : Frame) (codec : Encoding → List UInt8 → Option Text)
    (line : part = frame.bytes ∨ part = frame.document.utf8) : watchLine (decodeLine codec part) = .ok frame.members := by
  obtain ⟨chars, spelled⟩ := frame.is_document.chars
  obtain ⟨gap, ends, same⟩ : ∃ gap : List Char, (gap = [] ∨ gap = ['\n']) ∧ part = Text.utf8 ((chars ++ gap).map ch) := by
    rcases line with rfl | rfl
    · refine ⟨['\n'], .inr rfl, ?_⟩
      rw [bytes, spelled, List.map_append, Text.utf8_append]
      rfl
    · exact ⟨[], .inl rfl, by rw [spelled, List.append_nil]⟩
  have blank : Blank (gap.map ch) := by
    rcases ends with rfl | rfl <;> simp [Blank, isSpace]
  have within : part <+: frame.bytes := by
    rcases line with rfl | rfl
    · exact List.prefix_refl _
    · exact List.prefix_append _ _
  have read : decodeBytes codec part = some (frame.document ++ gap.map ch) := by
    rw [frame.decodeBytes_part codec within, same, Text.decode_utf8, List.map_append, spelled]
  have loaded : decodeSidecarJson (frame.document ++ gap.map ch) = .ok (.obj frame.members) :=
    frame.is_document.loads frame.kept blank trivial
  rw [decodeLine, read]
  simp only [watchLine, loaded]

private theorem refused (frame : Frame) (codec : Encoding → List UInt8 → Option Text)
    (cut : part ++ lost = frame.document.utf8) (shorter : lost ≠ []) :
    ∃ error, watchLine (decodeLine codec part) = .error error := by
  have within : part <+: frame.bytes := (List.prefix_append part lost).trans (cut ▸ List.prefix_append _ _)
  rw [decodeLine, frame.decodeBytes_part codec within]
  cases read : Text.decodeUtf8 part with
  | none => exact ⟨_, rfl⟩
  | some u =>
    cases result : watchLine (.read u) with
    | error e => exact ⟨e, rfl⟩
    | ok raw =>
      obtain ⟨_, ⟨⟩, clear⟩ := watchLine_eq_ok.mp result
      have loaded := decodeSidecarJson_eq_ok.mpr clear
      exact absurd loaded (frame.is_document.truncated_bytes frame.kept cut shorter read)

end Frame

/-! ## Reading -/

/-- The bytes of the frames, one record after the other. -/
def stream (frames : List Frame) : List UInt8 := frames.flatMap Frame.bytes

private theorem received_nothing (codec : Encoding → List UInt8 → Option Text) (calls : ℕ) {r : StreamReader}
    (ended : r.pending = []) : received codec calls r = [] := by
  cases calls with
  | zero => rfl
  | succ calls =>
    obtain ⟨after, read, _⟩ := StreamReader.readline_last maxWatchLine (r := r) (by simp [ended]) (by simp [ended])
    rw [received, read, ended]

private theorem yields_last (codec : Encoding → List UInt8 → Option Text) (frame : Frame) (calls : ℕ)
    {r : StreamReader}
    (cut : r.pending ++ lost = frame.document.utf8) :
    yielded (received codec (calls + 1) r) = if lost = [] then [frame.members] else [] := by
  have absent : '\n'.toUInt8 ∉ r.pending := fun held => frame.unbroken (cut ▸ List.mem_append_left _ held)
  have width := frame.width
  rw [← cut, List.length_append, maxNDJSONBytes] at width
  obtain ⟨after, read, left⟩ := StreamReader.readline_last maxWatchLine absent (by rw [maxWatchLine]; omega)
  rw [received, read]
  cases pending : r.pending with
  | nil =>
    obtain ⟨rest, front⟩ := frame.is_document.object_head
    rw [pending, List.nil_append, front, Text.utf8_ascii (by decide)] at cut
    rw [if_neg (by simp [cut])]
    rfl
  | cons first line =>
    rw [pending] at cut
    simp only
    split
    · rename_i complete
      rw [complete, List.append_nil] at cut
      rw [yielded, frame.decoded codec (.inr cut), received_nothing codec calls left, yielded]
    · rename_i shorter
      obtain ⟨error, raised⟩ := frame.refused codec cut shorter
      rw [yielded, raised]

private theorem stream_cons (frame : Frame) (frames : List Frame) :
    stream (frame :: frames) = frame.bytes ++ stream frames := List.flatMap_cons

private theorem bytes_dropLast (frame : Frame) : frame.bytes.dropLast = frame.document.utf8 := List.dropLast_concat

private theorem stream_ne_nil (some : frames ≠ []) : stream frames ≠ [] := by
  cases frames with
  | nil => exact absurd rfl some
  | cons frame rest =>
    rw [stream_cons]
    simp [Frame.bytes]

private theorem stream_dropLast (frame : Frame) (frames : List Frame) : (stream (frame :: frames)).dropLast =
    if frames = [] then frame.document.utf8 else frame.bytes ++ (stream frames).dropLast := by
  split
  · rename_i none
    rw [none, stream_cons, stream, List.flatMap_nil, List.append_nil, bytes_dropLast]
  · rename_i some
    rw [stream_cons, List.dropLast_append_of_ne_nil (stream_ne_nil some)]

/-- **The client reads the frames that were written.** Of a stream that was cut anywhere, in whatever
pieces it arrives, exactly the frames whose document came through are yielded, as they were
written and in their order. -/
theorem yields_frames (codec : Encoding → List UInt8 → Option Text) (frames : List Frame) (calls : ℕ)
    (r : StreamReader)
    (cut : r.pending <+: stream frames) : ∃ k ≤ frames.length,
      yielded (received codec calls r) = (frames.take k).map Frame.members ∧
        ∀ j ≤ frames.length, j ≤ k ↔ j ≤ calls ∧ (stream (frames.take j)).dropLast <+: r.pending := by
  induction frames generalizing calls r with
  | nil =>
    refine ⟨0, le_rfl, ?_, ?_⟩
    · rw [received_nothing codec calls (List.prefix_nil.mp cut)]
      rfl
    · intro j within
      obtain rfl := Nat.le_zero.mp within
      simp [stream]
  | cons frame rest ih =>
    cases calls with
    | zero =>
      refine ⟨0, Nat.zero_le _, rfl, fun j _ => ?_⟩
      constructor
      · intro none
        obtain rfl := Nat.le_zero.mp none
        simp [stream]
      · exact fun both => both.1
    | succ calls =>
      by_cases complete : frame.bytes <+: r.pending
      · obtain ⟨more, pending⟩ := complete
        have found : BufReader.cut '\n'.toUInt8 r.pending = some (frame.bytes, more) :=
          BufReader.cut_eq_some.mpr ⟨_, frame.unbroken, rfl, pending.symm⟩
        have width := frame.width
        obtain ⟨after, read, later⟩ := StreamReader.readline_line maxWatchLine found (by
          rw [Frame.bytes, List.length_append, maxWatchLine, List.length_singleton]
          rw [maxNDJSONBytes] at width
          omega)
        have left : after.pending <+: stream rest := by
          rw [stream_cons, ← pending] at cut
          rw [later]
          exact (List.prefix_append_right_inj _).mp cut
        obtain ⟨k, within, yields, reached⟩ := ih calls after left
        refine ⟨k + 1, Nat.succ_le_succ within, ?_, fun j bound => ?_⟩
        · obtain ⟨first, line, front⟩ := List.exists_cons_of_ne_nil (show frame.bytes ≠ [] by simp [Frame.bytes])
          rw [received, read, front]
          simp only
          rw [← front, yielded, frame.decoded codec (.inl rfl), yields]
          rfl
        · cases j with
          | zero => simp [stream]
          | succ i =>
            have own := reached i (Nat.le_of_succ_le_succ bound)
            rw [Nat.succ_le_succ_iff, own, List.take_succ_cons, stream_dropLast, ← pending, later, Nat.succ_le_succ_iff]
            split
            · rename_i none
              have document : frame.document.utf8 <+: frame.bytes ++ more :=
                (List.prefix_append _ _).trans (List.prefix_append _ _)
              simp [none, stream, document]
            · rw [List.prefix_append_right_inj]
      · obtain ⟨lost, whole⟩ := cut
        rw [stream_cons] at whole
        obtain ⟨missing, record, shorter⟩ : ∃ missing, r.pending ++ missing = frame.bytes ∧ missing ≠ [] := by
          rcases List.append_eq_append_iff.mp whole with ⟨missing, record, _⟩ | ⟨more, pending, _⟩
          · refine ⟨missing, record.symm, ?_⟩
            rintro rfl
            rw [List.append_nil] at record
            exact complete (record ▸ List.prefix_refl _)
          · exact absurd ⟨more, pending.symm⟩ complete
        have document : r.pending ++ missing.dropLast = frame.document.utf8 := by
          rw [← bytes_dropLast, ← record, List.dropLast_append_of_ne_nil shorter]
        have yields := yields_last codec frame calls document
        have through : ∀ i, (stream ((frame :: rest).take (i + 1))).dropLast <+: r.pending →
            missing.dropLast = [] ∧ rest.take i = [] := by
          intro i reached
          rw [List.take_succ_cons, stream_dropLast] at reached
          have size := reached.length_le
          rw [apply_ite List.length, List.length_append, Frame.bytes, List.length_append, List.length_singleton, ← document,
            List.length_append] at size
          split at size
          · exact ⟨List.length_eq_zero_iff.mp (by omega), ‹_›⟩
          · omega
        by_cases finished : missing.dropLast = []
        · rw [finished, List.append_nil] at document
          refine ⟨1, Nat.succ_pos _, by rw [yields, if_pos finished]; rfl, fun j bound => ?_⟩
          cases j with
          | zero => simp [stream]
          | succ i =>
            constructor
            · intro first
              obtain rfl : i = 0 := by omega
              refine ⟨Nat.succ_pos _, ?_⟩
              rw [List.take_succ_cons, List.take_zero, stream_dropLast, if_pos rfl, document]
            · rintro ⟨_, reached⟩
              rw [List.length_cons] at bound
              have none := List.take_eq_nil_iff.mp (through i reached).2
              rcases none with rfl | rfl
              · exact le_rfl
              · simpa using bound
        · refine ⟨0, Nat.zero_le _, by rw [yields, if_neg finished]; rfl, fun j _ => ?_⟩
          cases j with
          | zero => simp [stream]
          | succ i =>
            refine iff_of_false (Nat.not_succ_le_zero i) ?_
            rintro ⟨_, reached⟩
            exact finished (through i reached).1

end HermesHey.Wire
