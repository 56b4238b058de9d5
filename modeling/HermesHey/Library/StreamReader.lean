import HermesHey.Library.BufferedReader

/-! `asyncio.StreamReader`, fed its bytes in pieces of any size. A line is the
same however the pieces fall, and so is the refusal of one that is too long. -/
namespace Library

/-- The bytes that were fed and not read, and the pieces to come before the end of the stream. -/
structure StreamReader where
  buffer : List UInt8
  pieces : List (List UInt8)

namespace StreamReader
open BufReader (cut cut_eq_some cut_eq_none)

/-- Errors of `readuntil`. -/
inductive UntilError where
  /-- `IncompleteReadError`, with the bytes up to the end of the stream -/
  | incomplete (bytes : List UInt8)
  /-- `LimitOverrunError`, with the bytes that hold no separator -/
  | overrun (consumed : ℕ)

/-- `bytearray.find` of one byte, from an offset -/
def find (separator : UInt8) (offset : ℕ) (buffer : List UInt8) : Option ℕ :=
  ((buffer.drop offset).findIdx? (· = separator)).map (· + offset)

/-- The loop of `readuntil`, which has searched the first `offset` bytes. -/
def search (limit : ℕ) (separator : UInt8) (offset : ℕ) (buffer : List UInt8) :
    List (List UInt8) → Except UntilError (List UInt8) × StreamReader := fun pieces =>
  match find separator offset buffer with
  | some isep =>
    if limit < isep then (.error (.overrun isep), ⟨buffer, pieces⟩)
    else (.ok (buffer.take (isep + 1)), ⟨buffer.drop (isep + 1), pieces⟩)
  | none =>
    if offset < buffer.length ∧ limit < buffer.length then (.error (.overrun buffer.length), ⟨buffer, pieces⟩)
    else
      match pieces with
      | [] => (.error (.incomplete buffer), ⟨[], []⟩)
      | piece :: rest => search limit separator (max offset buffer.length) (buffer ++ piece) rest

/-- `readuntil` -/
def readuntil (r : StreamReader) (limit : ℕ) (separator : UInt8) : Except UntilError (List UInt8) × StreamReader :=
  search limit separator 0 r.buffer r.pieces

/-- `readline`, which ends in a `ValueError` when the line is over the limit -/
def readline (r : StreamReader) (limit : ℕ) : Option (List UInt8) × StreamReader :=
  match r.readuntil limit '\n'.toUInt8 with
  | (.ok line, after) => (some line, after)
  | (.error (.incomplete bytes), after) => (some bytes, after)
  | (.error (.overrun consumed), after) =>
    (none, { after with buffer := if after.buffer[consumed]? = some '\n'.toUInt8 then after.buffer.drop (consumed + 1) else [] })

/-! ## What a line is -/

/-- The bytes that have not been returned. -/
def pending (r : StreamReader) : List UInt8 := r.buffer ++ r.pieces.flatten

private theorem findIdx_cut (bytes : List UInt8) :
    bytes.findIdx? (· = separator) = (cut separator bytes).map fun found => found.1.length - 1 := by
  induction bytes with
  | nil => rfl
  | cons c rest ih =>
    rw [List.findIdx?_cons, cut]
    by_cases same : c = separator
    · simp [same]
    · simp only [same, decide_false, Bool.false_eq_true, ↓reduceIte, ih, Option.map_map]
      cases found : cut separator rest with
      | none => rfl
      | some parts =>
        obtain ⟨front, _, line, _⟩ := cut_eq_some.mp (show cut separator rest = some (parts.1, parts.2) from found)
        have positive : 0 < parts.1.length := by rw [line, List.length_append]; exact Nat.succ_pos _
        simp only [Option.map_some, Function.comp_apply, List.length_cons]
        congr 1
        omega

private theorem cut_append (absent : separator ∉ front) :
    cut separator (front ++ rest) = (cut separator rest).map fun found => (front ++ found.1, found.2) := by
  induction front with
  | nil => simp
  | cons c front ih =>
    obtain ⟨other, absent⟩ := not_or.mp (mt List.mem_cons.mpr absent)
    rw [List.cons_append, cut, if_neg (Ne.symm other), ih absent, Option.map_map]
    rfl

private theorem find_cut {bytes : List UInt8} (searched : separator ∉ bytes.take offset)
    (within : offset ≤ bytes.length) :
    find separator offset bytes = (cut separator bytes).map fun found => found.1.length - 1 := by
  conv_rhs => rw [← List.take_append_drop offset bytes, cut_append searched, Option.map_map]
  rw [find, findIdx_cut, Option.map_map]
  cases found : cut separator (bytes.drop offset) with
  | none => rfl
  | some parts =>
    obtain ⟨front, _, line, _⟩ := cut_eq_some.mp (show cut separator _ = some (parts.1, parts.2) from found)
    have size : parts.1.length = front.length + 1 := by rw [line, List.length_append]; rfl
    simp only [Option.map_some, Function.comp_apply, List.length_append, List.length_take]
    congr 1
    omega

/-- What `readuntil` returns of the pending bytes, and what it leaves of them. -/
inductive Until (limit : ℕ) (separator : UInt8) (bytes : List UInt8) : Except UntilError (List UInt8) × StreamReader → Prop where
  | line (found : cut separator bytes = some (line, after.pending)) (fits : line.length ≤ limit + 1) :
      Until limit separator bytes (.ok line, after)
  | last (absent : separator ∉ bytes) (fits : bytes.length ≤ limit) (left : after.pending = []) :
      Until limit separator bytes (.error (.incomplete bytes), after)
  | long (found : cut separator bytes = some (line, left)) (long : limit + 1 < line.length) :
      Until limit separator bytes (.error (.overrun consumed), after)
  | longLast (absent : separator ∉ bytes) (long : limit < bytes.length) :
      Until limit separator bytes (.error (.overrun consumed), after)

private theorem until_long {bytes : List UInt8} (absent : separator ∉ bytes) (long : limit < bytes.length)
    (more : List UInt8) :
    Until limit separator (bytes ++ more) (.error (.overrun consumed), after) := by
  cases found : cut separator more with
  | none =>
    refine .longLast ?_ (by rw [List.length_append]; omega)
    rw [List.mem_append, not_or]
    exact ⟨absent, cut_eq_none.mp found⟩
  | some parts =>
    obtain ⟨front, _, line, _⟩ := cut_eq_some.mp (show cut separator more = some (parts.1, parts.2) from found)
    have size : parts.1.length = front.length + 1 := by rw [line, List.length_append]; rfl
    have whole : cut separator (bytes ++ more) = some (bytes ++ parts.1, parts.2) := by
      rw [cut_append absent, found, Option.map_some]
    exact .long whole (by rw [List.length_append]; omega)

private theorem until_found {bytes line left : List UInt8} (found : cut separator bytes = some (line, left))
    (chunks : List (List UInt8)) :
    Until limit separator (bytes ++ chunks.flatten)
      (if limit < line.length - 1 then (.error (.overrun (line.length - 1)), ⟨bytes, chunks⟩)
        else (.ok (bytes.take (line.length - 1 + 1)), ⟨bytes.drop (line.length - 1 + 1), chunks⟩)) := by
  obtain ⟨front, absent, rfl, rfl⟩ := cut_eq_some.mp found
  have whole : cut separator (front ++ [separator] ++ left ++ chunks.flatten) =
      some (front ++ [separator], left ++ chunks.flatten) :=
    cut_eq_some.mpr ⟨front, absent, rfl, List.append_assoc _ _ _⟩
  have size : (front ++ [separator]).length - 1 + 1 = (front ++ [separator]).length := by simp
  rw [size, List.take_left, List.drop_left]
  split
  · rename_i long
    exact .long whole (by omega)
  · rename_i fits
    exact .line whole (by omega)

private theorem search_until {offset limit : ℕ} {bytes : List UInt8} (chunks : List (List UInt8))
    (searched : separator ∉ bytes.take offset) (within : offset ≤ bytes.length) (short : offset ≤ limit) :
    Until limit separator (bytes ++ chunks.flatten) (search limit separator offset bytes chunks) := by
  -- induction on the pieces: no separator stands in the bytes that were searched
  induction chunks generalizing bytes offset with
  | nil =>
    rw [search.eq_def, find_cut searched within]
    cases found : cut separator bytes with
    | some parts => exact until_found found []
    | none =>
      have absent := cut_eq_none.mp found
      rw [Option.map_none]
      dsimp only
      split
      · rename_i long
        exact until_long absent long.2 _
      · rename_i running
        rw [List.flatten_nil, List.append_nil]
        exact .last absent (by omega) rfl
  | cons piece rest ih =>
    rw [search.eq_def, find_cut searched within]
    cases found : cut separator bytes with
    | some parts => exact until_found found (piece :: rest)
    | none =>
      have absent := cut_eq_none.mp found
      rw [Option.map_none]
      dsimp only
      split
      · rename_i long
        exact until_long absent long.2 _
      · rename_i running
        have far : max offset bytes.length = bytes.length := max_eq_right within
        rw [far, List.flatten_cons, ← List.append_assoc]
        apply ih
        · rwa [List.take_left]
        · rw [List.length_append]
          omega
        · omega

private theorem readuntil_until (r : StreamReader) (limit : ℕ) (separator : UInt8) :
    Until limit separator r.pending (r.readuntil limit separator) :=
  search_until r.pieces (by simp) (Nat.zero_le _) (Nat.zero_le _)

/-! ## Lines -/

/-- `readline` returns the next line, wherever the pieces of the stream end. -/
theorem readline_line (limit : ℕ) {r : StreamReader} (found : cut '\n'.toUInt8 r.pending = some (line, left))
    (fits : line.length ≤ limit + 1) : ∃ after, r.readline limit = (some line, after) ∧ after.pending = left := by
  have whole := r.readuntil_until limit '\n'.toUInt8
  unfold readline
  generalize r.readuntil limit '\n'.toUInt8 = result at whole
  cases whole with
  | line cut =>
    cases found.symm.trans cut
    exact ⟨_, rfl, rfl⟩
  | last absent =>
    rw [cut_eq_none.mpr absent] at found
    cases found
  | long cut long =>
    cases found.symm.trans cut
    exact absurd fits (not_le.mpr long)
  | longLast absent =>
    rw [cut_eq_none.mpr absent] at found
    cases found

/-- At the end of the stream it returns what is left. -/
theorem readline_last (limit : ℕ) {r : StreamReader} (absent : '\n'.toUInt8 ∉ r.pending)
    (fits : r.pending.length ≤ limit) :
    ∃ after, r.readline limit = (some r.pending, after) ∧ after.pending = [] := by
  have whole := r.readuntil_until limit '\n'.toUInt8
  have uncut := cut_eq_none.mpr absent
  unfold readline
  generalize r.readuntil limit '\n'.toUInt8 = result at whole
  cases whole with
  | line cut =>
    rw [uncut] at cut
    cases cut
  | last _ _ left => exact ⟨_, rfl, left⟩
  | long cut =>
    rw [uncut] at cut
    cases cut
  | longLast _ long => exact absurd fits (not_le.mpr long)

end StreamReader
end Library
