import Mathlib.Algebra.Order.Group.Nat
import Mathlib.Data.List.Basic

/-! `bufio.Reader` over a source that hands out its bytes in pieces of any size.
A slice up to a delimiter is the same however the pieces and the buffer fall. -/
namespace Library

/-- Errors of reads. -/
inductive ReadError where
  /-- `io.EOF` -/
  | eof
  /-- `io.ErrNoProgress` -/
  | noProgress
  deriving DecidableEq, Repr

/-- Errors of slices. -/
inductive SliceError where
  | read (error : ReadError)
  /-- `bufio.ErrBufferFull` -/
  | bufferFull
  deriving DecidableEq, Repr

/-- A source of bytes. Each read gives at most the next cut, and the last bytes may
come together with the end of input or before it. -/
structure Source where
  rest : List UInt8
  cuts : ℕ → ℕ
  eager : Bool

namespace Source

/-- How many bytes a read into `room` bytes gives. -/
def given (s : Source) (room : ℕ) : ℕ := min (s.cuts 0) (min room s.rest.length)

/-- `Read`: the bytes, whether the input ended, and the source after it. -/
def read (s : Source) (room : ℕ) : List UInt8 × Option ReadError × Source :=
  let left := s.rest.drop (s.given room)
  (s.rest.take (s.given room), if s.rest = [] ∨ s.eager ∧ left = [] then some .eof else none,
    { s with rest := left, cuts := fun i => s.cuts (i + 1) })

/-- Never a hundred reads in a row without a byte. -/
def Progress (s : Source) : Prop := ∀ i, ∃ j < 100, 0 < s.cuts (i + j)

end Source

/-- The bytes in the buffer of `NewReaderSize`, at least `minReadBufferSize`. -/
def capacity (size : ℕ) : ℕ := max size 16

theorem capacity_pos (size : ℕ) : 0 < capacity size := lt_max_of_lt_right (by decide)

/-- The buffered bytes and the pending error of a reader. -/
structure BufReader (size : ℕ) where
  buffered : List UInt8
  err : Option ReadError
  source : Source

namespace BufReader
variable {size : ℕ}

/-- `NewReaderSize` -/
def new (size : ℕ) (source : Source) : BufReader size := { buffered := [], err := none, source }

/-- One `Read` into the free end of the buffer. -/
def receive (r : BufReader size) : BufReader size :=
  let (bytes, err, source) := r.source.read (capacity size - r.buffered.length)
  { buffered := r.buffered ++ bytes, err, source }

/-- The attempts of `fill` to read something. -/
def attempt (r : BufReader size) : ℕ → BufReader size
  | 0 => { r with err := some .noProgress }
  | tries + 1 =>
    if r.receive.err.isSome ∨ r.buffered.length < r.receive.buffered.length then r.receive
    else r.receive.attempt tries

/-- `fill`, with `maxConsecutiveEmptyReads` attempts -/
def fill (r : BufReader size) : BufReader size := r.attempt 100

private theorem receive_length (r : BufReader size) : r.buffered.length ≤ r.receive.buffered.length := by
  rw [receive, List.length_append]
  exact Nat.le_add_right _ _

private theorem attempt_grows (r : BufReader size) (tries : ℕ) :
    r.buffered.length ≤ (r.attempt tries).buffered.length ∧
      ((r.attempt tries).err.isSome ∨ r.buffered.length < (r.attempt tries).buffered.length) := by
  induction tries generalizing r with
  | zero => exact ⟨le_rfl, .inl rfl⟩
  | succ tries ih =>
    unfold attempt
    split
    · exact ⟨r.receive_length, ‹_›⟩
    · exact ⟨r.receive_length.trans (ih r.receive).1, (ih r.receive).2.imp id r.receive_length.trans_lt⟩

/-- The bytes up to the delimiter and those after it. -/
def cut (delim : UInt8) : List UInt8 → Option (List UInt8 × List UInt8)
  | [] => none
  | c :: rest => if c = delim then some ([c], rest) else (cut delim rest).map fun found => (c :: found.1, found.2)

/-- `ReadSlice` -/
def readSlice (r : BufReader size) (delim : UInt8) : (List UInt8 × Option SliceError) × BufReader size :=
  match cut delim r.buffered with
  | some (line, left) => ((line, none), { r with buffered := left })
  | none =>
    if r.err.isSome then ((r.buffered, r.err.map .read), { r with buffered := [], err := none })
    else if capacity size ≤ r.buffered.length then ((r.buffered, some .bufferFull), { r with buffered := [] })
    else r.fill.readSlice delim
termination_by (if r.err.isSome then 0 else 1) + (capacity size - r.buffered.length)
decreasing_by
  rename_i running room
  obtain ⟨kept, grown⟩ := r.attempt_grows 100
  rw [if_neg running, fill]
  split
  · omega
  · have longer := grown.resolve_left ‹_›
    omega

/-! ## What a slice is -/

/-- The bytes that have not been returned. -/
def pending (r : BufReader size) : List UInt8 := r.buffered ++ r.source.rest

/-- A reader as its operations leave it, of a source that makes progress. -/
structure Sound (r : BufReader size) : Prop where
  room : r.buffered.length ≤ capacity size
  ended : r.err = none ∨ r.err = some .eof ∧ r.source.rest = []
  progress : r.source.Progress

/-- A new reader is sound. -/
theorem sound_new {source : Source} (progress : source.Progress) : (new size source).Sound :=
  ⟨Nat.zero_le _, .inl rfl, progress⟩

theorem pending_new (source : Source) : (new size source).pending = source.rest := rfl

private theorem receive_pending (r : BufReader size) : r.receive.pending = r.pending := by
  simp [pending, receive, Source.read]

private theorem receive_sound {r : BufReader size} (sound : r.Sound) : r.receive.Sound where
  room := by
    have room := sound.room
    simp only [receive, Source.read, Source.given, List.length_append, List.length_take]
    omega
  ended := by
    simp only [receive, Source.read]
    split
    · rename_i ended
      right
      rcases ended with none | ⟨_, none⟩
      · exact ⟨rfl, by rw [none, List.drop_nil]⟩
      · exact ⟨rfl, none⟩
    · exact .inl rfl
  progress := by
    intro i
    obtain ⟨j, few, some⟩ := sound.progress (i + 1)
    refine ⟨j, few, ?_⟩
    rwa [Nat.add_right_comm] at some

private theorem receive_nothing {r : BufReader size} (room : r.buffered.length < capacity size)
    (running : ¬ r.receive.err.isSome)
    (nothing : ¬ r.buffered.length < r.receive.buffered.length) : r.source.cuts 0 = 0 := by
  simp only [receive, Source.read, Source.given, List.length_append, List.length_take] at running nothing
  have some : r.source.rest ≠ [] := by
    intro none
    simp [none] at running
  have positive := List.length_pos_iff.mpr some
  omega

private theorem attempt_sound {r : BufReader size} (sound : r.Sound) (room : r.buffered.length < capacity size)
    (progress : ∃ j < tries, 0 < r.source.cuts j) :
    (r.attempt tries).pending = r.pending ∧ (r.attempt tries).Sound := by
  -- `fill` on a source that makes progress; induction on the attempts left
  induction tries generalizing r with
  | zero =>
    obtain ⟨j, few, _⟩ := progress
    exact absurd few (Nat.not_lt_zero j)
  | succ tries ih =>
    unfold attempt
    split
    · exact ⟨r.receive_pending, receive_sound sound⟩
    · rename_i again
      rw [not_or] at again
      have zero := receive_nothing room again.1 again.2
      have later : ∃ j < tries, 0 < r.receive.source.cuts j := by
        obtain ⟨j, few, some⟩ := progress
        cases j with
        | zero => omega
        | succ j => exact ⟨j, Nat.lt_of_succ_lt_succ few, some⟩
      obtain ⟨pending, after⟩ := ih (receive_sound sound) (Nat.lt_of_le_of_lt (not_lt.mp again.2) room) later
      exact ⟨pending.trans r.receive_pending, after⟩

/-- What `ReadSlice` returns of the pending bytes. -/
inductive Sliced (delim : UInt8) (size : ℕ) (bytes : List UInt8) : List UInt8 × Option SliceError → List UInt8 → Prop where
  /-- The first bytes up to a delimiter. -/
  | line (found : cut delim bytes = some (line, left)) : Sliced delim size bytes (line, none) left
  /-- A buffer without a delimiter. -/
  | full (absent : delim ∉ part) (whole : part.length = capacity size) (split : part ++ left = bytes) :
      Sliced delim size bytes (part, some .bufferFull) left
  /-- The last bytes, without a delimiter. -/
  | last (absent : delim ∉ bytes) : Sliced delim size bytes (bytes, some (.read .eof)) []

/-- `cut` finds the first delimiter. -/
theorem cut_eq_some : cut delim bytes = some (line, left) ↔
    ∃ front, delim ∉ front ∧ line = front ++ [delim] ∧ bytes = line ++ left := by
  induction bytes generalizing line with
  | nil =>
    constructor
    · rintro ⟨⟩
    · rintro ⟨front, _, rfl, bytes⟩
      simp at bytes
  | cons c rest ih =>
    rw [cut]
    by_cases same : c = delim
    · subst same
      rw [if_pos rfl, Option.some.injEq, Prod.mk.injEq]
      constructor
      · rintro ⟨rfl, rfl⟩
        exact ⟨[], by simp, rfl, rfl⟩
      · rintro ⟨front, absent, rfl, bytes⟩
        cases front with
        | nil => simpa using bytes
        | cons d others =>
          obtain ⟨rfl, _⟩ := List.cons.inj bytes
          exact absurd List.mem_cons_self absent
    · rw [if_neg same, Option.map_eq_some_iff]
      constructor
      · rintro ⟨⟨part, after⟩, found, pair⟩
        obtain ⟨rfl, rfl⟩ := Prod.mk.inj pair
        obtain ⟨front, absent, rfl, rfl⟩ := ih.mp found
        exact ⟨c :: front, by simp [Ne.symm same, absent], rfl, rfl⟩
      · rintro ⟨front, absent, rfl, bytes⟩
        cases front with
        | nil => exact absurd (List.cons.inj bytes).1 same
        | cons d others =>
          obtain ⟨rfl, left⟩ := List.cons.inj bytes
          have found := ih.mpr ⟨others, fun held => absent (List.mem_cons_of_mem _ held), rfl, left⟩
          exact ⟨_, found, rfl⟩

/-- It finds none where there is none. -/
theorem cut_eq_none : cut delim bytes = none ↔ delim ∉ bytes := by
  induction bytes with
  | nil => simp [cut]
  | cons c rest ih =>
    rw [cut]
    by_cases same : c = delim
    · simp [same]
    · simp [same, Ne.symm same, ih]

/-- However the pieces fall, a slice is the next of the pending bytes. -/
theorem readSlice_sound {r : BufReader size} (sound : r.Sound) (delim : UInt8) :
    Sliced delim size r.pending (r.readSlice delim).1 (r.readSlice delim).2.pending ∧ (r.readSlice delim).2.Sound := by
  fun_induction readSlice r delim with
  | case1 r line left found =>
    obtain ⟨front, absent, rfl, bytes⟩ := cut_eq_some.mp found
    constructor
    · refine .line (cut_eq_some.mpr ⟨front, absent, rfl, ?_⟩)
      rw [pending, pending, bytes, List.append_assoc]
    · have room := sound.room
      rw [bytes, List.length_append] at room
      exact ⟨(Nat.le_add_left _ _).trans room, sound.ended, sound.progress⟩
  | case2 r absent ended =>
    rcases sound.ended with none | ⟨eof, rest⟩
    · rw [none] at ended
      cases ended
    · have bytes : r.pending = r.buffered := by rw [pending, rest, List.append_nil]
      have left : pending ({ r with buffered := [], err := none } : BufReader size) = [] := rest
      refine ⟨?_, Nat.zero_le _, .inl rfl, sound.progress⟩
      rw [left, bytes, eof]
      exact .last (cut_eq_none.mp absent)
  | case3 r absent running full =>
    have ended : r.err = none := by simpa using running
    exact ⟨.full (cut_eq_none.mp absent) (sound.room.antisymm full) rfl, Nat.zero_le _, .inl ended, sound.progress⟩
  | case4 r absent running room ih =>
    obtain ⟨bytes, after⟩ := attempt_sound sound (not_le.mp room) (by simpa using sound.progress 0)
    rw [← bytes]
    exact ih after

end BufReader
end Library
