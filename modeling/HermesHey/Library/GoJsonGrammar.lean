import Mathlib.Algebra.Order.Group.Nat
import Mathlib.Data.List.TakeWhile
import HermesHey.Library.GoJson

/-! The grammar of JSON text, written without the scanner. The scanner reads exactly
the texts of the grammar, with the values it gives them. -/
namespace Library.GoJson
open Strconv (bytes)

/-! ## The grammar -/

/-- Only white space. -/
def Blank (s : Bytes) : Prop := ∀ c ∈ s, isSpace c = true

/-- The text begins with the byte `d` after white space and goes on with the rest. -/
def Begins (d : UInt8) (s rest : Bytes) : Prop := ∃ gap, Blank gap ∧ s = gap ++ d :: rest

/-- The inside of a string: no bare quote, no control character, every escape complete. -/
def Quoted (raw : Bytes) : Prop := raw.foldlM InString.step .plain = some .plain

/-- The text of a number. -/
def Numeral (literal : Bytes) : Prop :=
  ∃ c digits state final, literal = c :: digits ∧ InNumber.start c = some state ∧
    digits.foldlM InNumber.step state = some final ∧ final.complete = true

/-- A key with its colon. -/
def Key (key : Text) (s rest : Bytes) : Prop :=
  ∃ raw after, Begins quote s (raw ++ quote :: after) ∧ Quoted raw ∧ key = unquote raw ∧ Begins ':'.toUInt8 after rest

/-- What a text can hold. -/
inductive Item where
  | value (value : Value)
  /-- The elements of an array, with its closing bracket. -/
  | elements (elements : List Value)
  /-- The members of an object, with its closing brace. -/
  | members (members : Members)

/-- The text begins with the item and goes on with the rest. At most `nest` levels open. -/
inductive Spells : ℕ → Item → Bytes → Bytes → Prop where
  | space (blank : isSpace c = true) (spelled : Spells nest (.value v) s rest) : Spells nest (.value v) (c :: s) rest
  | null : Spells nest (.value .null) (bytes "null" ++ rest) rest
  | bool : Spells nest (.value (.bool b)) (bytes (if b then "true" else "false") ++ rest) rest
  | number (numeral : Numeral literal) : Spells nest (.value (.number literal)) (literal ++ rest) rest
  | string (quoted : Quoted raw) : Spells nest (.value (.string (unquote raw))) (quote :: (raw ++ quote :: rest)) rest
  | emptyObject (close : Begins '\x7d'.toUInt8 s rest) : Spells (nest + 1) (.value (.object [])) ('\x7b'.toUInt8 :: s) rest
  | object (members : Spells nest (.members ms) s rest) : Spells (nest + 1) (.value (.object ms)) ('\x7b'.toUInt8 :: s) rest
  | emptyArray (close : Begins ']'.toUInt8 s rest) : Spells (nest + 1) (.value (.array [])) ('['.toUInt8 :: s) rest
  | array (elements : Spells nest (.elements vs) s rest) : Spells (nest + 1) (.value (.array vs)) ('['.toUInt8 :: s) rest
  | lastMember (key : Key k s t) (value : Spells nest (.value v) t u) (close : Begins '\x7d'.toUInt8 u rest) :
      Spells nest (.members [(k, v)]) s rest
  | member (key : Key k s t) (value : Spells nest (.value v) t u) (comma : Begins ','.toUInt8 u w)
      (more : Spells nest (.members ms) w rest) : Spells nest (.members ((k, v) :: ms)) s rest
  | lastElement (value : Spells nest (.value v) s t) (close : Begins ']'.toUInt8 t rest) :
      Spells nest (.elements [v]) s rest
  | element (value : Spells nest (.value v) s t) (comma : Begins ','.toUInt8 t u)
      (more : Spells nest (.elements vs) u rest) : Spells nest (.elements (v :: vs)) s rest

/-! ## White space and strings -/

theorem skipSpace_blank (blank : Blank gap) : skipSpace (gap ++ s) = skipSpace s :=
  List.dropWhile_append_of_pos blank

theorem skipSpace_eq_nil : skipSpace s = [] ↔ Blank s := List.dropWhile_eq_nil_iff

theorem skipSpace_self (dark : isSpace c = false) : skipSpace (c :: s) = c :: s :=
  List.dropWhile_cons_of_neg (by simp [dark])

/-- A text is its white space and what follows it. -/
theorem skipSpace_split (s : Bytes) : ∃ gap, Blank gap ∧ s = gap ++ skipSpace s :=
  ⟨s.takeWhile isSpace, fun _ held => List.mem_takeWhile_imp held, (List.takeWhile_append_dropWhile).symm⟩

/-- `expect` passes over white space and one byte. -/
theorem expect_eq_some (dark : isSpace d = false) : expect d s = some rest ↔ Begins d s rest := by
  constructor
  · intro found
    obtain ⟨gap, blank, split⟩ := skipSpace_split s
    unfold expect at found
    split at found
    · cases found
    · rename_i c left skipped
      split at found
      · rename_i same
        subst same
        cases found
        exact ⟨gap, blank, by rw [← skipped]; exact split⟩
      · cases found
  · rintro ⟨gap, blank, rfl⟩
    rw [expect, skipSpace_blank blank, skipSpace_self dark]
    exact if_pos rfl

theorem expect_other (found : expect d s = some rest) (other : d ≠ e) : expect e s = none := by
  unfold expect at found ⊢
  split at found
  · cases found
  · rename_i c left skipped
    split at found
    · rename_i same
      subst same
      exact if_neg other
    · cases found

/-- A beginning takes at least one byte. -/
theorem Begins.length_lt (begins : Begins d s rest) : rest.length < s.length := by
  obtain ⟨gap, _, rfl⟩ := begins
  rw [List.length_append, List.length_cons]
  omega

/-- A string ends at its first bare quote. -/
theorem scanString_eq_some : scanString state s = some (raw, rest) ↔
    s = raw ++ quote :: rest ∧ raw.foldlM InString.step state = some .plain := by
  induction s generalizing state raw with
  | nil => simp [scanString]
  | cons c s ih =>
    rw [scanString]
    by_cases closed : state = .plain ∧ c = quote
    · obtain ⟨rfl, rfl⟩ := closed
      rw [if_pos ⟨rfl, rfl⟩]
      cases raw with
      | nil => simp [eq_comm]
      | cons d raw =>
        have stuck : InString.plain.step quote = none := rfl
        constructor
        · intro found
          cases found
        · rintro ⟨split, steps⟩
          obtain ⟨rfl, _⟩ := List.cons.inj split
          rw [List.foldlM_cons, stuck] at steps
          cases steps
    · rw [if_neg closed]
      cases raw with
      | nil =>
        constructor
        · intro found
          split at found
          · cases found
          · obtain ⟨_, _, same⟩ := Option.map_eq_some_iff.mp found
            cases same
        · rintro ⟨split, steps⟩
          obtain ⟨rfl, _⟩ := List.cons.inj split
          cases steps
          exact absurd ⟨rfl, rfl⟩ closed
      | cons d raw =>
        rw [List.foldlM_cons]
        constructor
        · intro found
          split at found
          · cases found
          · rename_i next stepped
            obtain ⟨pair, inner, same⟩ := Option.map_eq_some_iff.mp found
            cases same
            obtain ⟨rfl, steps⟩ := ih.mp inner
            rw [stepped]
            exact ⟨rfl, steps⟩
        · rintro ⟨split, steps⟩
          obtain ⟨rfl, rfl⟩ := List.cons.inj split
          cases stepped : state.step c with
          | none =>
            rw [stepped] at steps
            cases steps
          | some next =>
            rw [stepped] at steps
            have inner : scanString next (raw ++ quote :: rest) = some (raw, rest) := ih.mpr ⟨rfl, steps⟩
            simp [inner]

/-! ## Numbers -/

/-- A number cannot go on here. -/
def Ends (s : Bytes) : Prop := ∀ c ∈ s.head?, ∀ state : InNumber, state.step c = none

private theorem step_space (blank : isSpace c = true) (state : InNumber) : state.step c = none := by
  simp only [isSpace, Bool.or_eq_true, decide_eq_true_eq] at blank
  rcases blank with ((rfl | rfl) | rfl) | rfl <;> cases state <;> rfl

theorem ends_blank (blank : Blank s) : Ends s := by
  intro c head
  exact step_space (blank c (List.mem_of_mem_head? head))

private theorem Begins.ends (begins : Begins d s rest) (stops : ∀ state : InNumber, state.step d = none) :
    Ends s := by
  obtain ⟨gap, blank, rfl⟩ := begins
  cases gap with
  | nil =>
    intro c head
    cases head
    exact stops
  | cons b gap =>
    intro c head
    cases head
    exact step_space (blank b List.mem_cons_self)

private theorem scanNumber_sound (found : scanNumber state s = some (digits, rest)) :
    s = digits ++ rest ∧ ∃ final, digits.foldlM InNumber.step state = some final ∧ final.complete = true := by
  induction s generalizing state digits with
  | nil =>
    rw [scanNumber] at found
    split at found
    · cases found
      exact ⟨rfl, state, rfl, ‹_›⟩
    · cases found
  | cons c s ih =>
    rw [scanNumber] at found
    split at found
    · rename_i next stepped
      obtain ⟨pair, inner, same⟩ := Option.map_eq_some_iff.mp found
      cases same
      obtain ⟨rfl, final, steps, complete⟩ := ih inner
      refine ⟨rfl, final, ?_, complete⟩
      rw [List.foldlM_cons, stepped]
      exact steps
    · split at found
      · cases found
        exact ⟨rfl, state, rfl, ‹_›⟩
      · cases found

private theorem scanNumber_complete (steps : digits.foldlM InNumber.step state = some final)
    (complete : final.complete = true) (ends : Ends rest) : scanNumber state (digits ++ rest) = some (digits, rest) := by
  induction digits generalizing state with
  | nil =>
    cases steps
    cases rest with
    | nil => exact if_pos complete
    | cons c rest => simp [scanNumber, ends c rfl, complete]
  | cons c digits ih =>
    rw [List.foldlM_cons] at steps
    cases stepped : state.step c with
    | none =>
      rw [stepped] at steps
      cases steps
    | some next =>
      rw [stepped] at steps
      have inner := ih steps
      simp [scanNumber, stepped, inner]

/-! ## Soundness -/

private theorem scanName_sound (found : scanName name value s = some (v, rest)) : v = value ∧ s = name ++ rest := by
  unfold scanName at found
  split at found
  · rename_i front
    cases found
    exact ⟨rfl, (List.prefix_iff_eq_append.mp front).symm⟩
  · cases found

private theorem scanScalar_sound (found : scanScalar s = some (v, rest)) : Spells nest (.value v) s rest := by
  cases s with
  | nil => cases found
  | cons c s =>
    simp only [scanScalar] at found
    split at found
    · obtain ⟨rfl, front⟩ := scanName_sound found
      rw [front]
      exact .null
    split at found
    · obtain ⟨rfl, front⟩ := scanName_sound found
      rw [front]
      exact .bool
    split at found
    · obtain ⟨rfl, front⟩ := scanName_sound found
      rw [front]
      exact .bool
    · obtain ⟨state, started, continued⟩ := Option.bind_eq_some_iff.mp found
      obtain ⟨⟨digits, left⟩, scanned, same⟩ := Option.bind_eq_some_iff.mp continued
      cases same
      obtain ⟨rfl, final, steps, complete⟩ := scanNumber_sound scanned
      exact .number ⟨c, digits, state, final, rfl, started, steps, complete⟩

private theorem Spells.blank (blank : Blank gap) (spelled : Spells nest (.value v) s rest) :
    Spells nest (.value v) (gap ++ s) rest := by
  induction gap with
  | nil => exact spelled
  | cons c gap ih =>
    obtain ⟨first, others⟩ := List.forall_mem_cons.mp blank
    exact .space first (ih others)

/-- What the scanner finds is spelled by the text it takes. -/
structure Sound (fuel : ℕ) : Prop where
  value : ∀ {nest s v rest}, scanValue fuel nest s = some (v, rest) → Spells nest (.value v) s rest
  members : ∀ {nest s ms rest}, scanMembers fuel nest s = some (ms, rest) → Spells nest (.members ms) s rest
  elements : ∀ {nest s vs rest}, scanElements fuel nest s = some (vs, rest) → Spells nest (.elements vs) s rest

private theorem scanBody_eq_some (dark : isSpace close = false)
    (found : scanBody close s items = some (list, rest)) :
    list = [] ∧ Begins close s rest ∨ items = some (list, rest) := by
  unfold scanBody at found
  split at found
  · rename_i closed
    cases found
    exact .inl ⟨rfl, (expect_eq_some dark).mp closed⟩
  · exact .inr found

private theorem scanValue_sound (sound : Sound fuel) (found : scanValue (fuel + 1) nest s = some (v, rest)) :
    Spells nest (.value v) s rest := by
  obtain ⟨gap, blank, split⟩ := skipSpace_split s
  rw [split]
  apply Spells.blank blank
  rw [scanValue] at found
  generalize skipSpace s = front at found ⊢
  cases front with
  | nil => cases found
  | cons c front =>
    simp only at found
    split at found
    · rename_i brace
      subst brace
      split at found
      · cases found
      · obtain ⟨nest, rfl⟩ := Nat.exists_eq_succ_of_ne_zero ‹_›
        obtain ⟨⟨ms, left⟩, body, same⟩ := Option.map_eq_some_iff.mp found
        cases same
        rcases scanBody_eq_some rfl body with ⟨rfl, close⟩ | members
        · exact .emptyObject close
        · exact .object (sound.members members)
    split at found
    · rename_i bracket
      subst bracket
      split at found
      · cases found
      · obtain ⟨nest, rfl⟩ := Nat.exists_eq_succ_of_ne_zero ‹_›
        obtain ⟨⟨vs, left⟩, body, same⟩ := Option.map_eq_some_iff.mp found
        cases same
        rcases scanBody_eq_some rfl body with ⟨rfl, close⟩ | elements
        · exact .emptyArray close
        · exact .array (sound.elements elements)
    split at found
    · rename_i quoted
      subst quoted
      obtain ⟨⟨raw, left⟩, inner, same⟩ := Option.map_eq_some_iff.mp found
      cases same
      obtain ⟨rfl, quoted⟩ := scanString_eq_some.mp inner
      exact .string quoted
    · exact scanScalar_sound found

private theorem key_sound (opened : expect quote s = some inside)
    (scanned : scanString .plain inside = some (raw, after))
    (colon : expect ':'.toUInt8 after = some rest) : Key (unquote raw) s rest := by
  obtain ⟨rfl, quoted⟩ := scanString_eq_some.mp scanned
  exact ⟨raw, after, (expect_eq_some rfl).mp opened, quoted, rfl, (expect_eq_some rfl).mp colon⟩

private theorem scanMembers_sound (sound : Sound fuel) (found : scanMembers (fuel + 1) nest s = some (ms, rest)) :
    Spells nest (.members ms) s rest := by
  rw [scanMembers] at found
  obtain ⟨inside, opened, found⟩ := Option.bind_eq_some_iff.mp found
  obtain ⟨⟨raw, afterKey⟩, scanned, found⟩ := Option.bind_eq_some_iff.mp found
  obtain ⟨afterColon, colon, found⟩ := Option.bind_eq_some_iff.mp found
  obtain ⟨⟨v, after⟩, value, found⟩ := Option.bind_eq_some_iff.mp found
  have key := key_sound opened scanned colon
  dsimp only at found
  split at found
  · rename_i closed
    cases found
    exact .lastMember key (sound.value value) ((expect_eq_some rfl).mp closed)
  · obtain ⟨next, comma, found⟩ := Option.bind_eq_some_iff.mp found
    obtain ⟨⟨more, left⟩, others, same⟩ := Option.bind_eq_some_iff.mp found
    cases same
    exact .member key (sound.value value) ((expect_eq_some rfl).mp comma) (sound.members others)

private theorem scanElements_sound (sound : Sound fuel) (found : scanElements (fuel + 1) nest s = some (vs, rest)) :
    Spells nest (.elements vs) s rest := by
  rw [scanElements] at found
  obtain ⟨⟨v, after⟩, value, found⟩ := Option.bind_eq_some_iff.mp found
  dsimp only at found
  split at found
  · rename_i closed
    cases found
    exact .lastElement (sound.value value) ((expect_eq_some rfl).mp closed)
  · obtain ⟨next, comma, found⟩ := Option.bind_eq_some_iff.mp found
    obtain ⟨⟨more, left⟩, others, same⟩ := Option.bind_eq_some_iff.mp found
    cases same
    exact .element (sound.value value) ((expect_eq_some rfl).mp comma) (sound.elements others)

/-- Soundness of the scanner; induction on its fuel. -/
theorem scan_sound (fuel : ℕ) : Sound fuel := by
  induction fuel with
  | zero => exact ⟨(nomatch ·), (nomatch ·), (nomatch ·)⟩
  | succ fuel sound => exact ⟨scanValue_sound sound, scanMembers_sound sound, scanElements_sound sound⟩

/-! ## Completeness -/

/-- What the scanner finds of an item. -/
def Item.scan (fuel nest : ℕ) : Item → Bytes → Bytes → Prop
  | .value v, s, rest => scanValue fuel nest s = some (v, rest)
  | .elements vs, s, rest => scanElements fuel nest s = some (vs, rest)
  | .members ms, s, rest => scanMembers fuel nest s = some (ms, rest)

/-- An item that a number may end is followed by what cannot continue it. -/
def Item.Followed : Item → Bytes → Prop
  | .value _, rest => Ends rest
  | _, _ => True

/-- The levels of recursion that the scanner needs. -/
def Item.fuel : Item → Bytes → ℕ
  | .elements _, s => 2 * s.length + 2
  | _, s => 2 * s.length + 1

private theorem start_other (started : InNumber.start c = some state) (other : InNumber.start d = none) : c ≠ d := by
  rintro rfl
  rw [other] at started
  cases started

private theorem start_dark (started : InNumber.start c = some state) : isSpace c = false := by
  simp only [isSpace, Bool.or_eq_false_iff, decide_eq_false_iff_not]
  exact ⟨⟨⟨start_other started rfl, start_other started rfl⟩, start_other started rfl⟩, start_other started rfl⟩

private theorem Key.length_lt (key : Key k s rest) : rest.length < s.length := by
  obtain ⟨raw, after, opened, _, _, colon⟩ := key
  have inside := opened.length_lt
  have outside := colon.length_lt
  rw [List.length_append, List.length_cons] at inside
  omega

private theorem name_length_pos (b : Bool) : 0 < (bytes (if b then "true" else "false")).length := by
  cases b <;> decide

/-- So does an item. -/
theorem Spells.length_lt (spelled : Spells nest item s rest) : rest.length < s.length := by
  induction spelled with
  | space _ _ ih => exact Nat.lt_succ_of_lt ih
  | null =>
    have some : 0 < (bytes "null").length := by decide
    rw [List.length_append]
    omega
  | @bool _ b =>
    have some := name_length_pos b
    rw [List.length_append]
    omega
  | number numeral =>
    obtain ⟨c, digits, _, _, rfl, _⟩ := numeral
    rw [List.length_append, List.length_cons]
    omega
  | string _ =>
    rw [List.length_cons, List.length_append, List.length_cons]
    omega
  | emptyObject close => exact Nat.lt_succ_of_lt close.length_lt
  | object _ ih => exact Nat.lt_succ_of_lt ih
  | emptyArray close => exact Nat.lt_succ_of_lt close.length_lt
  | array _ ih => exact Nat.lt_succ_of_lt ih
  | lastMember key _ close value => exact (close.length_lt.trans value).trans key.length_lt
  | member key _ comma _ value more => exact ((more.trans comma.length_lt).trans value).trans key.length_lt
  | lastElement _ close value => exact close.length_lt.trans value
  | element _ comma _ value more => exact (more.trans comma.length_lt).trans value

private theorem expect_self (dark : isSpace c = false) (other : c ≠ d) : expect d (c :: s) = none := by
  rw [expect, skipSpace_self dark]
  exact if_neg other

private theorem expect_space (blank : isSpace c = true) : expect d (c :: s) = expect d s := by
  have skipped : skipSpace (c :: s) = skipSpace s := List.dropWhile_cons_of_pos blank
  rw [expect, expect, skipped]

private theorem name_front (b : Bool) :
    ∃ c t, bytes (if b then "true" else "false") = c :: t ∧ c = if b then 't'.toUInt8 else 'f'.toUInt8 := by
  cases b
  · exact ⟨_, bytes "alse", by decide, rfl⟩
  · exact ⟨_, bytes "rue", by decide, rfl⟩

private theorem expect_bracket (spelled : Spells nest (.value v) s rest) : expect ']'.toUInt8 s = none := by
  generalize same : Item.value v = item at spelled
  induction spelled generalizing v with
  | space blank _ ih => rw [expect_space blank, ih rfl]
  | null => exact expect_self rfl (by decide)
  | @bool _ b =>
    obtain ⟨c, t, front, first⟩ := name_front b
    rw [front, List.cons_append, first]
    cases b <;> exact expect_self rfl (by decide)
  | number numeral =>
    obtain ⟨c, digits, _, _, rfl, started, _⟩ := numeral
    exact expect_self (start_dark started) (start_other started rfl)
  | string _ => exact expect_self rfl (by decide)
  | emptyObject _ => exact expect_self rfl (by decide)
  | object _ _ => exact expect_self rfl (by decide)
  | emptyArray _ => exact expect_self rfl (by decide)
  | array _ _ => exact expect_self rfl (by decide)
  | lastMember _ _ _ _ => cases same
  | member _ _ _ _ _ _ => cases same
  | lastElement _ _ _ => cases same
  | element _ _ _ _ _ => cases same

private theorem elements_open (spelled : Spells nest (.elements vs) s rest) : expect ']'.toUInt8 s = none := by
  cases spelled with
  | lastElement value _ => exact expect_bracket value
  | element value _ _ => exact expect_bracket value

private theorem key_open (key : Key k s rest) : expect '\x7d'.toUInt8 s = none := by
  obtain ⟨raw, after, opened, _⟩ := key
  exact expect_other ((expect_eq_some rfl).mpr opened) (by decide)

/-- No member begins with a closing brace. -/
theorem members_open (spelled : Spells nest (.members ms) s rest) : expect '\x7d'.toUInt8 s = none := by
  cases spelled with
  | lastMember key _ _ => exact key_open key
  | member key _ _ _ => exact key_open key

private theorem scanValue_space (blank : isSpace c = true) :
    scanValue fuel nest (c :: s) = scanValue fuel nest s := by
  cases fuel with
  | zero => simp [scanValue]
  | succ fuel =>
    have skipped : skipSpace (c :: s) = skipSpace s := List.dropWhile_cons_of_pos blank
    rw [scanValue, scanValue, skipped]

private theorem scanValue_scalar (dark : isSpace c = false) (object : c ≠ '\x7b'.toUInt8) (array : c ≠ '['.toUInt8)
    (string : c ≠ quote) : scanValue (fuel + 1) nest (c :: s) = scanScalar (c :: s) := by
  rw [scanValue, skipSpace_self dark]
  simp only [if_neg object, if_neg array, if_neg string]

private theorem scanName_front : scanName name value (name ++ rest) = some (value, rest) := by
  rw [scanName, if_pos (List.prefix_append name rest), List.drop_left]

private theorem scanMembers_front (key : Key k s t) :
    ∃ raw inside after, k = unquote raw ∧ expect quote s = some inside ∧
      scanString .plain inside = some (raw, after) ∧ expect ':'.toUInt8 after = some t := by
  obtain ⟨raw, after, opened, quoted, rfl, colon⟩ := key
  exact ⟨raw, _, after, rfl, (expect_eq_some rfl).mpr opened, scanString_eq_some.mpr ⟨rfl, quoted⟩,
    (expect_eq_some rfl).mpr colon⟩

private theorem scanValue_name (front : name = c :: t) (dark : isSpace c = false) (object : c ≠ '\x7b'.toUInt8)
    (array : c ≠ '['.toUInt8) (string : c ≠ quote) (scalar : ∀ s, scanScalar (c :: s) = scanName name v (c :: s)) :
    scanValue (fuel + 1) nest (name ++ rest) = some (v, rest) := by
  subst front
  rw [List.cons_append, scanValue_scalar dark object array string, scalar, ← List.cons_append]
  exact scanName_front

private theorem scanScalar_number (started : InNumber.start c = some state)
    (scanned : scanNumber state s = some (digits, rest)) : scanScalar (c :: s) = some (.number (c :: digits), rest) := by
  have other (d : UInt8) (none : InNumber.start d = none) : c ≠ d := start_other started none
  simp only [scanScalar]
  rw [if_neg (other _ rfl), if_neg (other _ rfl), if_neg (other _ rfl), started]
  simp [scanned]

private theorem brace_ends (close : Begins '\x7d'.toUInt8 s rest) : Ends s :=
  close.ends fun state => by cases state <;> rfl

private theorem bracket_ends (close : Begins ']'.toUInt8 s rest) : Ends s :=
  close.ends fun state => by cases state <;> rfl

private theorem comma_ends (comma : Begins ','.toUInt8 s rest) : Ends s :=
  comma.ends fun state => by cases state <;> rfl

private theorem fuel_succ (enough : Item.fuel item s ≤ fuel) : ∃ left, fuel = left + 1 := by
  have positive : 0 < item.fuel s := by cases item <;> exact Nat.succ_pos _
  exact Nat.exists_eq_succ_of_ne_zero (positive.trans_le enough).ne'

/-- The scanner finds what is spelled; induction on the spelling. -/
theorem Spells.scan (spelled : Spells nest item s rest) (followed : item.Followed rest)
    (enough : item.fuel s ≤ fuel) :
    item.scan fuel nest s rest := by
  induction spelled generalizing fuel with
  | @space c nest v s rest blank _ ih =>
    have smaller : (Item.value v).fuel s ≤ fuel := by
      simp only [Item.fuel, List.length_cons] at enough ⊢
      omega
    simp only [Item.scan, scanValue_space blank]
    exact ih followed smaller
  | null =>
    obtain ⟨fuel, rfl⟩ := fuel_succ enough
    have front : bytes "null" = 'n'.toUInt8 :: bytes "ull" := by decide
    exact scanValue_name front rfl (by decide) (by decide) (by decide) fun _ => rfl
  | @bool _ b rest =>
    obtain ⟨fuel, rfl⟩ := fuel_succ enough
    cases b
    · have front : bytes "false" = 'f'.toUInt8 :: bytes "alse" := by decide
      exact scanValue_name front rfl (by decide) (by decide) (by decide) fun _ => rfl
    · have front : bytes "true" = 't'.toUInt8 :: bytes "rue" := by decide
      exact scanValue_name front rfl (by decide) (by decide) (by decide) fun _ => rfl
  | number numeral =>
    obtain ⟨fuel, rfl⟩ := fuel_succ enough
    obtain ⟨c, digits, state, final, rfl, started, steps, complete⟩ := numeral
    have scanned := scanNumber_complete steps complete followed
    have other (d : UInt8) (none : InNumber.start d = none) : c ≠ d := start_other started none
    exact (scanValue_scalar (start_dark started) (other _ rfl) (other _ rfl) (other _ rfl)).trans
      (scanScalar_number started scanned)
  | @string raw _ rest quoted =>
    obtain ⟨fuel, rfl⟩ := fuel_succ enough
    have inner : scanString .plain (raw ++ quote :: rest) = some (raw, rest) := scanString_eq_some.mpr ⟨rfl, quoted⟩
    have other : quote ≠ '\x7b'.toUInt8 ∧ quote ≠ '['.toUInt8 := by decide
    simp only [Item.scan]
    rw [scanValue, skipSpace_self rfl]
    simp [other, inner]
  | emptyObject close =>
    obtain ⟨fuel, rfl⟩ := fuel_succ enough
    have closed := (expect_eq_some rfl).mpr close
    simp only [Item.scan]
    rw [scanValue, skipSpace_self rfl]
    simp [scanBody, closed]
  | @object nest ms s rest members ih =>
    obtain ⟨fuel, rfl⟩ := fuel_succ enough
    have smaller : (Item.members ms).fuel s ≤ fuel := by
      simp only [Item.fuel, List.length_cons] at enough ⊢
      omega
    have inner : scanMembers fuel nest s = some (ms, rest) := ih trivial smaller
    have opened := members_open members
    simp only [Item.scan]
    rw [scanValue, skipSpace_self rfl]
    simp [scanBody, opened, inner]
  | emptyArray close =>
    obtain ⟨fuel, rfl⟩ := fuel_succ enough
    have closed := (expect_eq_some rfl).mpr close
    have other : '['.toUInt8 ≠ '\x7b'.toUInt8 := by decide
    simp only [Item.scan]
    rw [scanValue, skipSpace_self rfl]
    simp [scanBody, closed, other]
  | @array nest vs s rest elements ih =>
    obtain ⟨fuel, rfl⟩ := fuel_succ enough
    have smaller : (Item.elements vs).fuel s ≤ fuel := by
      simp only [Item.fuel, List.length_cons] at enough ⊢
      omega
    have inner : scanElements fuel nest s = some (vs, rest) := ih trivial smaller
    have opened := elements_open elements
    have other : '['.toUInt8 ≠ '\x7b'.toUInt8 := by decide
    simp only [Item.scan]
    rw [scanValue, skipSpace_self rfl]
    simp [scanBody, opened, inner, other]
  | @lastMember k s t nest v u rest key _ close ih =>
    obtain ⟨fuel, rfl⟩ := fuel_succ enough
    have shorter := key.length_lt
    have smaller : (Item.value v).fuel t ≤ fuel := by
      simp only [Item.fuel] at enough ⊢
      omega
    have value : scanValue fuel nest t = some (v, u) := ih (brace_ends close) smaller
    obtain ⟨raw, inside, after, rfl, opened, scanned, colon⟩ := scanMembers_front key
    have closed := (expect_eq_some rfl).mpr close
    simp [Item.scan, scanMembers, opened, scanned, colon, value, closed]
  | @member k s t nest v u w ms rest key spelled comma others ih more =>
    obtain ⟨fuel, rfl⟩ := fuel_succ enough
    have shorter := key.length_lt
    have shorter' := spelled.length_lt
    have shorter'' := comma.length_lt
    have smaller : (Item.value v).fuel t ≤ fuel := by
      simp only [Item.fuel] at enough ⊢
      omega
    have least : (Item.members ms).fuel w ≤ fuel := by
      simp only [Item.fuel] at enough ⊢
      omega
    have value : scanValue fuel nest t = some (v, u) := ih (comma_ends comma) smaller
    have inner : scanMembers fuel nest w = some (ms, rest) := more trivial least
    obtain ⟨raw, inside, after, rfl, opened, scanned, colon⟩ := scanMembers_front key
    have next := (expect_eq_some rfl).mpr comma
    have unclosed : expect '\x7d'.toUInt8 u = none := expect_other next (by decide)
    simp [Item.scan, scanMembers, opened, scanned, colon, value, next, unclosed, inner]
  | @lastElement nest v s t rest spelled close ih =>
    obtain ⟨fuel, rfl⟩ := fuel_succ enough
    have smaller : (Item.value v).fuel s ≤ fuel := by
      simp only [Item.fuel] at enough ⊢
      omega
    have value : scanValue fuel nest s = some (v, t) := ih (bracket_ends close) smaller
    have closed := (expect_eq_some rfl).mpr close
    simp [Item.scan, scanElements, value, closed]
  | @element nest v s t u vs rest spelled comma others ih more =>
    obtain ⟨fuel, rfl⟩ := fuel_succ enough
    have shorter := spelled.length_lt
    have shorter' := comma.length_lt
    have smaller : (Item.value v).fuel s ≤ fuel := by
      simp only [Item.fuel] at enough ⊢
      omega
    have least : (Item.elements vs).fuel u ≤ fuel := by
      simp only [Item.fuel] at enough ⊢
      omega
    have value : scanValue fuel nest s = some (v, t) := ih (comma_ends comma) smaller
    have inner : scanElements fuel nest u = some (vs, rest) := more trivial least
    have next := (expect_eq_some rfl).mpr comma
    have unclosed : expect ']'.toUInt8 t = none := expect_other next (by decide)
    simp [Item.scan, scanElements, value, next, unclosed, inner]

/-! ## Whole texts -/

/-- The text is one value, with nothing but white space around it. -/
def TextOf (s : Bytes) (v : Value) : Prop := ∃ rest, Spells maxNestingDepth (.value v) s rest ∧ Blank rest

/-- The input has ended when there is only white space. -/
theorem readValue_eof : readValue s = .error .eof ↔ Blank s := by
  rw [← skipSpace_eq_nil, readValue]
  split
  · simp [*]
  · split <;> simp [*]

theorem readValue_eq_ok : readValue s = .ok (v, rest) ↔ scanValue (2 * s.length + 1) maxNestingDepth s = some (v, rest) := by
  rw [readValue]
  split
  · rename_i none
    simp [scanValue, none]
  · split <;> simp [*]

/-- A value and then only white space is a text of the grammar. -/
theorem readValue_blank : (∃ rest, readValue s = .ok (v, rest) ∧ Blank rest) ↔ TextOf s v := by
  constructor
  · rintro ⟨rest, found, blank⟩
    exact ⟨rest, (scan_sound _).value (readValue_eq_ok.mp found), blank⟩
  · rintro ⟨rest, spelled, blank⟩
    have found : scanValue (2 * s.length + 1) maxNestingDepth s = some (v, rest) := spelled.scan (ends_blank blank) le_rfl
    exact ⟨rest, readValue_eq_ok.mpr found, blank⟩

/-- **The scanner accepts the texts of the grammar, with the values it gives them.** -/
theorem parse_eq_some : parse s = some v ↔ TextOf s v := by
  rw [← readValue_blank, parse]
  split
  · simp [*]
  · rename_i value rest found
    constructor
    · intro accepted
      split at accepted
      · rename_i blank
        cases accepted
        exact ⟨rest, found, skipSpace_eq_nil.mp blank⟩
      · cases accepted
    · rintro ⟨rest, same, blank⟩
      rw [found] at same
      cases same
      exact if_pos (skipSpace_eq_nil.mpr blank)

end Library.GoJson
