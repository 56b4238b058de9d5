import HermesHey.Library.JsonWritable

/-! JSON text as encoders write it, whatever they escape and however they space it.
A style of writing is read back: its texts are documents of a grammar, and the
scanner finds in a document the value it stands for. -/
namespace Library.Json
variable {hook : Members → Except ScanError Value}

/-! ## The grammar -/

/-- One character of a string. -/
inductive Spelled (c : Char) : List Char → Prop where
  | plain (printable : 0x20 ≤ c.toNat) (quoted : c ≠ '"') (slashed : c ≠ '\\') : Spelled c [c]
  | short (meaning : simpleEscape e = some c) : Spelled c ['\\', e]
  | unit (value : hexUnit (ch h₁) (ch h₂) (ch h₃) (ch h₄) = some c.toNat) : Spelled c ['\\', 'u', h₁, h₂, h₃, h₄]

/-- What stands between the quotes of a string. -/
inductive Inside : Text → Text → Prop where
  | nil : Inside [] []
  | cons (spelled : Spelled c e) (more : Inside s t) : Inside (.scalar c :: s) (e.map ch ++ t)

def Blank (gap : Text) : Prop := ∀ point ∈ gap, isSpace point = true

inductive Part where
  | value (value : Value)
  /-- The elements of an array, with its closing bracket. -/
  | elements (elements : List Value)
  /-- The members of an object, with its closing brace. -/
  | members (members : Members)

/-- The text of a part. White space may follow a comma or a colon. -/
inductive Document : Part → Text → Prop where
  | null : Document (.value .null) (text "null")
  | bool : Document (.value (.bool b)) (text (if b then "true" else "false"))
  | int : Document (.value (.int n)) (decimalInt n)
  | str (inside : Inside s t) : Document (.value (.str s)) (ch '"' :: (t ++ [ch '"']))
  | array (elements : Document (.elements vs) t) : Document (.value (.arr vs)) (ch '[' :: t)
  | object (members : Document (.members ms) t) : Document (.value (.obj ms)) (ch '\x7b' :: t)
  | noElements : Document (.elements []) [ch ']']
  | lastElement (value : Document (.value v) t) : Document (.elements [v]) (t ++ [ch ']'])
  | element (value : Document (.value v) t) (blank : Blank gap) (more : Document (.elements (w :: vs)) u) :
      Document (.elements (v :: w :: vs)) (t ++ ch ',' :: (gap ++ u))
  | noMembers : Document (.members []) [ch '\x7d']
  | lastMember (key : Inside k s) (blank : Blank gap) (value : Document (.value v) t) :
      Document (.members [(k, v)]) (ch '"' :: (s ++ ch '"' :: ch ':' :: (gap ++ (t ++ [ch '\x7d']))))
  | member (key : Inside k s) (blank : Blank gap) (value : Document (.value v) t) (spaced : Blank space)
      (more : Document (.members (m :: ms)) u) :
      Document (.members ((k, v) :: m :: ms)) (ch '"' :: (s ++ ch '"' :: ch ':' :: (gap ++ (t ++ ch ',' :: (space ++ u)))))

/-! ## Styles of writing -/

/-- What an encoder does to a character, and what it puts after a comma and after a colon. -/
structure Style where
  escape : Char → List Char
  gap : Text
  spelled : ∀ c, Spelled c (escape c)
  blank : Blank gap

namespace Style

def point (style : Style) : CodePoint → Text
  | .scalar c => (style.escape c).map ch
  | .surrogate offset => [.surrogate offset]

def quote (style : Style) (s : Text) : Text := ch '"' :: (s.flatMap style.point ++ [ch '"'])

mutual
/-- The text that the encoder writes. -/
def write (style : Style) : Value → Text
  | .null => text "null"
  | .bool b => text (if b then "true" else "false")
  | .int n => decimalInt n
  | .float literal => literal
  | .str s => style.quote s
  | .arr elements => ch '[' :: style.writeElements elements
  | .obj members => ch '\x7b' :: style.writeMembers members

def writeElements (style : Style) : List Value → Text
  | [] => [ch ']']
  | [last] => style.write last ++ [ch ']']
  | first :: second :: rest => style.write first ++ ch ',' :: (style.gap ++ style.writeElements (second :: rest))

def writeMembers (style : Style) : Members → Text
  | [] => [ch '\x7d']
  | [(key, last)] => style.quote key ++ ch ':' :: (style.gap ++ (style.write last ++ [ch '\x7d']))
  | (key, first) :: second :: rest =>
    style.quote key ++ ch ':' :: (style.gap ++ (style.write first ++ ch ',' :: (style.gap ++ style.writeMembers (second :: rest))))
end

end Style

/-- Whatever the style spells a string with can stand inside quotes. -/
theorem inside_points (style : Style) (scalars : Scalars s) : Inside s (s.flatMap style.point) := by
  induction s with
  | nil => exact .nil
  | cons point rest ih =>
    obtain ⟨⟨c, rfl⟩, others⟩ := scalars_cons.mp scalars
    exact .cons (style.spelled c) (ih others)

mutual
/-- What a style writes is a document. -/
theorem Style.document (style : Style) : ∀ v : Value, Plain v → Writable v → Document (.value v) (style.write v)
  | .null, _, _ => .null
  | .bool _, _, _ => .bool
  | .int _, _, _ => .int
  | .float _, plain, _ => plain.elim
  | .str _, _, writable => .str (inside_points style writable)
  | .arr elements, plain, writable => .array (style.document_elements elements plain writable)
  | .obj members, plain, writable => .object (style.document_members members plain.2 writable)

/-- The elements are a part of a document, in every style. -/
theorem Style.document_elements (style : Style) : ∀ vs : List Value, PlainElements vs → WritableElements vs →
    Document (.elements vs) (style.writeElements vs)
  | [], _, _ => .noElements
  | [last], plain, writable => .lastElement (style.document last plain.1 writable.1)
  | first :: second :: rest, plain, writable =>
    .element (style.document first plain.1 writable.1) style.blank
      (style.document_elements (second :: rest) plain.2 writable.2)

/-- And so are the members. -/
theorem Style.document_members (style : Style) : ∀ ms : Members, PlainMembers ms → WritableMembers ms →
    Document (.members ms) (style.writeMembers ms)
  | [], _, _ => .noMembers
  | [(key, last)], plain, writable => by
    have value := style.document last plain.1 writable.2.1
    have written := Document.lastMember (inside_points style writable.1) style.blank value
    simpa [Style.writeMembers, Style.quote] using written
  | (key, first) :: second :: rest, plain, writable => by
    have value := style.document first plain.1 writable.2.1
    have more := style.document_members (second :: rest) plain.2 writable.2.2
    have written := Document.member (inside_points style writable.1) style.blank value style.blank more
    simpa [Style.writeMembers, Style.quote] using written
end

/-! ## Strings -/

private theorem scanPieces_spelled (spelled : Spelled c e) : ∃ piece,
    (∀ pieces, joinPieces (piece :: pieces) = .scalar c :: joinPieces pieces) ∧
      ∀ rest, scanPieces (e.map ch ++ rest) = (scanPieces rest).map fun found => (piece :: found.1, found.2) := by
  cases spelled with
  | plain printable quoted slashed =>
    refine ⟨.plain (.scalar c), fun pieces => by rw [joinPieces], fun rest => ?_⟩
    exact scanPieces_plain printable (by simpa using quoted) (by simpa using slashed)
  | short meaning => exact ⟨.plain (.scalar c), fun pieces => by rw [joinPieces], fun rest => scanPieces_short meaning⟩
  | unit value =>
    refine ⟨.unit c.toNat, fun pieces => ?_, fun rest => ?_⟩
    · have scalar := c.valid
      have unit : CodePoint.ofUnit c.toNat = .scalar c := by
        have low : ¬ (0xD800 ≤ c.toNat ∧ c.toNat ≤ 0xDFFF) := by
          rcases scalar with low | high
          · have : c.toNat < 0xD800 := low
            omega
          · have : 0xDFFF < c.toNat := high.1
            omega
        rw [CodePoint.ofUnit, dif_neg low, Char.ofNat_toNat]
      have high : isHigh c.toNat = false := by
        simp only [isHigh, decide_eq_false_iff_not]
        rcases scalar with low | high
        · have : c.toNat < 0xD800 := low
          omega
        · have : 0xDFFF < c.toNat := high.1
          omega
      rw [joinPieces.eq_def]
      split <;> simp_all
    · simp only [List.map_cons, List.map_nil, List.cons_append, List.nil_append, scanPieces, value]
      cases scanPieces rest <;> rfl

/-- A string is read up to its closing quote. -/
theorem Inside.scan (inside : Inside s t) (rest : Text) : scanString (t ++ ch '"' :: rest) = .ok (s, rest) := by
  suffices pieces : ∃ pieces, scanPieces (t ++ ch '"' :: rest) = some (pieces, rest) ∧ joinPieces pieces = s by
    obtain ⟨pieces, scanned, joined⟩ := pieces
    rw [scanString, scanned, ← joined]
  induction inside with
  | nil => exact ⟨[], by simp [scanPieces], rfl⟩
  | cons spelled _ ih =>
    obtain ⟨pieces, scanned, joined⟩ := ih
    obtain ⟨piece, alone, front⟩ := scanPieces_spelled spelled
    refine ⟨piece :: pieces, ?_, by rw [alone, joined]⟩
    rw [List.append_assoc, front, scanned, Option.map_some]

/-! ## The scanner -/

theorem skipSpace_blank (blank : Blank gap) : skipSpace (gap ++ t) = skipSpace t := List.dropWhile_append_of_pos blank

private theorem value_head (document : Document (.value v) t) :
    ∃ point more, t = point :: more ∧ isSpace point = false ∧ point ≠ ch ']' ∧ point ≠ ch '\ufeff' := by
  cases document with
  | null => exact ⟨ch 'n', text "ull", by decide, by decide, by decide, by decide⟩
  | @bool b =>
    cases b with
    | true => exact ⟨ch 't', text "rue", by decide, by decide, by decide, by decide⟩
    | false => exact ⟨ch 'f', text "alse", by decide, by decide, by decide, by decide⟩
  | @int n =>
    cases n with
    | ofNat n =>
      obtain ⟨digit, tail, front, isDigit⟩ := decimal_head_digit n
      refine ⟨ch digit, tail, front, ?_, ?_, ?_⟩
      · simp only [isSpace, Bool.or_eq_false_iff, decide_eq_false_iff_not]
        refine ⟨⟨⟨?_, ?_⟩, ?_⟩, ?_⟩ <;> (rintro rfl; revert isDigit; decide)
      all_goals
        rintro same
        cases same
        revert isDigit
        decide
    | negSucc n => exact ⟨ch '-', decimal (n + 1), rfl, by decide, by decide, by decide⟩
  | str inside => exact ⟨_, _, rfl, by decide, by decide, by decide⟩
  | array elements => exact ⟨_, _, rfl, by decide, by decide, by decide⟩
  | object members => exact ⟨_, _, rfl, by decide, by decide, by decide⟩

private theorem skipSpace_value (blank : Blank gap) (document : Document (.value v) t) :
    skipSpace (gap ++ (t ++ rest)) = t ++ rest := by
  obtain ⟨point, more, rfl, solid, _⟩ := value_head document
  rw [skipSpace_blank blank, List.cons_append, skipSpace_solid solid]

/-- The levels of recursion that the scanner needs. -/
def Part.fuel : Part → Text → ℕ
  | .value _, t => 2 * t.length + 1
  | _, t => 2 * t.length + 2

/-- The hook keeps every object inside. -/
def Part.Kept (hook : Members → Except ScanError Value) : Part → Prop
  | .value v => Json.Kept hook v
  | .elements vs => KeptElements hook vs
  | .members ms => KeptMembers hook ms

/-- The scanner finds the part at the front of a text, and what follows it. -/
def Part.scan (hook : Members → Except ScanError Value) (depth : ℕ) (rest : Text) : Part → Text → Prop
  | .value v, t => scanValue hook depth (t ++ rest) = .ok (v, rest)
  | .elements vs, t => vs ≠ [] →
    ∀ collected, scanElements hook depth (t ++ rest) collected = .ok (.arr (collected ++ vs), rest)
  | .members ms, t => ms ≠ [] → ∀ inside, t = ch '"' :: inside →
    ∀ collected, hook (collected ++ ms) = .ok (.obj (collected ++ ms)) →
      scanMembers hook depth (inside ++ rest) collected = .ok (.obj (collected ++ ms), rest)

/-- A bare integer is followed by what cannot continue it. -/
def Part.Followed : Part → Text → Prop
  | .value (.int _), rest => Boundary rest
  | _, _ => True

private theorem followed_of_boundary (part : Part) (boundary : Boundary rest) : part.Followed rest := by
  unfold Part.Followed
  split
  · exact boundary
  · trivial

private theorem fuel_succ {part : Part} (enough : part.fuel t ≤ depth) : ∃ left, depth = left + 1 := by
  have positive : 0 < part.fuel t := by cases part <;> exact Nat.succ_pos _
  exact Nat.exists_eq_succ_of_ne_zero (positive.trans_le enough).ne'

private theorem members_head (document : Document (.members (m :: ms)) t) : ∃ inside, t = ch '"' :: inside := by
  cases document <;> exact ⟨_, rfl⟩

private theorem elements_head (document : Document (.elements (v :: vs)) t) :
    ∃ point more, t = point :: more ∧ isSpace point = false ∧ point ≠ ch ']' := by
  cases document with
  | lastElement value =>
    obtain ⟨point, more, rfl, solid, other, _⟩ := value_head value
    exact ⟨point, _, rfl, solid, other⟩
  | element value _ _ =>
    obtain ⟨point, more, rfl, solid, other, _⟩ := value_head value
    exact ⟨point, _, rfl, solid, other⟩

/-- **The scanner reads a document as the part it stands for.** Induction on the document; a
bracket pays for the two calls below it. -/
theorem Document.scan (document : Document part t) (kept : part.Kept hook) (enough : part.fuel t ≤ depth)
    (followed : part.Followed rest) : part.scan hook depth rest t := by
  induction document generalizing depth rest with
  | null =>
    obtain ⟨depth, rfl⟩ := fuel_succ enough
    have spelled : text "null" = ch 'n' :: ch 'u' :: ch 'l' :: ch 'l' :: [] := by decide
    simp only [Part.scan]
    rw [spelled, List.cons_append, scanValue_atom depth (by decide) (by decide) (by decide)]
    rfl
  | @bool b =>
    obtain ⟨depth, rfl⟩ := fuel_succ enough
    simp only [Part.scan]
    cases b with
    | true =>
      have spelled : text (if true = true then "true" else "false") = ch 't' :: ch 'r' :: ch 'u' :: ch 'e' :: [] := by decide
      rw [spelled, List.cons_append, scanValue_atom depth (by decide) (by decide) (by decide)]
      rfl
    | false =>
      have spelled : text (if false = true then "true" else "false") =
          ch 'f' :: ch 'a' :: ch 'l' :: ch 's' :: ch 'e' :: [] := by decide
      rw [spelled, List.cons_append, scanValue_atom depth (by decide) (by decide) (by decide)]
      rfl
  | @int n =>
    obtain ⟨depth, rfl⟩ := fuel_succ enough
    have fits : n.natAbs < 10 ^ digitLimit := by simpa only [Part.Kept, Json.Kept] using kept
    have read := scanAtom_decimalInt followed fits
    obtain ⟨point, tail, front, quoted, opens, array⟩ := decimalInt_front n
    simp only [Part.scan]
    rw [front, List.cons_append] at read ⊢
    rw [scanValue_atom depth quoted opens array, read]
  | str inside =>
    obtain ⟨depth, rfl⟩ := fuel_succ enough
    have read := inside.scan rest
    simp only [Part.scan, List.cons_append, List.append_assoc, List.nil_append, scanValue, read]
    rfl
  | @array vs t elements ih =>
    obtain ⟨depth, rfl⟩ := fuel_succ enough
    simp only [Part.scan, List.cons_append]
    cases vs with
    | nil =>
      cases elements
      simp only [List.cons_append, List.nil_append, scanValue,
        skipSpace_solid (show isSpace (ch ']') = false by decide)]
    | cons first others =>
      have read : scanElements hook depth (t ++ rest) [] = .ok (.arr ([] ++ first :: others), rest) :=
        ih kept (by simp only [Part.fuel, List.length_cons] at enough ⊢; omega) trivial (by simp) []
      obtain ⟨point, more, rfl, solid, opens⟩ := elements_head elements
      rw [List.cons_append] at read ⊢
      rw [scanValue, skipSpace_solid solid]
      split
      · simp_all
      · exact read
  | @object ms t members ih =>
    obtain ⟨depth, rfl⟩ := fuel_succ enough
    have inside : hook ms = .ok (.obj ms) ∧ KeptMembers hook ms := kept
    simp only [Part.scan, List.cons_append]
    cases ms with
    | nil =>
      cases members
      simp only [List.cons_append, List.nil_append, scanValue,
        skipSpace_solid (show isSpace (ch '\x7d') = false by decide), inside.1]
      rfl
    | cons first others =>
      obtain ⟨tail, rfl⟩ := members_head members
      have read : scanMembers hook depth (tail ++ rest) [] = .ok (.obj ([] ++ first :: others), rest) :=
        ih inside.2 (by simp only [Part.fuel, List.length_cons] at enough ⊢; omega) trivial (by simp) tail rfl [] inside.1
      rw [List.cons_append, scanValue, skipSpace_solid (show isSpace (ch '"') = false by decide)]
      exact read
  | noElements => exact fun more => absurd rfl more
  | @lastElement v t value ih =>
    intro _ collected
    obtain ⟨depth, rfl⟩ := fuel_succ enough
    simp only [Part.fuel, List.length_append, List.length_singleton] at enough
    have read : scanValue hook depth (t ++ ch ']' :: rest) = .ok (v, ch ']' :: rest) :=
      ih kept.1 (by simp only [Part.fuel]; omega) (followed_of_boundary _ (by simp))
    simp only [List.append_assoc, List.cons_append, List.nil_append, scanElements, read, bind, Except.bind,
      skipSpace_solid (show isSpace (ch ']') = false by decide)]
    rfl
  | @element v t gap w vs u value blank more ih later =>
    intro _ collected
    obtain ⟨depth, rfl⟩ := fuel_succ enough
    simp only [Part.fuel, List.length_append, List.length_cons] at enough
    have read : scanValue hook depth (t ++ ch ',' :: (gap ++ (u ++ rest))) = .ok (v, ch ',' :: (gap ++ (u ++ rest))) :=
      ih kept.1 (by simp only [Part.fuel]; omega) (followed_of_boundary _ (by simp))
    have others : scanElements hook depth (u ++ rest) (collected ++ [v]) =
        .ok (.arr (collected ++ [v] ++ w :: vs), rest) :=
      later kept.2 (by simp only [Part.fuel]; omega) trivial (by simp) (collected ++ [v])
    obtain ⟨point, tail, rfl, solid, _⟩ := elements_head more
    have spaced : skipSpace (gap ++ (point :: tail ++ rest)) = point :: tail ++ rest := by
      rw [skipSpace_blank blank, List.cons_append, skipSpace_solid solid]
    simp only [List.append_assoc, List.cons_append] at read spaced others ⊢
    simp only [scanElements, read, bind, Except.bind, skipSpace_solid (show isSpace (ch ',') = false by decide), spaced,
      others]
    simp
  | noMembers => exact fun more => absurd rfl more
  | @lastMember k s gap v t key blank value ih =>
    intro _ inside front collected whole
    obtain ⟨depth, rfl⟩ := fuel_succ enough
    cases front
    simp only [Part.fuel, List.length_append, List.length_cons, List.length_nil] at enough
    have name := key.scan (ch ':' :: (gap ++ (t ++ ch '\x7d' :: rest)))
    have read : scanValue hook depth (t ++ ch '\x7d' :: rest) = .ok (v, ch '\x7d' :: rest) :=
      ih kept.1 (by simp only [Part.fuel]; omega) (followed_of_boundary _ (by simp))
    have spaced : skipSpace (gap ++ (t ++ ch '\x7d' :: rest)) = t ++ ch '\x7d' :: rest := skipSpace_value blank value
    simp only [List.append_assoc, List.cons_append, List.nil_append, scanMembers, name, bind, Except.bind,
      skipSpace_solid (show isSpace (ch ':') = false by decide), spaced, read,
      skipSpace_solid (show isSpace (ch '\x7d') = false by decide), whole]
    rfl
  | @member k s gap v t space m ms u key blank value spaced more ih later =>
    intro _ inside front collected whole
    obtain ⟨depth, rfl⟩ := fuel_succ enough
    cases front
    simp only [Part.fuel, List.length_append, List.length_cons] at enough
    obtain ⟨after, rfl⟩ := members_head more
    have name := key.scan (ch ':' :: (gap ++ (t ++ ch ',' :: (space ++ (ch '"' :: (after ++ rest))))))
    have read : scanValue hook depth (t ++ ch ',' :: (space ++ ch '"' :: (after ++ rest))) =
        .ok (v, ch ',' :: (space ++ ch '"' :: (after ++ rest))) :=
      ih kept.1 (by simp only [Part.fuel]; omega) (followed_of_boundary _ (by simp))
    have colon : skipSpace (gap ++ (t ++ ch ',' :: (space ++ ch '"' :: (after ++ rest)))) =
        t ++ ch ',' :: (space ++ ch '"' :: (after ++ rest)) := skipSpace_value blank value
    have comma : skipSpace (space ++ ch '"' :: (after ++ rest)) = ch '"' :: (after ++ rest) := by
      rw [skipSpace_blank spaced, skipSpace_solid (show isSpace (ch '"') = false by decide)]
    have others : scanMembers hook depth (after ++ rest) (collected ++ [(k, v)]) =
        .ok (.obj (collected ++ [(k, v)] ++ m :: ms), rest) :=
      later kept.2 (by simp only [Part.fuel, List.length_cons] at enough ⊢; omega) trivial (by simp) after rfl
        (collected ++ [(k, v)]) (by simpa using whole)
    simp only [List.append_assoc, List.cons_append, scanMembers, name, bind, Except.bind,
      skipSpace_solid (show isSpace (ch ':') = false by decide), colon, read,
      skipSpace_solid (show isSpace (ch ',') = false by decide), comma]
    simpa using others

/-- Loading a document, and white space after it, gives the value that it stands for. -/
theorem Document.loads (document : Document (.value v) t) (kept : Json.Kept hook v) (blank : Blank gap)
    (followed : Part.Followed (.value v) gap) : loads hook (t ++ gap) = .ok v := by
  have read : scanValue hook (2 * (t ++ gap).length + 2) (t ++ gap) = .ok (v, gap) :=
    Document.scan document kept (by simp only [Part.fuel, List.length_append]; omega) followed
  have none : Blank [] := by simp [Blank]
  have trimmed : skipSpace ([] ++ (t ++ gap)) = t ++ gap := skipSpace_value none document
  rw [List.nil_append] at trimmed
  have ended : skipSpace gap = [] := by
    rw [skipSpace, List.dropWhile_eq_nil_iff]
    exact blank
  obtain ⟨point, tail, front, _, _, unmarked⟩ := value_head document
  rw [loads.eq_def]
  split
  · rename_i rest marked
    rw [front, List.cons_append] at marked
    exact absurd (List.cons.inj marked).1 unmarked
  · rw [trimmed, read]
    simp [bind, Except.bind, ended, pure, Except.pure]

/-! ## The style of `dumps` -/

private theorem hexUnit_control : ∀ n < 0x20,
    hexUnit (ch '0') (ch '0') (ch (hexDigit (n / 16))) (ch (hexDigit (n % 16))) = some n := by decide

private theorem escape_spelled (c : Char) : ∃ e : List Char, escape (.scalar c) = e.map ch ∧ Spelled c e := by
  by_cases short : c = '"' ∨ c = '\\' ∨ c = '\n' ∨ c = '\r' ∨ c = '\t'
  · rcases short with rfl | rfl | rfl | rfl | rfl
    · exact ⟨['\\', '"'], rfl, .short rfl⟩
    · exact ⟨['\\', '\\'], rfl, .short rfl⟩
    · exact ⟨['\\', 'n'], rfl, .short rfl⟩
    · exact ⟨['\\', 'r'], rfl, .short rfl⟩
    · exact ⟨['\\', 't'], rfl, .short rfl⟩
  obtain ⟨quoted, slashed, _⟩ := by simpa only [not_or] using short
  by_cases feed : c.toNat = 0x0C
  · obtain rfl : c = '\x0c' := Char.toNat_inj.mp feed
    exact ⟨['\\', 'f'], rfl, .short rfl⟩
  by_cases back : c.toNat = 0x08
  · obtain rfl : c = '\x08' := Char.toNat_inj.mp back
    exact ⟨['\\', 'b'], rfl, .short rfl⟩
  by_cases control : c.toNat < 0x20
  · refine ⟨['\\', 'u', '0', '0', hexDigit (c.toNat / 16), hexDigit (c.toNat % 16)], ?_, .unit (hexUnit_control _ control)⟩
    simp_all [escape]
  · refine ⟨[c], ?_, .plain (by omega) quoted slashed⟩
    simp_all [escape]

private theorem scalar_map (chars : List Char) : (chars.map ch).filterMap CodePoint.scalar? = chars := by
  simp [List.filterMap_map, Function.comp_def, CodePoint.scalar?]

/-- `dumps(value, ensure_ascii=False)`, with its own space after commas and colons or another one -/
def dumpsStyle (gap : Text) (blank : Blank gap) : Style where
  escape c := (escape (.scalar c)).filterMap CodePoint.scalar?
  gap := gap
  spelled c := by
    obtain ⟨e, same, spelled⟩ := escape_spelled c
    rwa [same, scalar_map]
  blank := blank

private theorem dumps_point (point : CodePoint) : (dumpsStyle gap blank).point point = escape point := by
  cases point with
  | surrogate offset => rfl
  | scalar c =>
    obtain ⟨e, same, _⟩ := escape_spelled c
    change ((escape (.scalar c)).filterMap CodePoint.scalar?).map ch = escape (.scalar c)
    rw [same, scalar_map]

/-- `json.dumps` quotes as `quote` does. -/
theorem dumps_quote (s : Text) : (dumpsStyle gap blank).quote s = quote s := by
  have points : (dumpsStyle gap blank).point = escape := funext dumps_point
  rw [Style.quote, points, quote, List.cons_append]

/-- The separators of `dumps` unless told otherwise. -/
def spaced : Style := dumpsStyle [ch ' '] (by simp [Blank, isSpace])

private theorem spaced_quote (s : Text) : spaced.quote s = quote s := dumps_quote s

private theorem spaced_gap (t : Text) : spaced.gap ++ t = ch ' ' :: t := rfl

mutual
/-- `render` writes in this style. -/
theorem write_spaced : ∀ v : Value, spaced.write v = render v
  | .null => rfl
  | .bool true => rfl
  | .bool false => rfl
  | .int _ => by rw [Style.write, render]
  | .float _ => by rw [Style.write, render]
  | .str s => by rw [Style.write, render, spaced_quote]
  | .arr elements => by rw [Style.write, render, write_elements]
  | .obj members => by rw [Style.write, render, write_members]

private theorem write_elements : ∀ vs : List Value, spaced.writeElements vs = renderElements vs
  | [] => rfl
  | [last] => by rw [Style.writeElements, renderElements, write_spaced last]
  | first :: second :: rest => by
    simp only [Style.writeElements, renderElements, write_spaced first, write_elements (second :: rest), spaced_gap]

private theorem write_members : ∀ ms : Members, spaced.writeMembers ms = renderMembers ms
  | [] => rfl
  | [(key, last)] => by simp only [Style.writeMembers, renderMembers, write_spaced last, spaced_quote, spaced_gap]
  | (key, first) :: second :: rest => by
    simp only [Style.writeMembers, renderMembers, write_spaced first, write_members (second :: rest), spaced_quote,
      spaced_gap]
end

/-! ## ASCII -/

def escapeUnit (unit : Nat) : Text :=
  [ch '\\', ch 'u', ch (hexDigit (unit / 4096)), ch (hexDigit (unit / 256 % 16)), ch (hexDigit (unit / 16 % 16)),
    ch (hexDigit (unit % 16))]

/-- One element of a quoted string, with `ensure_ascii` -/
def escapeAscii : CodePoint → Text
  | .scalar c =>
    if c = '"' ∨ c = '\\' ∨ c.toNat < 0x20 then escape (.scalar c)
    else if c.toNat < 0x7F then [.scalar c]
    else if c.toNat < 0x10000 then escapeUnit c.toNat
    else escapeUnit (0xD800 + (c.toNat - 0x10000) / 1024) ++ escapeUnit (0xDC00 + (c.toNat - 0x10000) % 1024)
  | .surrogate offset => escapeUnit (0xD800 + offset.val)

def quoteAscii (s : Text) : Text := ch '"' :: s.flatMap escapeAscii ++ [ch '"']

/-- Printable ASCII, without the quote and the backslash. -/
def Bare (c : Char) : Prop := 0x20 ≤ c.toNat ∧ c.toNat < 0x7F ∧ c ≠ '"' ∧ c ≠ '\\'

private theorem escape_bare (bare : Bare c) : escape (.scalar c) = [ch c] ∧ escapeAscii (.scalar c) = [ch c] := by
  obtain ⟨printable, ascii, quoted, slashed⟩ := bare
  constructor
  · have control : c ≠ '\n' ∧ c ≠ '\r' ∧ c ≠ '\t' ∧ c.toNat ≠ 0x0C ∧ c.toNat ≠ 0x08 ∧ ¬ c.toNat < 0x20 := by
      refine ⟨?_, ?_, ?_, by omega, by omega, by omega⟩ <;> rintro rfl <;> exact absurd printable (by decide)
    simp_all [escape]
  · rw [escapeAscii, if_neg (by simp [quoted, slashed, printable]), if_pos ascii]

/-- Bare characters are quoted as they are. -/
theorem quote_bare {chars : List Char} (bare : ∀ c ∈ chars, Bare c) :
    quote (chars.map ch) = ch '"' :: chars.map ch ++ [ch '"'] ∧ quoteAscii (chars.map ch) = quote (chars.map ch) := by
  have same : (chars.map ch).flatMap escape = chars.map ch ∧ (chars.map ch).flatMap escapeAscii = chars.map ch := by
    induction chars with
    | nil => exact ⟨rfl, rfl⟩
    | cons c rest ih =>
      obtain ⟨first, others⟩ := List.forall_mem_cons.mp bare
      obtain ⟨own, ascii⟩ := escape_bare first
      obtain ⟨more, moreAscii⟩ := ih others
      simp only [List.map_cons, List.flatMap_cons, own, ascii, more, moreAscii]
      exact ⟨rfl, rfl⟩
  rw [quote, quoteAscii, same.1, same.2]
  exact ⟨rfl, rfl⟩

end Library.Json
