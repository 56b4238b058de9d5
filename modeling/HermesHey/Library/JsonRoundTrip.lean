import HermesHey.Library.Json

/-! Scanning inverts rendering: the text written for a value is read back as
that value, for every value whose objects the pairs hook leaves alone. -/
namespace Library.Json

variable {hook : Members → Except ScanError Value}

/-! ## Strings -/

/-- How a scanner meets one written element again: a control character without
a short escape comes back as a code unit, everything else as itself. -/
private def pieceOf : CodePoint → Piece
  | .scalar c =>
    if c.toNat < 0x20 ∧ c ≠ '\n' ∧ c ≠ '\r' ∧ c ≠ '\t' ∧ c.toNat ≠ 0x0C ∧ c.toNat ≠ 0x08 then
      .unit c.toNat
    else .plain (.scalar c)
  | .surrogate offset => .plain (.surrogate offset)

private theorem hexValue_hexDigit : ∀ n < 16, hexValue (ch (hexDigit n)) = some n := by decide

/-- An ordinary code point of a string stands for itself. -/
theorem scanPieces_plain (ordinary : 0x20 ≤ point.code)
    (quoted : point ≠ ch '"') (slashed : point ≠ ch '\\') :
    scanPieces (point :: rest) =
      (scanPieces rest).map fun scanned => (.plain point :: scanned.1, scanned.2) := by
  have printable : ¬ point.code < 0x20 := by omega
  have read : scanPieces (point :: rest) =
      (scanPieces rest).bind fun scanned => some (.plain point :: scanned.1, scanned.2) := by
    rw [scanPieces.eq_def]
    split <;> simp_all
  rw [read]
  cases scanPieces rest <;> rfl

/-- A short escape stands for its meaning. -/
theorem scanPieces_short (meaning : simpleEscape c = some m) :
    scanPieces (ch '\\' :: ch c :: rest) =
      (scanPieces rest).map fun scanned => (.plain (.scalar m) :: scanned.1, scanned.2) := by
  have notUnit : c ≠ 'u' := by
    rintro rfl
    cases meaning
  have read : scanPieces (ch '\\' :: ch c :: rest) =
      (scanPieces rest).bind fun scanned => some (.plain (.scalar m) :: scanned.1, scanned.2) := by
    rw [scanPieces.eq_def]
    split
    case h_5 tail other same =>
      exact absurd (List.cons.inj same).2.symm (other c rest)
    all_goals simp_all
  rw [read]
  cases scanPieces rest <;> rfl

private theorem scanPieces_control {c : Char} (control : c.toNat < 0x20) :
    scanPieces ([ch '\\', ch 'u', ch '0', ch '0', ch (hexDigit (c.toNat / 16)),
      ch (hexDigit (c.toNat % 16))] ++ rest) =
      (scanPieces rest).map fun scanned => (.unit c.toNat :: scanned.1, scanned.2) := by
  have unit : hexUnit (ch '0') (ch '0') (ch (hexDigit (c.toNat / 16))) (ch (hexDigit (c.toNat % 16))) =
      some c.toNat := by
    have zero : hexValue (ch '0') = some 0 := by decide
    simp only [hexUnit, zero, hexValue_hexDigit _ (show c.toNat / 16 < 16 by omega),
      hexValue_hexDigit _ (show c.toNat % 16 < 16 by omega), Option.bind_eq_bind, Option.bind_some,
      Option.pure_def, Option.some.injEq]
    omega
  simp only [List.cons_append, List.nil_append, scanPieces, unit]
  cases scanPieces rest <;> rfl

private theorem scanPieces_escape :
    scanPieces (escape point ++ rest) =
      (scanPieces rest).map fun scanned => (pieceOf point :: scanned.1, scanned.2) := by
  cases point with
  | surrogate offset =>
    exact scanPieces_plain (by simp [CodePoint.code]; omega) (by simp) (by simp)
  | scalar c =>
    by_cases short : c = '"' ∨ c = '\\' ∨ c = '\n' ∨ c = '\r' ∨ c = '\t'
    · rcases short with rfl | rfl | rfl | rfl | rfl <;> exact scanPieces_short rfl
    · obtain ⟨quoted, slashed, newline, carriage, tab⟩ := by simpa only [not_or] using short
      by_cases feed : c.toNat = 0x0C
      · obtain rfl : c = '\x0c' := Char.toNat_inj.mp feed
        exact scanPieces_short rfl
      by_cases back : c.toNat = 0x08
      · obtain rfl : c = '\x08' := Char.toNat_inj.mp back
        exact scanPieces_short rfl
      by_cases control : c.toNat < 0x20
      · have written : escape (.scalar c) = [ch '\\', ch 'u', ch '0', ch '0',
            ch (hexDigit (c.toNat / 16)), ch (hexDigit (c.toNat % 16))] := by
          simp only [escape, feed, back, control, ↓reduceIte]
        rw [written, scanPieces_control control]
        simp [pieceOf, control, newline, carriage, tab, feed, back]
      · have written : escape (.scalar c) = [.scalar c] := by
          simp only [escape, feed, back, control, ↓reduceIte]
        rw [written]
        have piece : pieceOf (.scalar c) = .plain (.scalar c) := by simp [pieceOf, control]
        rw [piece]
        exact scanPieces_plain (by simpa [CodePoint.code] using control) (by simpa using quoted)
          (by simpa using slashed)

private theorem scanPieces_quoted (s : Text) :
    scanPieces (s.flatMap escape ++ ch '"' :: rest) = some (s.map pieceOf, rest) := by
  induction s with
  | nil => simp [scanPieces]
  | cons point s ih =>
    rw [List.flatMap_cons, List.append_assoc, scanPieces_escape, ih]
    simp

private theorem joinPieces_pieceOf (s : Text) : joinPieces (s.map pieceOf) = s := by
  induction s with
  | nil => rfl
  | cons point s ih =>
    cases point with
    | surrogate offset => simpa [pieceOf, joinPieces] using ih
    | scalar c =>
      by_cases control : c.toNat < 0x20 ∧ c ≠ '\n' ∧ c ≠ '\r' ∧ c ≠ '\t' ∧ c.toNat ≠ 0x0C ∧ c.toNat ≠ 0x08
      · have unit : CodePoint.ofUnit c.toNat = .scalar c := by
          have low : ¬ (0xD800 ≤ c.toNat ∧ c.toNat ≤ 0xDFFF) := by omega
          rw [CodePoint.ofUnit, dif_neg low, Char.ofNat_toNat]
        have alone : joinPieces (.unit c.toNat :: s.map pieceOf) =
            CodePoint.ofUnit c.toNat :: joinPieces (s.map pieceOf) := by
          have notHigh : isHigh c.toNat = false := by simp [isHigh]; omega
          rw [joinPieces.eq_def]
          split <;> simp_all
        rw [List.map_cons, pieceOf, if_pos control, alone, unit, ih]
      · rw [List.map_cons, pieceOf, if_neg control, joinPieces, ih]

/-- A quoted string is scanned back, however it had to be escaped. -/
theorem scanString_quote (s rest : Text) :
    scanString (s.flatMap escape ++ ch '"' :: rest) = .ok (s, rest) := by
  rw [scanString, scanPieces_quoted]
  simp [joinPieces_pieceOf]

/-! ## Numbers -/

/-- What follows a value inside a document: nothing, or a closing mark. -/
def Boundary (rest : Text) : Prop :=
  ∀ point ∈ rest.head?, point = ch ',' ∨ point = ch ']' ∨ point = ch '\x7d'

@[simp] theorem boundary_nil : Boundary [] := by simp [Boundary]

@[simp] theorem boundary_comma : Boundary (ch ',' :: rest) := by simp [Boundary]

@[simp] theorem boundary_bracket : Boundary (ch ']' :: rest) := by simp [Boundary]

@[simp] theorem boundary_brace : Boundary (ch '\x7d' :: rest) := by simp [Boundary]

private theorem boundary_stops (boundary : Boundary rest) :
    NoDigitAhead rest ∧ spanFraction rest = ([], rest) ∧ spanExponent rest = ([], rest) := by
  cases rest with
  | nil => exact ⟨by simp, rfl, rfl⟩
  | cons point tail =>
    rcases boundary point rfl with rfl | rfl | rfl <;>
      exact ⟨by simp; rfl, rfl, rfl⟩

private theorem spanInteger_decimal (ahead : NoDigitAhead rest) :
    spanInteger (decimal n ++ rest) = some (decimal n, rest) := by
  by_cases zero : n = 0
  · subst zero
    rfl
  · have positive : 0 < n := Nat.pos_of_ne_zero zero
    obtain ⟨digit, tail, front, _, nonzero⟩ := decimal_head positive
    have read := spanPositive_decimal positive ahead
    rw [front, List.cons_append] at read ⊢
    rw [spanInteger.eq_def]
    split
    · simp_all
    · exact read

private theorem scanMagnitude_decimal (negative : Bool) (boundary : Boundary rest)
    (fits : n < 10 ^ digitLimit) :
    scanMagnitude negative (decimal n ++ rest) =
      .ok (.int (if negative then -(n : Int) else n), rest) := by
  obtain ⟨ahead, fraction, exponent⟩ := boundary_stops boundary
  have short : (decimal n).length ≤ digitLimit := (decimal_length_le digitLimit_pos).mpr fits
  simp only [scanMagnitude, spanInteger_decimal ahead, fraction, exponent, and_self, ↓reduceIte, short,
    digitsValue_decimal]

theorem scanAtom_digit {digit : Char} (isDigit : digit.isDigit = true) :
    scanAtom (ch digit :: rest) = scanMagnitude false (ch digit :: rest) := by
  rw [scanAtom.eq_def]
  split <;> first | rfl | simp_all

theorem decimal_head_digit (n : Nat) :
    ∃ digit tail, decimal n = ch digit :: tail ∧ digit.isDigit = true := by
  by_cases zero : n = 0
  · subst zero
    exact ⟨'0', [], rfl, by decide⟩
  · obtain ⟨digit, tail, front, isDigit, _⟩ := decimal_head (Nat.pos_of_ne_zero zero)
    exact ⟨digit, tail, front, isDigit⟩

/-- A numeral is read back, up to the boundary after it. -/
theorem scanAtom_decimalInt (boundary : Boundary rest) (fits : n.natAbs < 10 ^ digitLimit) :
    scanAtom (decimalInt n ++ rest) = .ok (.int n, rest) := by
  cases n with
  | ofNat n =>
    obtain ⟨digit, tail, front, isDigit⟩ := decimal_head_digit n
    have read := scanMagnitude_decimal false boundary (n := n) (by simpa using fits)
    rw [decimalInt]
    rw [front, List.cons_append] at read ⊢
    rw [scanAtom_digit isDigit, read]
    rfl
  | negSucc n =>
    have read := scanMagnitude_decimal true boundary (n := n + 1) (by simpa using fits)
    obtain ⟨digit, tail, front, isDigit⟩ := decimal_head_digit (n + 1)
    have notInfinity : (text "Infinity").isPrefixOf (decimal (n + 1) ++ rest) = false := by
      have capital : (ch 'I' == ch digit) = false := by
        apply beq_eq_false_iff_ne.mpr
        rintro same
        cases same
        revert isDigit
        decide
      have spelled : text "Infinity" = ch 'I' :: text "nfinity" := by decide
      rw [front, List.cons_append, spelled, List.isPrefixOf_cons_cons, capital, Bool.false_and]
    rw [decimalInt, List.cons_append, scanAtom]
    simp only [notInfinity, Bool.false_eq_true, ↓reduceIte, read]
    congr 3

/-! ## Values -/

mutual
/-- A value the scanner can give back: no float, no integer over the limit,
and every object one that the hook returns unchanged. -/
def Kept (hook : Members → Except ScanError Value) : Value → Prop
  | .int n => n.natAbs < 10 ^ digitLimit
  | .float _ => False
  | .arr elements => KeptElements hook elements
  | .obj members => hook members = .ok (.obj members) ∧ KeptMembers hook members
  | _ => True

def KeptElements (hook : Members → Except ScanError Value) : List Value → Prop
  | [] => True
  | first :: rest => Kept hook first ∧ KeptElements hook rest

def KeptMembers (hook : Members → Except ScanError Value) : Members → Prop
  | [] => True
  | (_, first) :: rest => Kept hook first ∧ KeptMembers hook rest
end

/-- A written value starts with no space, closing bracket or byte-order mark. -/
theorem render_head (kept : Kept hook value) :
    ∃ point rest, render value = point :: rest ∧
      isSpace point = false ∧ point ≠ ch ']' ∧ point ≠ ch '\ufeff' := by
  cases value with
  | null => exact ⟨ch 'n', text "ull", by decide, by decide, by decide, by decide⟩
  | bool b =>
    cases b with
    | true => exact ⟨ch 't', text "rue", by decide, by decide, by decide, by decide⟩
    | false => exact ⟨ch 'f', text "alse", by decide, by decide, by decide, by decide⟩
  | int n =>
    cases n with
    | ofNat n =>
      obtain ⟨digit, tail, front, isDigit⟩ := decimal_head_digit n
      refine ⟨ch digit, tail, front, ?_, ?_, ?_⟩
      · simp only [isSpace, Bool.or_eq_false_iff, decide_eq_false_iff_not]
        refine ⟨⟨⟨?_, ?_⟩, ?_⟩, ?_⟩ <;> (rintro rfl; revert isDigit; decide)
      all_goals
        rintro same
        cases same
        revert isDigit
        decide
    | negSucc n => exact ⟨ch '-', decimal (n + 1), rfl, by decide, by decide, by decide⟩
  | float literal => exact kept.elim
  | str s => exact ⟨ch '"', s.flatMap escape ++ [ch '"'], rfl, by decide, by decide, by decide⟩
  | arr elements =>
    exact ⟨ch '[', renderElements elements, by simp [render], by decide, by decide, by decide⟩
  | obj members =>
    exact ⟨ch '\x7b', renderMembers members, by simp [render], by decide, by decide, by decide⟩

private theorem skipSpace_render (rest : Text) (kept : Kept hook value) :
    skipSpace (render value ++ rest) = render value ++ rest := by
  obtain ⟨point, tail, front, solid, _, _⟩ := render_head kept
  simp [skipSpace, front, solid]

private theorem skipSpace_separated (kept : Kept hook value) :
    skipSpace (ch ' ' :: (render value ++ rest)) = render value ++ rest := by
  have space : isSpace (ch ' ') = true := by decide
  rw [skipSpace, List.dropWhile_cons_of_pos space]
  exact skipSpace_render rest kept

theorem skipSpace_solid (solid : isSpace point = false) :
    skipSpace (point :: rest) = point :: rest := by
  simp [skipSpace, solid]

private theorem renderElements_front (kept : KeptElements hook (first :: others)) :
    ∃ tail, renderElements (first :: others) = render first ++ tail ∧ Boundary tail ∧
      tail.length + (render first).length = (renderElements (first :: others)).length := by
  cases others with
  | nil => exact ⟨[ch ']'], rfl, by simp, by simp [renderElements]; omega⟩
  | cons second rest =>
    exact ⟨ch ',' :: ch ' ' :: renderElements (second :: rest), rfl, by simp,
      by simp [renderElements]; omega⟩

theorem scanValue_atom (depth : Nat)
    (quoted : point ≠ ch '"') (opens : point ≠ ch '\x7b') (array : point ≠ ch '[') :
    scanValue hook (depth + 1) (point :: rest) = scanAtom (point :: rest) := by
  rw [scanValue.eq_def]
  split <;> simp_all

theorem decimalInt_front (n : Int) :
    ∃ point rest, decimalInt n = point :: rest ∧ point ≠ ch '"' ∧ point ≠ ch '\x7b' ∧ point ≠ ch '[' := by
  cases n with
  | ofNat n =>
    obtain ⟨digit, tail, front, isDigit⟩ := decimal_head_digit n
    refine ⟨ch digit, tail, front, ?_, ?_, ?_⟩ <;> (rintro same; cases same; revert isDigit; decide)
  | negSucc n => exact ⟨ch '-', decimal (n + 1), rfl, by decide, by decide, by decide⟩

mutual
/-- Scanning consumes exactly the text of a kept value. The depth needed is
linear in that text: a bracket pays for the two calls below it. -/
theorem scanValue_render : ∀ (value : Value) (depth : Nat) (rest : Text), Kept hook value →
    2 * (render value).length + 1 ≤ depth → Boundary rest →
    scanValue hook depth (render value ++ rest) = .ok (value, rest)
  | _, 0, _, _, enough, _ => by omega
  | .null, depth + 1, rest, _, _, _ => by
    have spelled : render .null = ch 'n' :: ch 'u' :: ch 'l' :: ch 'l' :: [] := by decide
    rw [spelled, List.cons_append, scanValue_atom depth (by decide) (by decide) (by decide)]
    rfl
  | .bool true, depth + 1, rest, _, _, _ => by
    have spelled : render (.bool true) = ch 't' :: ch 'r' :: ch 'u' :: ch 'e' :: [] := by decide
    rw [spelled, List.cons_append, scanValue_atom depth (by decide) (by decide) (by decide)]
    rfl
  | .bool false, depth + 1, rest, _, _, _ => by
    have spelled : render (.bool false) = ch 'f' :: ch 'a' :: ch 'l' :: ch 's' :: ch 'e' :: [] := by
      decide
    rw [spelled, List.cons_append, scanValue_atom depth (by decide) (by decide) (by decide)]
    rfl
  | .int n, depth + 1, rest, kept, _, boundary => by
    have read := scanAtom_decimalInt boundary (n := n) (by simpa only [Kept] using kept)
    obtain ⟨point, tail, front, quoted, opens, array⟩ := decimalInt_front n
    rw [render]
    rw [front, List.cons_append] at read ⊢
    rw [scanValue_atom depth quoted opens array, read]
  | .float _, _ + 1, _, kept, _, _ => kept.elim
  | .str s, depth + 1, rest, _, _, _ => by
    have read := scanString_quote s rest
    simp only [render, quote, List.cons_append, List.append_assoc, List.nil_append, scanValue, read]
    rfl
  | .arr [], depth + 1, rest, _, _, _ => by
    simp only [render, renderElements, List.cons_append, List.nil_append, scanValue,
      skipSpace_solid (show isSpace (ch ']') = false by decide)]
  | .arr (first :: others), depth + 1, rest, kept, enough, boundary => by
    have inside : KeptElements hook (first :: others) := kept
    have read := scanElements_render (first :: others) depth rest [] (by simp) inside
      (by simp only [render, List.length_cons] at enough; omega) boundary
    obtain ⟨tail, front, _, _⟩ := renderElements_front inside
    obtain ⟨point, more, head, solid, opens, _⟩ := render_head inside.1
    rw [front, head, List.append_assoc, List.cons_append] at read
    rw [render, front, head, List.cons_append, List.append_assoc, List.cons_append, scanValue,
      skipSpace_solid solid]
    split
    · simp_all
    · exact read
  | .obj [], depth + 1, rest, kept, _, _ => by
    simp only [render, renderMembers, List.cons_append, List.nil_append, scanValue,
      skipSpace_solid (show isSpace (ch '\x7d') = false by decide), kept.1]
    rfl
  | .obj ((key, first) :: others), depth + 1, rest, kept, enough, boundary => by
    have opened : ∃ tail, renderMembers ((key, first) :: others) = ch '"' :: tail := by
      cases others <;> exact ⟨_, rfl⟩
    obtain ⟨tail, front⟩ := opened
    have read := scanMembers_render ((key, first) :: others) depth rest [] tail (by simp) front
      kept.2 (by simpa using kept.1)
      (by simp only [render, List.length_cons] at enough; omega) boundary
    rw [render, front, List.cons_append, List.cons_append, scanValue,
      skipSpace_solid (show isSpace (ch '"') = false by decide)]
    simpa using read

/-- The elements of an array are read back, one after the other. -/
theorem scanElements_render : ∀ (elements : List Value) (depth : Nat) (rest : Text)
    (collected : List Value), elements ≠ [] → KeptElements hook elements →
    2 * (renderElements elements).length + 2 ≤ depth → Boundary rest →
    scanElements hook depth (renderElements elements ++ rest) collected =
      .ok (.arr (collected ++ elements), rest)
  | _, 0, _, _, _, _, enough, _ => by omega
  | [], _, _, _, nonempty, _, _, _ => absurd rfl nonempty
  | [last], depth + 1, rest, collected, _, kept, enough, boundary => by
    simp only [renderElements, List.length_append, List.length_cons, List.length_nil] at enough
    have read := scanValue_render last depth (ch ']' :: rest) kept.1 (by omega) (by simp)
    simp only [renderElements, List.append_assoc, List.cons_append, List.nil_append, scanElements, read,
      bind, Except.bind, skipSpace_solid (show isSpace (ch ']') = false by decide)]
    rfl
  | first :: second :: others, depth + 1, rest, collected, _, kept, enough, boundary => by
    simp only [renderElements, List.length_append, List.length_cons] at enough
    have read := scanValue_render first depth
      (ch ',' :: ch ' ' :: (renderElements (second :: others) ++ rest)) kept.1 (by omega) (by simp)
    have tail := scanElements_render (second :: others) depth rest (collected ++ [first]) (by simp)
      kept.2 (by omega) boundary
    obtain ⟨after, front, _, _⟩ := renderElements_front kept.2
    have spaced : skipSpace (ch ' ' :: (renderElements (second :: others) ++ rest)) =
        renderElements (second :: others) ++ rest := by
      rw [front, List.append_assoc]
      exact skipSpace_separated kept.2.1
    simp only [renderElements, List.append_assoc, List.cons_append, scanElements, read, bind,
      Except.bind, skipSpace_solid (show isSpace (ch ',') = false by decide), spaced]
    simpa using tail

/-- So are the members of an object. -/
theorem scanMembers_render : ∀ (members : Members) (depth : Nat) (rest : Text)
    (collected : Members) (tail : Text), members ≠ [] → renderMembers members = ch '"' :: tail →
    KeptMembers hook members → hook (collected ++ members) = .ok (.obj (collected ++ members)) →
    2 * (renderMembers members).length + 2 ≤ depth → Boundary rest →
    scanMembers hook depth (tail ++ rest) collected = .ok (.obj (collected ++ members), rest)
  | _, 0, _, _, _, _, _, _, _, enough, _ => by omega
  | [], _, _, _, _, nonempty, _, _, _, _, _ => absurd rfl nonempty
  | [(key, last)], depth + 1, rest, collected, tail, _, front, kept, whole, enough, boundary => by
    simp only [renderMembers, quote, List.cons_append, List.cons.injEq, true_and] at front
    simp only [renderMembers, List.length_append, List.length_cons] at enough
    subst front
    have name := scanString_quote key (ch ':' :: ch ' ' :: (render last ++ ch '\x7d' :: rest))
    have read := scanValue_render last depth (ch '\x7d' :: rest) kept.1 (by omega) (by simp)
    have spaced : skipSpace (ch ' ' :: (render last ++ ch '\x7d' :: rest)) =
        render last ++ ch '\x7d' :: rest := skipSpace_separated kept.1
    simp only [List.append_assoc, List.cons_append, List.nil_append, scanMembers, name, bind, Except.bind,
      skipSpace_solid (show isSpace (ch ':') = false by decide), spaced, read,
      skipSpace_solid (show isSpace (ch '\x7d') = false by decide), whole]
    rfl
  | (key, first) :: (second, value) :: others, depth + 1, rest, collected, tail, _, front, kept, whole,
      enough, boundary => by
    simp only [renderMembers, quote, List.cons_append, List.cons.injEq, true_and] at front
    simp only [renderMembers, List.length_append, List.length_cons] at enough
    subst front
    have opened : ∃ after, renderMembers ((second, value) :: others) = ch '"' :: after := by
      cases others <;> exact ⟨_, rfl⟩
    obtain ⟨after, next⟩ := opened
    have name := scanString_quote key
      (ch ':' :: ch ' ' :: (render first ++ ch ',' :: ch ' ' :: ch '"' :: (after ++ rest)))
    have read := scanValue_render first depth (ch ',' :: ch ' ' :: ch '"' :: (after ++ rest)) kept.1
      (by omega) (by simp)
    have spaced : skipSpace (ch ' ' :: (render first ++ ch ',' :: ch ' ' :: ch '"' :: (after ++ rest))) =
        render first ++ ch ',' :: ch ' ' :: ch '"' :: (after ++ rest) := skipSpace_separated kept.1
    have comma : skipSpace (ch ' ' :: ch '"' :: (after ++ rest)) = ch '"' :: (after ++ rest) := by
      have space : isSpace (ch ' ') = true := by decide
      rw [skipSpace, List.dropWhile_cons_of_pos space]
      exact skipSpace_solid (by decide)
    have later := scanMembers_render ((second, value) :: others) depth rest (collected ++ [(key, first)])
      after (by simp) next kept.2 (by simpa using whole) (by omega) boundary
    simp only [next, List.append_assoc, List.cons_append, List.nil_append, scanMembers, name, bind,
      Except.bind, skipSpace_solid (show isSpace (ch ':') = false by decide), spaced, read,
      skipSpace_solid (show isSpace (ch ',') = false by decide), comma]
    simpa using later
end

/-- Loading what was rendered gives the value back. -/
theorem loads_render (kept : Kept hook value) : loads hook (render value) = .ok value := by
  have read := scanValue_render value (2 * (render value).length + 2) [] kept (by omega) (by simp)
  rw [List.append_nil] at read
  have trimmed : skipSpace (render value) = render value := by
    simpa using skipSpace_render [] kept
  obtain ⟨point, tail, front, _, _, unmarked⟩ := render_head kept
  rw [loads.eq_def]
  split
  · rename_i rest marked
    rw [front] at marked
    exact absurd (List.cons.inj marked).1 unmarked
  · rw [trimmed, read]
    rfl

/-! ## Dictionaries survive sorting and reading back -/

/-- Where keys are distinct, looking up is membership. -/
theorem lookup_eq_some_iff_mem {dict : Members} (distinct : (dict.map Prod.fst).Nodup) :
    dict.lookup key = some value ↔ (key, value) ∈ dict := by
  induction dict with
  | nil => simp
  | cons member rest ih =>
    obtain ⟨name, held⟩ := member
    obtain ⟨fresh, tail⟩ := List.nodup_cons.mp distinct
    by_cases same : key = name
    · subst same
      have absent : (key, value) ∉ rest := fun inside => fresh (List.mem_map.mpr ⟨_, inside, rfl⟩)
      simp [absent, eq_comm]
    · have differs : (key == name) = false := by simpa using same
      rw [List.lookup_cons, differs, List.mem_cons]
      simpa [same] using ih tail

/-- Lookups do not depend on the order of a dictionary's members. -/
theorem lookup_perm {first second : Members} (distinct : (first.map Prod.fst).Nodup)
    (same : first.Perm second) (key : Text) : first.lookup key = second.lookup key := by
  have distinct' : (second.map Prod.fst).Nodup := (same.map Prod.fst).nodup_iff.mp distinct
  apply Option.ext
  intro value
  rw [lookup_eq_some_iff_mem distinct, lookup_eq_some_iff_mem distinct', same.mem_iff]

/-- Setting a key adds that key. -/
theorem dictSet_keys (dict : Members) :
    name ∈ (dictSet dict key value).map Prod.fst ↔ name ∈ dict.map Prod.fst ∨ name = key := by
  rw [dictSet]
  split
  · rename_i present
    have kept : (dict.map fun member => if member.1 = key then (key, value) else member).map Prod.fst =
        dict.map Prod.fst := by
      rw [List.map_map]
      apply List.map_congr_left
      intro member _
      simp only [Function.comp_apply]
      split
      · rename_i same
        exact same.symm
      · rfl
    rw [kept]
    constructor
    · exact .inl
    · rintro (held | rfl)
      · exact held
      · exact present
  · simp

private theorem lookup_replace (dict : Members) :
    (dict.map fun member => if member.1 = key then (key, value) else member).lookup name =
      if name = key then (dict.lookup key).map fun _ => value else dict.lookup name := by
  induction dict with
  | nil => simp
  | cons member rest ih =>
    obtain ⟨first, held⟩ := member
    rw [List.map_cons]
    by_cases same : first = key
    · subst same
      by_cases asked : name = first
      · subst asked
        simp
      · simp only [↓reduceIte, List.lookup_cons, beq_eq_false_iff_ne.mpr asked, ih, asked]
    · by_cases asked : name = first
      · subst asked
        simp [same]
      · have other : (key == first) = false := beq_eq_false_iff_ne.mpr fun equal => same equal.symm
        simp only [same, ↓reduceIte, List.lookup_cons, beq_eq_false_iff_ne.mpr asked, other, ih]

theorem lookup_isSome {dict : Members} : (dict.lookup key).isSome ↔ key ∈ dict.map Prod.fst := by
  induction dict with
  | nil => simp
  | cons member rest ih =>
    obtain ⟨first, held⟩ := member
    by_cases same : key = first
    · subst same
      simp
    · rw [List.lookup_cons, beq_eq_false_iff_ne.mpr same, ih]
      simp [same]

/-- Assigning to a key changes what that key looks up and nothing else. -/
theorem lookup_dictSet (dict : Members) :
    (dictSet dict key value).lookup name = if name = key then some value else dict.lookup name := by
  rw [dictSet]
  split
  · rename_i present
    obtain ⟨held, found⟩ := Option.isSome_iff_exists.mp (lookup_isSome.mpr present)
    rw [lookup_replace, found]
    rfl
  · rename_i absent
    have missing : dict.lookup key = none := by
      rw [← Option.not_isSome_iff_eq_none, lookup_isSome]
      exact absent
    rw [List.lookup_append]
    by_cases asked : name = key
    · subst asked
      simp [missing]
    · rw [List.lookup_cons, beq_eq_false_iff_ne.mpr asked]
      simp [asked]

private theorem foldl_dictSet_distinct (pairs dict : Members)
    (distinct : ((dict ++ pairs).map Prod.fst).Nodup) :
    pairs.foldl (fun dict member => dictSet dict member.1 member.2) dict = dict ++ pairs := by
  induction pairs generalizing dict with
  | nil => simp
  | cons member rest ih =>
    have fresh : member.1 ∉ dict.map Prod.fst := by
      rw [List.map_append, List.map_cons, List.nodup_append] at distinct
      intro inside
      exact distinct.2.2 _ inside _ List.mem_cons_self rfl
    rw [List.foldl_cons, dictSet, if_neg fresh, ih]
    · simp
    · simpa using distinct

/-- Pairs with distinct keys are already a dictionary. -/
theorem dictOfPairs_distinct (distinct : (pairs.map Prod.fst).Nodup) : dictOfPairs pairs = pairs := by
  simpa [dictOfPairs] using foldl_dictSet_distinct pairs [] (by simpa using distinct)

mutual
/-- A document a program builds from dictionaries, lists, strings and integers. -/
def Plain : Value → Prop
  | .float _ => False
  | .arr elements => PlainElements elements
  | .obj members => (members.map Prod.fst).Nodup ∧ PlainMembers members
  | _ => True

def PlainElements : List Value → Prop
  | [] => True
  | first :: rest => Plain first ∧ PlainElements rest

def PlainMembers : Members → Prop
  | [] => True
  | (_, first) :: rest => Plain first ∧ PlainMembers rest
end

theorem plainElements_iff : PlainElements elements ↔ ∀ value ∈ elements, Plain value := by
  induction elements with
  | nil => simp [PlainElements]
  | cons first rest ih => simp [PlainElements, ih]

theorem plainMembers_iff : PlainMembers members ↔ ∀ member ∈ members, Plain member.2 := by
  induction members with
  | nil => simp [PlainMembers]
  | cons first rest ih => simp [PlainMembers, ih]

theorem keptMembers_iff : KeptMembers hook members ↔ ∀ member ∈ members, Kept hook member.2 := by
  induction members with
  | nil => simp [KeptMembers]
  | cons first rest ih => simp [KeptMembers, ih]

/-- Sorting what is inside the members keeps their keys. -/
theorem sortMembers_keys (members : Members) :
    (sortMembers members).map Prod.fst = members.map Prod.fst := by
  induction members with
  | nil => rfl
  | cons first rest ih => simp [sortMembers, ih]

theorem sortElements_eq_map (elements : List Value) : sortElements elements = elements.map sortKeys := by
  induction elements with
  | nil => rfl
  | cons first rest ih => simp [sortElements, ih]

private theorem sorted_perm (members : Members) :
    ((sortMembers members).insertionSort fun a b => Text.le a.1 b.1).Perm (sortMembers members) :=
  List.perm_insertionSort _ _

private theorem sorted_distinct (distinct : (members.map Prod.fst).Nodup) :
    ((((sortMembers members).insertionSort fun a b => Text.le a.1 b.1)).map Prod.fst).Nodup := by
  rw [((sorted_perm members).map Prod.fst).nodup_iff, sortMembers_keys]
  exact distinct

mutual
private theorem kept_sortKeys : ∀ value : Value, Plain value → intsFit value = true →
    Kept plainHook (sortKeys value)
  | .null, _, _ | .bool _, _, _ | .str _, _, _ => by simp [sortKeys, Kept]
  | .int n, _, fits => by simpa [sortKeys, Kept, intsFit] using fits
  | .float _, plain, _ => plain.elim
  | .arr elements, plain, fits => by
    simpa [sortKeys, Kept] using kept_sortElements elements plain (by simpa [intsFit] using fits)
  | .obj members, plain, fits => by
    have inside := kept_sortMembers members plain.2 (by simpa [intsFit] using fits)
    refine ⟨?_, keptMembers_iff.mpr fun member held => ?_⟩
    · rw [plainHook, dictOfPairs_distinct (sorted_distinct plain.1)]
    · exact keptMembers_iff.mp inside member ((sorted_perm members).mem_iff.mp held)

private theorem kept_sortElements : ∀ elements : List Value, PlainElements elements →
    elementsFit elements = true → KeptElements plainHook (sortElements elements)
  | [], _, _ => trivial
  | first :: rest, plain, fits => by
    obtain ⟨head, tail⟩ := by simpa [elementsFit] using fits
    exact ⟨kept_sortKeys first plain.1 head, kept_sortElements rest plain.2 tail⟩

private theorem kept_sortMembers : ∀ members : Members, PlainMembers members →
    membersFit members = true → KeptMembers plainHook (sortMembers members)
  | [], _, _ => trivial
  | (_, first) :: rest, plain, fits => by
    obtain ⟨head, tail⟩ := by simpa [membersFit] using fits
    exact ⟨kept_sortKeys first plain.1 head, kept_sortMembers rest plain.2 tail⟩
end

/-- What `dumps` writes, a plain `loads` reads back, up to key order. -/
theorem loads_dumps (plain : Plain value) (dumped : dumps value = some written) :
    loads plainHook written = .ok (sortKeys value) := by
  rw [dumps] at dumped
  split at dumped
  · cases dumped
    exact loads_render (kept_sortKeys value plain ‹_›)
  · cases dumped

/-- And sorts what is found at each. -/
theorem sortMembers_lookup (members : Members) (key : Text) :
    (sortMembers members).lookup key = (members.lookup key).map sortKeys := by
  induction members with
  | nil => rfl
  | cons member rest ih =>
    obtain ⟨name, held⟩ := member
    rw [sortMembers, List.lookup_cons, List.lookup_cons, ih]
    cases key == name <;> rfl

/-- Sorting an object moves its members and changes no lookup. -/
theorem sortKeys_obj (members : Members) (distinct : (members.map Prod.fst).Nodup) :
    ∃ sorted, sortKeys (.obj members) = .obj sorted ∧
      (∀ key, sorted.lookup key = (members.lookup key).map sortKeys) ∧
      (sorted.map Prod.fst).Perm (members.map Prod.fst) := by
  refine ⟨_, by rw [sortKeys], fun key => ?_, ?_⟩
  · rw [lookup_perm (sorted_distinct distinct) (sorted_perm members), sortMembers_lookup]
  · rw [← sortMembers_keys members]
    exact (sorted_perm members).map Prod.fst

end Library.Json
