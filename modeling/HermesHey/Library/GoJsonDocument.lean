import HermesHey.Library.GoJsonGrammar
import HermesHey.Library.JsonDocument
import HermesHey.Library.Utf8

/-! Documents in UTF-8, as `encoding/json` reads and writes them. What one language
writes in a style of its own, the other reads as the same value. -/
namespace Library

namespace GoJson
open Strconv (bytes)

/-! ## The decoded value -/

mutual
/-- What `encoding/json` makes of a document. -/
def goValue : Json.Value → Value
  | .null => .null
  | .bool b => .bool b
  | .int n => integer n
  | .float literal => .number literal.utf8
  | .str s => .string s
  | .arr elements => .array (goElements elements)
  | .obj members => .object (goMembers members)

def goElements : List Json.Value → List Value
  | [] => []
  | first :: rest => goValue first :: goElements rest

def goMembers : Json.Members → Members
  | [] => []
  | (key, first) :: rest => (key, goValue first) :: goMembers rest
end

mutual
/-- The levels of nesting of a document. -/
def depth : Json.Value → ℕ
  | .arr elements => elementsDepth elements + 1
  | .obj members => membersDepth members + 1
  | _ => 0

def elementsDepth : List Json.Value → ℕ
  | [] => 0
  | first :: rest => max (depth first) (elementsDepth rest)

def membersDepth : Json.Members → ℕ
  | [] => 0
  | (_, first) :: rest => max (depth first) (membersDepth rest)
end

/-! ## Strings -/

/-- Bytes that the scanner passes over inside a string. -/
private def Ordinary (b : UInt8) : Prop := 32 ≤ b.toNat ∧ b ≠ quote ∧ b ≠ backslash

private theorem step_ordinary (ordinary : Ordinary b) : InString.step .plain b = some .plain := by
  obtain ⟨printable, quoted, slashed⟩ := ordinary
  have control : ¬ b < 0x20 := by
    rw [UInt8.lt_iff_toNat_lt]
    exact not_lt.mpr printable
  rw [InString.step, if_neg (by simp [quoted, control]), if_neg slashed]

private theorem foldlM_ordinary {s : Bytes} (ordinary : ∀ b ∈ s, Ordinary b) :
    s.foldlM InString.step .plain = some .plain := by
  induction s with
  | nil => rfl
  | cons b rest ih =>
    obtain ⟨first, others⟩ := List.forall_mem_cons.mp ordinary
    rw [List.foldlM_cons, step_ordinary first]
    exact ih others

private theorem plain_ordinary {c : Char} (printable : 0x20 ≤ c.toNat) (quoted : c ≠ '"') (slashed : c ≠ '\\') :
    ∀ b ∈ String.utf8EncodeChar c, Ordinary b := by
  by_cases ascii : c.toNat < 128
  · rw [Strconv.utf8EncodeChar_ascii ascii]
    have code := Strconv.toNat_toUInt8 ascii
    have other : ∀ d : Char, d.toNat < 128 → c ≠ d → c.toUInt8 ≠ d.toUInt8 := by
      intro d small differs same
      have codes := congrArg UInt8.toNat same
      rw [code, Strconv.toNat_toUInt8 small] at codes
      exact differs (Char.toNat_inj.mp codes)
    refine List.forall_mem_singleton.mpr ⟨by rw [code]; exact printable, ?_, ?_⟩
    · exact other '"' (by decide) quoted
    · exact other '\\' (by decide) slashed
  · intro b held
    have high := Text.utf8EncodeChar_high (by omega) b held
    refine ⟨by omega, ?_, ?_⟩ <;> (rintro rfl; exact absurd high (by decide))

private theorem decodeRune_front (c : Char) (rest : Bytes) :
    decodeRune (String.utf8EncodeChar c ++ rest) = (c, c.utf8Size) := by
  rw [decodeRune, Text.decodeChar_front]

private theorem hexValue_byte (read : Json.hexValue (ch h) = some n) :
    h.toNat < 128 ∧ hexValue h.toUInt8 = some n := by
  have ascii : h.toNat < 128 := by
    simp only [Json.hexValue] at read
    split at read
    · rename_i range
      have : h.toNat ≤ '9'.toNat := range.2
      have : '9'.toNat = 57 := rfl
      omega
    · split at read
      · rename_i range
        have : h.toNat ≤ 'f'.toNat := range.2
        have : 'f'.toNat = 102 := rfl
        omega
      · split at read
        · rename_i range
          have : h.toNat ≤ 'F'.toNat := range.2
          have : 'F'.toNat = 70 := rfl
          omega
        · cases read
  have each : ∀ k < 128, hexValue (Char.ofNat k).toUInt8 = Json.hexValue (ch (Char.ofNat k)) := by decide +kernel
  have same := each h.toNat ascii
  rw [Char.ofNat_toNat] at same
  exact ⟨ascii, same.trans read⟩

private theorem spelled_bytes (spelled : Json.Spelled c e) :
    (Text.utf8 (e.map ch)).foldlM InString.step .plain = some .plain ∧
      ∃ first others, Text.utf8 (e.map ch) = first :: others ∧
        ∀ rest, readRune (first :: others ++ rest) = (c, others.length + 1) := by
  cases spelled with
  | plain printable quoted slashed =>
    have ordinary := plain_ordinary printable quoted slashed
    have same : Text.utf8 ([c].map ch) = String.utf8EncodeChar c := by simp [Text.utf8]
    rw [same]
    obtain ⟨first, others, front⟩ := List.exists_cons_of_ne_nil (String.utf8EncodeChar_ne_nil (c := c))
    refine ⟨foldlM_ordinary ordinary, first, others, front, fun rest => ?_⟩
    have head : Ordinary first := ordinary first (by rw [front]; exact List.mem_cons_self)
    have size : others.length + 1 = c.utf8Size := by
      rw [← String.length_utf8EncodeChar, front, List.length_cons]
    have decoded := decodeRune_front c rest
    rw [front, List.cons_append] at decoded
    rw [size, ← decoded, List.cons_append]
    cases others ++ rest with
    | nil => rfl
    | cons second more => rw [readRune, if_neg head.2.2]
  | @short letter meaning =>
    unfold Json.simpleEscape at meaning
    split at meaning <;> cases meaning <;> exact ⟨by decide, _, _, rfl, fun rest => rfl⟩
  | @unit h₁ h₂ h₃ h₄ value =>
    simp only [Json.hexUnit, Option.bind_eq_bind, Option.bind_eq_some_iff, Option.pure_def, Option.some.injEq] at value
    obtain ⟨n₁, read₁, n₂, read₂, n₃, read₃, n₄, read₄, code⟩ := value
    obtain ⟨ascii₁, byte₁⟩ := hexValue_byte read₁
    obtain ⟨ascii₂, byte₂⟩ := hexValue_byte read₂
    obtain ⟨ascii₃, byte₃⟩ := hexValue_byte read₃
    obtain ⟨ascii₄, byte₄⟩ := hexValue_byte read₄
    have written : Text.utf8 (['\\', 'u', h₁, h₂, h₃, h₄].map ch) =
        [backslash, 'u'.toUInt8, h₁.toUInt8, h₂.toUInt8, h₃.toUInt8, h₄.toUInt8] := by
      simp only [List.map_cons, List.map_nil]
      rw [Text.utf8_ascii (by decide), Text.utf8_ascii (by decide), Text.utf8_ascii ascii₁, Text.utf8_ascii ascii₂,
        Text.utf8_ascii ascii₃, Text.utf8_ascii ascii₄]
      rfl
    have escaped : InString.plain.step backslash = some .esc := rfl
    have opened : InString.esc.step 'u'.toUInt8 = some (.escU 3) := rfl
    rw [written]
    refine ⟨?_, _, _, rfl, fun rest => ?_⟩
    · have step₁ : (InString.escU 3).step h₁.toUInt8 = some (.escU 2) := by rw [InString.step, byte₁]; rfl
      have step₂ : (InString.escU 2).step h₂.toUInt8 = some (.escU 1) := by rw [InString.step, byte₂]; rfl
      have step₃ : (InString.escU 1).step h₃.toUInt8 = some (.escU 0) := by rw [InString.step, byte₃]; rfl
      have step₄ : (InString.escU 0).step h₄.toUInt8 = some .plain := by rw [InString.step, byte₄]; rfl
      simp only [List.foldlM_cons, List.foldlM_nil, escaped, opened, step₁, step₂, step₃, step₄, Option.bind_eq_bind,
        Option.bind_some]
      rfl
    · have unit : getu4 ([h₁.toUInt8, h₂.toUInt8, h₃.toUInt8, h₄.toUInt8] ++ rest) = some c.toNat := by
        simp [getu4, byte₁, byte₂, byte₃, byte₄, code]
      have scalar : ¬ (0xD800 ≤ c.toNat ∧ c.toNat < 0xE000) := by
        rcases c.valid with low | high
        · have : c.toNat < 0xD800 := low
          omega
        · have : 0xDFFF < c.toNat := high.1
          omega
      have spelled : ∀ more, readRune (backslash :: 'u'.toUInt8 :: more) =
          readEscape ((getu4 more).getD 0xFFFD) (more.drop 4) := fun more => rfl
      rw [List.cons_append, List.cons_append, spelled, unit, Option.getD_some]
      unfold readEscape
      rw [if_neg scalar, Char.ofNat_toNat]
      rfl

/-- What stands between the quotes of a string is read back. -/
theorem inside_quoted (inside : Json.Inside s t) : Quoted (Text.utf8 t) ∧ unquote (Text.utf8 t) = s := by
  have covered : ∀ (skipped rest : Bytes), unquoteFrom skipped.length (skipped ++ rest) = unquoteFrom 0 rest := by
    intro skipped rest
    induction skipped with
    | nil => rfl
    | cons b skipped ih => rw [List.length_cons, List.cons_append, unquoteFrom, ih]
  induction inside with
  | nil => exact ⟨rfl, rfl⟩
  | cons spelled _ ih =>
    obtain ⟨scanned, first, others, front, reads⟩ := spelled_bytes spelled
    rw [Text.utf8_append]
    constructor
    · rw [Quoted, List.foldlM_append, scanned]
      exact ih.1
    · rw [front, unquote, List.cons_append, unquoteFrom, ← List.cons_append, reads, Nat.add_sub_cancel, covered]
      exact congrArg _ ih.2

/-! ## Numbers -/

private theorem digits_steps (chars : List Char) (digits : ∀ c ∈ chars, c.isDigit = true) :
    (chars.map Char.toUInt8).foldlM InNumber.step .digits = some .digits := by
  induction chars with
  | nil => rfl
  | cons c rest ih =>
    obtain ⟨first, others⟩ := List.forall_mem_cons.mp digits
    have each : ∀ k < 128, (Char.ofNat k).isDigit = true → InNumber.digits.step (Char.ofNat k).toUInt8 = some .digits := by
      decide +kernel
    have range := isDigit_range first
    have stepped := each c.toNat (by omega)
    rw [Char.ofNat_toNat] at stepped
    rw [List.map_cons, List.foldlM_cons, stepped first]
    exact ih others

private theorem utf8_digits (chars : List Char) (digits : ∀ c ∈ chars, c.isDigit = true) :
    Text.utf8 (chars.map ch) = chars.map Char.toUInt8 :=
  Text.utf8_chars fun c held => (isDigit_range (digits c held)).2.trans_lt (by decide)

private theorem decimal_bytes (n : ℕ) : Text.utf8 (decimal n) = (Nat.toDigits 10 n).map Char.toUInt8 :=
  utf8_digits _ fun _ => Nat.isDigit_of_mem_toDigits (by decide) (by decide)

theorem utf8_decimalInt (n : Int) : Text.utf8 (decimalInt n) = Strconv.formatInt n := by
  have chars (n : ℕ) : (decimal n).filterMap CodePoint.scalar? = Nat.toDigits 10 n := by
    simp [decimal, List.filterMap_map, Function.comp_def, CodePoint.scalar?]
  cases n with
  | ofNat n => rw [decimalInt, decimal_bytes, Strconv.formatInt, decimalInt, chars]
  | negSucc n =>
    have sign : CodePoint.scalar? (ch '-') = some '-' := rfl
    rw [decimalInt, Text.utf8_ascii (by decide), decimal_bytes, Strconv.formatInt, decimalInt,
      List.filterMap_cons_some sign, chars, List.map_cons]

private theorem numeral_decimal (n : ℕ) : ∃ c digits state, Text.utf8 (decimal n) = c :: digits ∧
    InNumber.start c = some state ∧ InNumber.neg.step c = some state ∧ (state = .zero ∨ state = .digits) ∧
      digits.foldlM InNumber.step state = some state := by
  by_cases zero : n = 0
  · subst zero
    exact ⟨'0'.toUInt8, [], .zero, rfl, rfl, rfl, .inl rfl, rfl⟩
  · obtain ⟨digit, rest, front, isDigit, nonzero⟩ := decimal_head (Nat.pos_of_ne_zero zero)
    have digits : ∀ point ∈ rest, CodePoint.isDigit point = true := by
      intro point held
      exact decimal_isDigit (n := n) (by rw [front]; exact List.mem_cons_of_mem _ held)
    obtain ⟨chars, rfl, numeral⟩ := digits_chars digits
    have each : ∀ k < 128, (Char.ofNat k).isDigit = true → Char.ofNat k ≠ '0' →
        InNumber.start (Char.ofNat k).toUInt8 = some .digits ∧ InNumber.neg.step (Char.ofNat k).toUInt8 = some .digits := by
      decide +kernel
    have range := isDigit_range isDigit
    have stepped := each digit.toNat (by omega)
    rw [Char.ofNat_toNat] at stepped
    obtain ⟨started, signed⟩ := stepped isDigit nonzero
    refine ⟨digit.toUInt8, chars.map Char.toUInt8, .digits, ?_, started, signed, .inr rfl, digits_steps chars numeral⟩
    rw [front, Text.utf8_ascii (by omega), utf8_digits chars numeral]

/-- A formatted integer is a number of the grammar. -/
theorem numeral_integer (n : Int) : Numeral (Strconv.formatInt n) := by
  rw [← utf8_decimalInt]
  cases n with
  | ofNat n =>
    obtain ⟨c, digits, state, front, started, _, complete, steps⟩ := numeral_decimal n
    refine ⟨c, digits, state, state, front, started, steps, ?_⟩
    rcases complete with rfl | rfl <;> rfl
  | negSucc n =>
    obtain ⟨c, digits, state, front, _, signed, complete, steps⟩ := numeral_decimal (n + 1)
    refine ⟨'-'.toUInt8, c :: digits, .neg, state, ?_, rfl, ?_, ?_⟩
    · rw [decimalInt, Text.utf8_ascii (by decide), front]
    · rw [List.foldlM_cons, signed]
      exact steps
    · rcases complete with rfl | rfl <;> rfl

/-! ## Documents -/

/-- What a part of a document is here. Empty containers have no items of their own. -/
def goItem : Json.Part → Item
  | .value v => .value (goValue v)
  | .elements vs => .elements (goElements vs)
  | .members ms => .members (goMembers ms)

def partDepth : Json.Part → ℕ
  | .value v => depth v
  | .elements vs => elementsDepth vs
  | .members ms => membersDepth ms

/-- The text spells the part, with any text after it. An empty container is its closing bracket. -/
def Spelling (nest : ℕ) : Json.Part → Bytes → Prop
  | .elements [], s => s = [']'.toUInt8]
  | .members [], s => s = ['\x7d'.toUInt8]
  | part, s => ∀ rest, Spells nest (goItem part) (s ++ rest) rest

private theorem utf8_blank (blank : Json.Blank gap) : Blank (Text.utf8 gap) := by
  intro b held
  obtain ⟨point, inside, within⟩ := List.mem_flatMap.mp held
  have space := blank point inside
  cases point with
  | surrogate offset => cases space
  | scalar c =>
    simp only [Json.isSpace, Bool.or_eq_true, decide_eq_true_eq] at space
    rcases space with ((rfl | rfl) | rfl) | rfl <;> (cases List.mem_singleton.mp within; rfl)

private theorem Key.space (blank : isSpace c = true) (key : Key k s rest) : Key k (c :: s) rest := by
  obtain ⟨raw, after, ⟨gap, more, rfl⟩, others⟩ := key
  exact ⟨raw, after, ⟨c :: gap, List.forall_mem_cons.mpr ⟨blank, more⟩, rfl⟩, others⟩

private theorem Spells.led (blank : Blank gap) (spelled : Spells nest item s rest) :
    Spells nest item (gap ++ s) rest := by
  induction gap with
  | nil => exact spelled
  | cons c gap ih =>
    obtain ⟨first, others⟩ := List.forall_mem_cons.mp blank
    cases item with
    | value v => exact .space first (ih others)
    | elements vs =>
      cases ih others with
      | lastElement value close => exact .lastElement (.space first value) close
      | element value comma more => exact .element (.space first value) comma more
    | members ms =>
      cases ih others with
      | lastMember key value close => exact .lastMember (key.space first) value close
      | member key value comma more => exact .member (key.space first) value comma more

private theorem begins_blank (d : UInt8) (rest : Bytes) : Begins d (d :: rest) rest := ⟨[], by simp [Blank], rfl⟩

private theorem key_inside (inside : Json.Inside k s) (rest : Bytes) :
    Key k (quote :: (Text.utf8 s ++ quote :: ':'.toUInt8 :: rest)) rest := by
  obtain ⟨quoted, read⟩ := inside_quoted inside
  exact ⟨Text.utf8 s, _, begins_blank _ _, quoted, read.symm, begins_blank _ _⟩

private theorem utf8_mark {c : Char} (ascii : c.toNat < 128) (t : Text) :
    Text.utf8 (ch c :: t) = c.toUInt8 :: Text.utf8 t :=
  Text.utf8_ascii ascii

@[simp] private theorem mark_quote : String.utf8EncodeChar '"' = [quote] := by decide

@[simp] private theorem mark_colon : String.utf8EncodeChar ':' = [':'.toUInt8] := by decide

@[simp] private theorem mark_comma : String.utf8EncodeChar ',' = [','.toUInt8] := by decide

@[simp] private theorem mark_brace : String.utf8EncodeChar '\x7d' = ['\x7d'.toUInt8] := by decide

/-- **A document is a text of the grammar that `encoding/json` reads.** Induction on the document. -/
theorem spells_document (document : Json.Document part t) (shallow : partDepth part ≤ nest) :
    Spelling nest part (Text.utf8 t) := by
  induction document generalizing nest with
  | null => exact fun rest => .null
  | @bool b =>
    intro rest
    cases b
    · exact .bool
    · exact .bool
  | @int n =>
    intro rest
    rw [utf8_decimalInt]
    exact .number (numeral_integer n)
  | @str s t inside =>
    intro rest
    obtain ⟨quoted, read⟩ := inside_quoted inside
    have spelled : Spells nest (.value (.string (unquote (Text.utf8 t)))) (quote :: (Text.utf8 t ++ quote :: rest)) rest :=
      .string quoted
    rw [read] at spelled
    simpa [goItem, goValue] using spelled
  | @array vs t elements ih =>
    intro rest
    rw [utf8_mark (by decide), List.cons_append]
    obtain ⟨nest, rfl⟩ : ∃ left, nest = left + 1 := Nat.exists_eq_succ_of_ne_zero (by simp [partDepth, depth] at shallow; omega)
    have inner : Spelling nest _ _ := ih (by simp only [partDepth, depth] at shallow ⊢; omega)
    cases vs with
    | nil =>
      have inner : Text.utf8 t = [']'.toUInt8] := inner
      rw [inner]
      exact .emptyArray (begins_blank _ _)
    | cons v vs => exact .array (inner rest)
  | @object ms t members ih =>
    intro rest
    rw [utf8_mark (by decide), List.cons_append]
    obtain ⟨nest, rfl⟩ : ∃ left, nest = left + 1 := Nat.exists_eq_succ_of_ne_zero (by simp [partDepth, depth] at shallow; omega)
    have inner : Spelling nest _ _ := ih (by simp only [partDepth, depth] at shallow ⊢; omega)
    cases ms with
    | nil =>
      have inner : Text.utf8 t = ['\x7d'.toUInt8] := inner
      rw [inner]
      exact .emptyObject (begins_blank _ _)
    | cons m ms => exact .object (inner rest)
  | noElements => rfl
  | @lastElement v t value ih =>
    intro rest
    have inner : Spelling nest _ _ := ih (by simp only [partDepth, elementsDepth] at shallow ⊢; omega)
    rw [Text.utf8_append, utf8_mark (by decide), List.append_assoc]
    exact .lastElement (inner _) (begins_blank _ _)
  | @element v t gap w vs u value blank more ih later =>
    intro rest
    have inner : Spelling nest _ _ := ih (by simp only [partDepth, elementsDepth] at shallow ⊢; omega)
    have others : Spelling nest _ _ := later (by simp only [partDepth, elementsDepth] at shallow ⊢; omega)
    have following : Spells nest (.elements (goElements (w :: vs))) (Text.utf8 gap ++ (Text.utf8 u ++ rest)) rest :=
      (others rest).led (utf8_blank blank)
    rw [Text.utf8_append, utf8_mark (by decide), Text.utf8_append, List.append_assoc, List.cons_append, List.append_assoc]
    exact .element (inner _) (begins_blank _ _) following
  | noMembers => rfl
  | @lastMember k s gap v t key blank value ih =>
    intro rest
    have inner : Spelling nest _ _ := ih (by simp only [partDepth, membersDepth] at shallow ⊢; omega)
    have held : Spells nest (.value (goValue v)) (Text.utf8 gap ++ (Text.utf8 t ++ '\x7d'.toUInt8 :: rest))
        ('\x7d'.toUInt8 :: rest) := (inner _).led (utf8_blank blank)
    have spelled := Spells.lastMember (key_inside key _) held (begins_blank _ _)
    simpa [goItem, goMembers] using spelled
  | @member k s gap v t space m ms u key blank value spaced more ih later =>
    intro rest
    have inner : Spelling nest _ _ := ih (by simp only [partDepth, membersDepth] at shallow ⊢; omega)
    have others : Spelling nest _ _ := later (by simp only [partDepth, membersDepth] at shallow ⊢; omega)
    have following : Spells nest (.members (goMembers (m :: ms))) (Text.utf8 space ++ (Text.utf8 u ++ rest)) rest :=
      (others rest).led (utf8_blank spaced)
    have held : Spells nest (.value (goValue v))
        (Text.utf8 gap ++ (Text.utf8 t ++ ','.toUInt8 :: (Text.utf8 space ++ (Text.utf8 u ++ rest))))
        (','.toUInt8 :: (Text.utf8 space ++ (Text.utf8 u ++ rest))) := (inner _).led (utf8_blank blank)
    have spelled := Spells.member (key_inside key _) held (begins_blank _ _) following
    simpa [goItem, goMembers] using spelled

/-- What any encoder writes of a value is a text of the value, also with white space after it. -/
theorem textOf_write (style : Json.Style) (plain : Json.Plain v) (writable : Json.Writable v)
    (shallow : depth v ≤ maxNestingDepth) (blank : Blank gap) : TextOf ((style.write v).utf8 ++ gap) (goValue v) := by
  have spelled : Spelling maxNestingDepth (.value v) (style.write v).utf8 :=
    spells_document (style.document v plain writable) shallow
  exact ⟨gap, spelled gap, blank⟩

/-- A text is a text of one value. -/
theorem textOf_unique (first : TextOf s v) (second : TextOf s w) : v = w := by
  have same := (parse_eq_some.mpr first).symm.trans (parse_eq_some.mpr second)
  exact Option.some.inj same

/-! ## Brackets -/

/-- An item takes the front of its text. -/
theorem Spells.suffix (spelled : Spells nest item s rest) : rest <:+ s := by
  have begins : ∀ {d : UInt8} {s rest : Bytes}, Begins d s rest → rest <:+ s := by
    rintro d s rest ⟨gap, _, rfl⟩
    exact ⟨gap ++ [d], by simp⟩
  have keyed : ∀ {k : Text} {s rest : Bytes}, Key k s rest → rest <:+ s := by
    rintro k s rest ⟨raw, after, opened, _, _, colon⟩
    exact (begins colon).trans (((List.suffix_cons _ _).trans (List.suffix_append _ _)).trans (begins opened))
  induction spelled with
  | space _ _ ih => exact ih.trans (List.suffix_cons _ _)
  | null => exact List.suffix_append _ _
  | bool => exact List.suffix_append _ _
  | number _ => exact List.suffix_append _ _
  | string _ => exact ((List.suffix_cons _ _).trans (List.suffix_append _ _)).trans (List.suffix_cons _ _)
  | emptyObject close => exact (begins close).trans (List.suffix_cons _ _)
  | object _ ih => exact ih.trans (List.suffix_cons _ _)
  | emptyArray close => exact (begins close).trans (List.suffix_cons _ _)
  | array _ ih => exact ih.trans (List.suffix_cons _ _)
  | lastMember key _ close ih => exact ((begins close).trans ih).trans (keyed key)
  | member key _ comma _ value more => exact ((more.trans (begins comma)).trans value).trans (keyed key)
  | lastElement _ close ih => exact (begins close).trans ih
  | element _ comma _ value more => exact (more.trans (begins comma)).trans value

/-- What ends with a closing brace. -/
def Item.Braced : Item → Prop
  | .value (.object _) | .members _ => True
  | _ => False

/-- The text of an object has a closing brace. -/
theorem Spells.brace (spelled : Spells nest item s rest) (braced : item.Braced) : '\x7d'.toUInt8 ∈ s := by
  have begins : ∀ {s rest : Bytes}, Begins '\x7d'.toUInt8 s rest → '\x7d'.toUInt8 ∈ s := by
    rintro s rest ⟨gap, _, rfl⟩
    simp
  have keyed : ∀ {k : Text} {s rest : Bytes}, Key k s rest → rest ⊆ s := by
    rintro k s rest ⟨raw, after, ⟨_, _, rfl⟩, _, _, ⟨_, _, rfl⟩⟩ b held
    simp [held]
  induction spelled with
  | space _ _ ih => exact List.mem_cons_of_mem _ (ih braced)
  | emptyObject close => exact List.mem_cons_of_mem _ (begins close)
  | object _ ih => exact List.mem_cons_of_mem _ (ih trivial)
  | lastMember key value close _ => exact keyed key (value.suffix.subset (begins close))
  | member key value comma _ _ more =>
    obtain ⟨gap, _, rfl⟩ := comma
    exact keyed key (value.suffix.subset (List.mem_append_right _ (List.mem_cons_of_mem _ (more trivial))))
  | _ => exact braced.elim

/-! ## Parts of a document -/

/-- What follows an item does not matter to its spelling. -/
theorem Spells.append (spelled : Spells nest item s rest) (more : Bytes) :
    Spells nest item (s ++ more) (rest ++ more) := by
  have begins : ∀ {d : UInt8} {s rest : Bytes}, Begins d s rest → Begins d (s ++ more) (rest ++ more) := by
    rintro d s rest ⟨gap, blank, rfl⟩
    exact ⟨gap, blank, by simp⟩
  have keyed : ∀ {k : Text} {s rest : Bytes}, Key k s rest → Key k (s ++ more) (rest ++ more) := by
    rintro k s rest ⟨raw, after, opened, quoted, same, colon⟩
    refine ⟨raw, after ++ more, ?_, quoted, same, begins colon⟩
    have longer := begins opened
    rwa [List.append_assoc, List.cons_append] at longer
  induction spelled with
  | space blank _ ih => exact .space blank ih
  | null =>
    rw [List.append_assoc]
    exact .null
  | bool =>
    rw [List.append_assoc]
    exact .bool
  | number numeral =>
    rw [List.append_assoc]
    exact .number numeral
  | string quoted =>
    rw [List.cons_append, List.append_assoc, List.cons_append]
    exact .string quoted
  | emptyObject close => exact .emptyObject (begins close)
  | object _ ih => exact .object ih
  | emptyArray close => exact .emptyArray (begins close)
  | array _ ih => exact .array ih
  | lastMember key _ close ih => exact .lastMember (keyed key) ih (begins close)
  | member key _ comma _ value more => exact .member (keyed key) value (begins comma) more
  | lastElement _ close ih => exact .lastElement ih (begins close)
  | element _ comma _ value more => exact .element value (begins comma) more

private theorem scan_object (spelled : Spells nest (.value v) ('\x7b'.toUInt8 :: s) rest)
    (enough : 2 * s.length + 2 ≤ fuel) :
    scanValue (fuel + 1) nest ('\x7b'.toUInt8 :: s) = some (v, rest) := by
  have other : '\x7b'.toUInt8 ≠ quote := by decide
  rw [scanValue, skipSpace_self rfl]
  generalize same : '\x7b'.toUInt8 :: s = front at spelled
  cases spelled with
  | space blank _ =>
    cases same
    cases blank
  | null => cases same
  | @bool _ b => cases b <;> cases same
  | number numeral =>
    obtain ⟨c, digits, state, _, rfl, started, _⟩ := numeral
    cases same
    cases started
  | string _ => exact absurd (List.cons.inj same).1 other
  | emptyObject close =>
    cases same
    simp [scanBody, (expect_eq_some rfl).mpr close]
  | @object nest ms _ _ members =>
    cases same
    have inner : scanMembers fuel nest s = some (ms, rest) := members.scan trivial (by simp only [Item.fuel]; omega)
    simp [scanBody, members_open members, inner]
  | emptyArray _ => cases same
  | array _ => cases same

/-- **A decoder finds no value in a part of an object's document.** -/
theorem readValue_part (style : Json.Style) (plain : Json.Plain (.obj ms)) (writable : Json.Writable (.obj ms))
    (shallow : depth (.obj ms) ≤ maxNestingDepth) (cut : part ++ lost = (style.write (.obj ms)).utf8) (shorter : lost ≠ []) :
    readValue part ≠ .ok (v, rest) := by
  intro found
  have spelled := (scan_sound _).value (readValue_eq_ok.mp found)
  have whole : Spells maxNestingDepth (.value (goValue (.obj ms))) ((style.write (.obj ms)).utf8 ++ []) [] :=
    spells_document (style.document (.obj ms) plain writable) shallow []
  obtain ⟨body, front⟩ : ∃ body, (style.write (.obj ms)).utf8 = '\x7b'.toUInt8 :: body := by
    rw [Json.Style.write]
    exact ⟨_, Text.utf8_ascii (by decide)⟩
  cases part with
  | nil => cases found
  | cons c part =>
    rw [List.append_nil, front] at whole
    rw [front] at cut
    obtain ⟨rfl, rfl⟩ := List.cons.inj cut
    have first := scan_object whole le_rfl
    have second := scan_object (spelled.append lost) le_rfl
    obtain ⟨_, same⟩ := Prod.mk.inj (Option.some.inj (first.symm.trans second))
    exact shorter (List.append_eq_nil_iff.mp same.symm).2

/-! ## The style of `Marshal` -/

/-- `appendString` with `escapeHTML`, on one character -/
def marshalEscape (c : Char) : List Char :=
  if c = '"' ∨ c = '\\' then ['\\', c]
  else if c = '\x08' then ['\\', 'b']
  else if c = '\x0c' then ['\\', 'f']
  else if c = '\n' then ['\\', 'n']
  else if c = '\r' then ['\\', 'r']
  else if c = '\t' then ['\\', 't']
  else if c.toNat < 0x20 ∨ c = '<' ∨ c = '>' ∨ c = '&' then
    ['\\', 'u', '0', '0', Json.hexDigit (c.toNat / 16), Json.hexDigit (c.toNat % 16)]
  else if c = '\u2028' ∨ c = '\u2029' then ['\\', 'u', '2', '0', '2', Json.hexDigit (c.toNat % 16)]
  else [c]

private theorem marshalEscape_spelled (c : Char) : Json.Spelled c (marshalEscape c) := by
  unfold marshalEscape
  split
  · rename_i bare
    rcases bare with rfl | rfl <;> exact .short rfl
  · rename_i bare
    obtain ⟨quoted, slashed⟩ := not_or.mp bare
    split
    · subst c; exact .short rfl
    split
    · subst c; exact .short rfl
    split
    · subst c; exact .short rfl
    split
    · subst c; exact .short rfl
    split
    · subst c; exact .short rfl
    split
    · rename_i control
      rcases control with control | rfl | rfl | rfl
      · have each : ∀ n < 0x20, Json.hexUnit (ch '0') (ch '0') (ch (Json.hexDigit (n / 16))) (ch (Json.hexDigit (n % 16))) =
            some n := by decide
        exact .unit (each _ control)
      all_goals exact .unit (by decide)
    · rename_i printable
      split
      · rename_i separator
        rcases separator with rfl | rfl <;> exact .unit (by decide)
      · exact .plain (by omega) quoted slashed

/-- `json.Marshal` -/
def marshalStyle : Json.Style where
  escape := marshalEscape
  gap := []
  spelled := marshalEscape_spelled
  blank := by simp [Json.Blank]

def marshal (v : Json.Value) : Text := marshalStyle.write v

end GoJson
end Library
