import HermesHey.Library.GoJsonDocument
import HermesHey.Library.JsonTruncated

/-! `json.loads` on bytes: the encoding is told from the first of them. What an encoder
writes in UTF-8 is read back, and no part of an object is read as a document. -/
namespace Library.Json

inductive Encoding where
  | utf8
  | utf8Sig
  | utf16
  | utf16be
  | utf16le
  | utf32
  | utf32be
  | utf32le
  deriving DecidableEq, Repr

/-- `detect_encoding` -/
def detectEncoding (s : List UInt8) : Encoding :=
  if [0x00, 0x00, 0xFE, 0xFF].isPrefixOf s ∨ [0xFF, 0xFE, 0x00, 0x00].isPrefixOf s then .utf32
  else if [0xFE, 0xFF].isPrefixOf s ∨ [0xFF, 0xFE].isPrefixOf s then .utf16
  else if [0xEF, 0xBB, 0xBF].isPrefixOf s then .utf8Sig
  else
    match s with
    | a :: b :: c :: d :: _ =>
      if a = 0 then if b ≠ 0 then .utf16be else .utf32be
      else if b = 0 then if c ≠ 0 ∨ d ≠ 0 then .utf16le else .utf32le
      else .utf8
    | [a, b] => if a = 0 then .utf16be else if b = 0 then .utf16le else .utf8
    | _ => .utf8

/-- `s.decode(detect_encoding(s), "surrogatepass")`. The codecs other than UTF-8 are a parameter. -/
def decodeBytes (codec : Encoding → List UInt8 → Option Text) (s : List UInt8) : Option Text :=
  match detectEncoding s with
  | .utf8 => Text.decodeUtf8 s
  | other => codec other s

/-- Bytes of ASCII at the front, none of them zero, are taken for UTF-8. -/
theorem decodeBytes_utf8 (codec : Encoding → List UInt8 → Option Text) {s : List UInt8}
    (ascii : ∀ b ∈ s.head?, b.toNat < 128)
    (nonzero : ∀ b ∈ s, b ≠ 0) : decodeBytes codec s = Text.decodeUtf8 s := by
  have detected : detectEncoding s = .utf8 := by
    cases s with
    | nil => rfl
    | cons first rest =>
      obtain ⟨zero, others⟩ := List.forall_mem_cons.mp nonzero
      have small : first.toNat < 128 := ascii first rfl
      have mark : ∀ high : UInt8, 128 ≤ high.toNat → (high == first) = false := by
        intro high large
        refine beq_false_of_ne ?_
        rintro rfl
        omega
      have null : ((0 : UInt8) == first) = false := beq_false_of_ne (Ne.symm zero)
      unfold detectEncoding
      simp only [List.isPrefixOf_cons_cons, mark 0xFF (by decide), mark 0xFE (by decide), mark 0xEF (by decide), null,
        Bool.false_and, Bool.false_eq_true, or_self, ↓reduceIte]
      split
      · rename_i same
        obtain ⟨rfl, rfl⟩ := List.cons.inj same
        rw [if_neg zero, if_neg (others _ List.mem_cons_self)]
      · rename_i same
        obtain ⟨rfl, rfl⟩ := List.cons.inj same
        rw [if_neg zero, if_neg (others _ List.mem_cons_self)]
      · rfl
  rw [decodeBytes, detected]

/-! ## Printable text -/

/-- No control character. -/
def Printable (t : Text) : Prop := ∀ point ∈ t, 0x20 ≤ point.code

instance : Decidable (Printable t) := inferInstanceAs (Decidable (∀ point ∈ t, 0x20 ≤ point.code))

theorem printable_append : Printable (s ++ t) ↔ Printable s ∧ Printable t := List.forall_mem_append

theorem printable_cons : Printable (point :: t) ↔ 0x20 ≤ point.code ∧ Printable t := List.forall_mem_cons

@[simp] theorem printable_nil : Printable [] := by simp [Printable]

private theorem printable_decimal (n : Nat) : Printable (decimal n) := by
  intro point held
  have digit := decimal_isDigit held
  cases point with
  | surrogate offset => cases digit
  | scalar c =>
    have range := isDigit_range digit
    change 0x20 ≤ c.toNat
    omega

private theorem printable_decimalInt (n : Int) : Printable (decimalInt n) := by
  cases n with
  | ofNat n => exact printable_decimal n
  | negSucc n => exact printable_cons.mpr ⟨by decide, printable_decimal (n + 1)⟩

private theorem hexValue_printable (value : hexValue (ch h) = some n) : 0x20 ≤ h.toNat := by
  have large : ∀ d : Char, 0x20 ≤ d.toNat → d ≤ h → 0x20 ≤ h.toNat := fun d printable le => printable.trans le
  simp only [hexValue] at value
  split at value
  · rename_i range
    exact large '0' (by decide) range.1
  split at value
  · rename_i range
    exact large 'a' (by decide) range.1
  split at value
  · rename_i range
    exact large 'A' (by decide) range.1
  · cases value

private theorem Spelled.printable (spelled : Spelled c e) : Printable (e.map ch) := by
  cases spelled with
  | plain printable => exact printable_cons.mpr ⟨printable, printable_nil⟩
  | @short letter meaning =>
    unfold simpleEscape at meaning
    split at meaning <;> cases meaning <;> decide
  | @unit h₁ h₂ h₃ h₄ value =>
    simp only [hexUnit, Option.bind_eq_bind, Option.bind_eq_some_iff] at value
    obtain ⟨_, read₁, _, read₂, _, read₃, _, read₄, _⟩ := value
    simp only [List.map_cons, List.map_nil, printable_cons]
    exact ⟨by decide, by decide, hexValue_printable read₁, hexValue_printable read₂, hexValue_printable read₃,
      hexValue_printable read₄, printable_nil⟩

private theorem Style.printable_quote (style : Style) (s : Text) : Printable (style.quote s) := by
  refine printable_cons.mpr ⟨by decide, printable_append.mpr ⟨?_, by decide⟩⟩
  intro point held
  obtain ⟨origin, _, inside⟩ := List.mem_flatMap.mp held
  cases origin with
  | scalar c => exact (style.spelled c).printable point inside
  | surrogate offset =>
    rw [List.mem_singleton.mp inside, CodePoint.code]
    omega

mutual
/-- A document without line breaks between its parts has no control character. -/
theorem Style.printable (style : Style) (gap : Printable style.gap) : ∀ v : Value, Plain v → Printable (style.write v)
  | .null, _ => by
    rw [Style.write]
    decide
  | .bool b, _ => by
    rw [Style.write]
    cases b <;> decide
  | .int n, _ => by
    rw [Style.write]
    exact printable_decimalInt n
  | .float _, plain => plain.elim
  | .str s, _ => by
    rw [Style.write]
    exact style.printable_quote s
  | .arr elements, plain => by
    rw [Style.write]
    exact printable_cons.mpr ⟨by decide, style.printable_elements gap elements plain⟩
  | .obj members, plain => by
    rw [Style.write]
    exact printable_cons.mpr ⟨by decide, style.printable_members gap members plain.2⟩

private theorem Style.printable_elements (style : Style) (gap : Printable style.gap) :
    ∀ vs : List Value, PlainElements vs → Printable (style.writeElements vs)
  | [], _ => by
    rw [Style.writeElements]
    decide
  | [last], plain => by
    rw [Style.writeElements]
    exact printable_append.mpr ⟨style.printable gap last plain.1, by decide⟩
  | first :: second :: rest, plain => by
    rw [Style.writeElements, printable_append, printable_cons, printable_append]
    exact ⟨style.printable gap first plain.1, by decide, gap, style.printable_elements gap (second :: rest) plain.2⟩

private theorem Style.printable_members (style : Style) (gap : Printable style.gap) :
    ∀ ms : Members, PlainMembers ms → Printable (style.writeMembers ms)
  | [], _ => by
    rw [Style.writeMembers]
    decide
  | [(key, last)], plain => by
    rw [Style.writeMembers, printable_append, printable_cons, printable_append, printable_append]
    exact ⟨style.printable_quote key, by decide, gap, style.printable gap last plain.1, by decide⟩
  | (key, first) :: second :: rest, plain => by
    rw [Style.writeMembers, printable_append, printable_cons, printable_append, printable_append, printable_cons,
      printable_append]
    exact ⟨style.printable_quote key, by decide, gap, style.printable gap first plain.1, by decide, gap,
      style.printable_members gap (second :: rest) plain.2⟩
end

/-- Printable text has no control bytes. -/
theorem printable_bytes (printable : Printable t) : ∀ b ∈ Text.utf8 t, 0x20 ≤ b.toNat := by
  intro b held
  obtain ⟨point, inside, within⟩ := List.mem_flatMap.mp held
  have code := printable point inside
  cases point with
  | surrogate offset => cases within
  | scalar c =>
    change b ∈ String.utf8EncodeChar c at within
    by_cases ascii : c.toNat < 128
    · rw [Strconv.utf8EncodeChar_ascii ascii, List.mem_singleton] at within
      rw [within, Strconv.toNat_toUInt8 ascii]
      exact code
    · exact le_trans (by decide) (Text.utf8EncodeChar_high (by omega) b within)

/-! ## Documents in UTF-8 -/

private theorem scalars_map (chars : List Char) : Scalars (chars.map ch) := by
  intro point held
  obtain ⟨c, _, rfl⟩ := List.mem_map.mp held
  exact ⟨c, rfl⟩

private theorem Inside.scalars (inside : Inside s t) : Scalars t := by
  induction inside with
  | nil => exact scalars_nil
  | cons _ _ ih => exact scalars_append.mpr ⟨scalars_map _, ih⟩

private theorem Blank.scalars (blank : Blank gap) : Scalars gap := by
  intro point held
  cases point with
  | scalar c => exact ⟨c, rfl⟩
  | surrogate offset => cases blank _ held

/-- A document can be encoded. -/
theorem Document.scalars (document : Document part t) : Scalars t := by
  induction document with
  | null => exact scalars_text _
  | bool => exact scalars_text _
  | @int n =>
    cases n with
    | ofNat n => exact scalars_map _
    | negSucc n => exact scalars_ch.mpr (scalars_map _)
  | str inside => simp [inside.scalars]
  | array _ ih => simpa using ih
  | object _ ih => simpa using ih
  | noElements => simp
  | lastElement _ ih => simpa using ih
  | element _ blank _ ih later => simp [ih, later, blank.scalars]
  | noMembers => simp
  | lastMember key blank _ ih => simp [key.scalars, blank.scalars, ih]
  | member key blank _ spaced _ ih later => simp [key.scalars, blank.scalars, spaced.scalars, ih, later]

/-- A document has no surrogates. -/
theorem Document.chars (document : Document part t) : ∃ chars : List Char, t = chars.map ch := by
  obtain ⟨bytes, encoded⟩ := document.scalars.encode
  obtain ⟨chars, scalars, _⟩ := Option.map_eq_some_iff.mp encoded
  exact ⟨chars, Text.mapM_scalar_eq_some.mp scalars⟩

/-- A part of an object's line is taken for UTF-8. -/
theorem Document.decodeBytes_part (document : Document (.value (.obj ms)) t) (printable : Printable t)
    (codec : Encoding → List UInt8 → Option Text) (cut : part <+: t.utf8 ++ ['\n'.toUInt8]) :
    decodeBytes codec part = Text.decodeUtf8 part := by
  obtain ⟨rest, front⟩ := document.object_head
  obtain ⟨lost, whole⟩ := cut
  refine decodeBytes_utf8 codec ?_ ?_
  · cases part with
    | nil => simp
    | cons first others =>
      rw [front, Text.utf8_ascii (by decide)] at whole
      obtain ⟨rfl, _⟩ := List.cons.inj whole
      simp only [List.head?_cons, Option.mem_some_iff, forall_eq']
      decide
  · intro b held
    have inside : b ∈ t.utf8 ++ ['\n'.toUInt8] := whole ▸ List.mem_append_left _ held
    rintro rfl
    rcases List.mem_append.mp inside with earlier | newline
    · exact absurd (printable_bytes printable _ earlier) (by decide)
    · exact absurd newline (by decide)

/-- An object's line is decoded as it was written. -/
theorem Document.decodeBytes_line (document : Document (.value (.obj ms)) t) (printable : Printable t)
    (codec : Encoding → List UInt8 → Option Text) :
    decodeBytes codec (Text.utf8 (t ++ [ch '\n'])) = some (t ++ [ch '\n']) := by
  have line : Text.utf8 (t ++ [ch '\n']) = t.utf8 ++ ['\n'.toUInt8] := Text.utf8_append _ _
  obtain ⟨chars, spelled⟩ := document.chars
  rw [document.decodeBytes_part printable codec (line ▸ List.prefix_refl _), spelled]
  have decoded := Text.decode_utf8 (chars ++ ['\n'])
  rwa [List.map_append] at decoded

/-- **No proper part of an object's bytes is decoded as a document.** -/
theorem Document.truncated_bytes (document : Document (.value (.obj ms)) t) (kept : Kept hook (.obj ms))
    (cut : part ++ lost = t.utf8) (shorter : lost ≠ []) (decoded : Text.decodeUtf8 part = some u) :
    Json.loads hook u ≠ .ok v := by
  obtain ⟨chars, rfl⟩ := document.chars
  rcases Text.decode_cut ⟨lost, cut⟩ with failed | ⟨front, ⟨rest, rfl⟩, rfl⟩
  · rw [failed] at decoded
    cases decoded
  · rw [Text.decode_utf8] at decoded
    cases decoded
    rw [List.map_append] at document cut
    refine Document.truncated document kept ?_
    intro none
    rw [none, List.append_nil] at cut
    exact shorter (List.append_right_eq_self.mp cut)

end Library.Json
