import HermesHey.Library.Strconv

/-! UTF-8 as a scripting language decodes it when surrogates may pass. Text that
was cut inside a character is not decoded as another one. -/
namespace Library.Text

/-- The bytes of a string in UTF-8, as far as it is text. -/
def utf8 (t : Text) : List UInt8 :=
  t.flatMap fun
    | .scalar c => String.utf8EncodeChar c
    | .surrogate _ => []

@[simp] theorem utf8_nil : utf8 [] = [] := rfl

@[simp] theorem utf8_cons_ch : utf8 (ch c :: t) = String.utf8EncodeChar c ++ utf8 t := rfl

@[simp] theorem utf8_append (s t : Text) : utf8 (s ++ t) = utf8 s ++ utf8 t := List.flatMap_append

/-- `str.encode` gives these bytes. -/
theorem utf8_of_encode {t : Text} (encoded : t.encode = some bytes) : bytes.data.toList = utf8 t := by
  obtain ⟨chars, scalars, rfl⟩ := Option.map_eq_some_iff.mp encoded
  rw [mapM_scalar_eq_some.mp scalars, String.toByteArray_ofList]
  clear encoded scalars
  induction chars with
  | nil => rfl
  | cons c rest ih =>
    rw [List.utf8Encode_cons, List.utf8Encode_singleton, ByteArray.toList_data_append, ih, List.toList_data_toByteArray]
    rfl

/-- They are those of the Go string. -/
theorem utf8_text (s : String) : utf8 (text s) = Strconv.bytes s := by
  have encoded : encode (text s) = some s.toByteArray := by
    rw [encode, text, mapM_scalar_eq_some.mpr rfl, Option.map_some, String.ofList_toList]
  exact (utf8_of_encode encoded).symm

/-- An ASCII character is one byte. -/
theorem utf8_ascii {c : Char} (ascii : c.toNat < 128) : utf8 (ch c :: t) = c.toUInt8 :: utf8 t := by
  rw [utf8_cons_ch, Strconv.utf8EncodeChar_ascii ascii, List.singleton_append]

/-- An ASCII character is one byte. -/
theorem utf8_chars {chars : List Char} (ascii : ∀ c ∈ chars, c.toNat < 128) :
    utf8 (chars.map ch) = chars.map Char.toUInt8 := by
  induction chars with
  | nil => rfl
  | cons c rest ih =>
    obtain ⟨first, others⟩ := List.forall_mem_cons.mp ascii
    rw [List.map_cons, utf8_ascii first, ih others, List.map_cons]

/-- A character beyond the ASCII range has no byte of that range. -/
theorem utf8EncodeChar_high {c : Char} (high : 128 ≤ c.toNat) : ∀ b ∈ String.utf8EncodeChar c, 128 ≤ b.toNat := by
  have wide : ∀ x y : UInt8, 128 ≤ y.toNat → 128 ≤ (x ||| y).toNat := by
    intro x y large
    rw [UInt8.toNat_or]
    exact large.trans Nat.right_le_or
  have several : c.utf8Size ≠ 1 := by
    rw [Ne, Char.utf8Size_eq_one_iff, UInt32.le_iff_toNat_le]
    have : c.val.toNat = c.toNat := rfl
    have : (127 : UInt32).toNat = 127 := rfl
    omega
  match size : c.utf8Size, c.utf8Size_pos, c.utf8Size_le_four with
  | 1, _, _ => exact absurd size several
  | 2, _, _ =>
    rw [String.utf8EncodeChar_eq_cons_cons size]
    simp only [List.forall_mem_cons]
    exact ⟨wide _ _ (by decide), wide _ _ (by decide), by simp⟩
  | 3, _, _ =>
    rw [String.utf8EncodeChar_eq_cons_cons_cons size]
    simp only [List.forall_mem_cons]
    exact ⟨wide _ _ (by decide), wide _ _ (by decide), wide _ _ (by decide), by simp⟩
  | 4, _, _ =>
    rw [String.utf8EncodeChar_eq_cons_cons_cons_cons size]
    simp only [List.forall_mem_cons]
    exact ⟨wide _ _ (by decide), wide _ _ (by decide), wide _ _ (by decide), wide _ _ (by decide), by simp⟩

/-- The first character is read off the front of the bytes. -/
theorem decodeChar_front (c : Char) (rest : List UInt8) :
    ((String.utf8EncodeChar c ++ rest).take 4).toByteArray.utf8DecodeChar? 0 = some c := by
  have width : (String.utf8EncodeChar c).length ≤ 4 := by
    rw [String.length_utf8EncodeChar]
    exact c.utf8Size_le_four
  rw [List.take_append, List.take_of_length_le width, List.toByteArray_append,
    ByteArray.utf8DecodeChar?_utf8EncodeChar_append]

/-! ## Decoding -/

/-- The code point at the front and its width. A surrogate is spelled like the scalar values around it. -/
def decodePoint (s : List UInt8) : Option (CodePoint × ℕ) :=
  match (s.take 4).toByteArray.utf8DecodeChar? 0 with
  | some c => some (.scalar c, c.utf8Size)
  | none =>
    match s with
    | a :: b :: c :: _ =>
      if a = 0xED ∧ 0xA0 ≤ b ∧ b ≤ 0xBF ∧ 0x80 ≤ c ∧ c ≤ 0xBF then
        some (CodePoint.ofUnit (0xD000 + (b.toNat - 0x80) * 64 + (c.toNat - 0x80)), 3)
      else none
    | _ => none

/-- `bytes.decode("utf-8", "surrogatepass")`, past the bytes that the last code point still covers -/
def decodeFrom : ℕ → List UInt8 → Option Text
  | _, [] => some []
  | covered + 1, _ :: rest => decodeFrom covered rest
  | 0, b :: rest => do
    let (point, width) ← decodePoint (b :: rest)
    return point :: (← decodeFrom (width - 1) rest)

def decodeUtf8 (s : List UInt8) : Option Text := decodeFrom 0 s

private theorem decodeFrom_covered (covered rest : List UInt8) :
    decodeFrom covered.length (covered ++ rest) = decodeFrom 0 rest := by
  induction covered with
  | nil => rfl
  | cons b covered ih => rw [List.length_cons, List.cons_append, decodeFrom, ih]

private theorem decodeUtf8_front (c : Char) (rest : List UInt8) :
    decodeUtf8 (String.utf8EncodeChar c ++ rest) = (decodeUtf8 rest).map (.scalar c :: ·) := by
  obtain ⟨first, others, front⟩ := List.exists_cons_of_ne_nil (String.utf8EncodeChar_ne_nil (c := c))
  have read : decodePoint (first :: (others ++ rest)) = some (.scalar c, c.utf8Size) := by
    have decoded := decodeChar_front c rest
    rw [front, List.cons_append] at decoded
    rw [decodePoint.eq_def, decoded]
  have width : c.utf8Size - 1 = others.length := by
    rw [← String.length_utf8EncodeChar, front, List.length_cons, Nat.add_sub_cancel]
  rw [front, List.cons_append, decodeUtf8, decodeFrom, read]
  simp only [Option.bind_eq_bind, Option.bind_some, width, decodeFrom_covered]
  rw [decodeUtf8, Option.map_eq_bind]
  rfl

/-- What was encoded is decoded again. -/
theorem decode_utf8 (chars : List Char) : decodeUtf8 (utf8 (chars.map ch)) = some (chars.map ch) := by
  induction chars with
  | nil => rfl
  | cons c rest ih => rw [List.map_cons, utf8_cons_ch, decodeUtf8_front, ih, Option.map_some]

private theorem decodePoint_part {c : Char} (whole : part ++ lost = String.utf8EncodeChar c) (cut : lost ≠ []) :
    decodePoint part = none := by
  have width : (part ++ lost).length ≤ 4 := by
    rw [whole, String.length_utf8EncodeChar]
    exact c.utf8Size_le_four
  have missing := List.length_pos_iff.mpr cut
  rw [List.length_append] at width
  have part_four : part.take 4 = part := List.take_of_length_le (by omega)
  rw [decodePoint.eq_def, part_four]
  cases decoded : part.toByteArray.utf8DecodeChar? 0 with
  | some d =>
    have more := ByteArray.utf8DecodeChar?_append_eq_some decoded lost.toByteArray
    rw [← List.toByteArray_append, whole] at more
    have own := ByteArray.utf8DecodeChar?_utf8EncodeChar_append (b := ByteArray.empty) (c := c)
    rw [ByteArray.append_empty] at own
    cases more.symm.trans own
    have held := ByteArray.le_size_of_utf8DecodeChar?_eq_some decoded
    have size : (part ++ lost).length = c.utf8Size := by rw [whole, String.length_utf8EncodeChar]
    rw [List.length_append] at size
    rw [List.size_toByteArray] at held
    omega
  | none =>
    dsimp only
    split
    · rename_i second third rest
      refine if_neg ?_
      rintro ⟨rfl, _⟩
      simp only [List.length_cons] at width
      have four : c.utf8Size = 4 := by
        have size := String.length_utf8EncodeChar c
        rw [← whole, List.length_append] at size
        simp only [List.length_cons] at size
        have := c.utf8Size_le_four
        omega
      rw [String.utf8EncodeChar_eq_cons_cons_cons_cons four] at whole
      have lead := congrArg UInt8.toNat (List.cons.inj whole).1
      have high : (0xf0 : ℕ) ≤ ((c.val >>> 18).toUInt8 &&& 0x07 ||| 0xf0).toNat := by
        rw [UInt8.toNat_or]
        exact Nat.right_le_or
      rw [← lead] at high
      exact absurd high (by decide)
    · rfl

/-- Decoding a text that was cut off fails, or gives the characters that came through. -/
theorem decode_cut (cut : part <+: utf8 (chars.map ch)) :
    decodeUtf8 part = none ∨ ∃ front, front <+: chars ∧ part = utf8 (front.map ch) := by
  induction chars generalizing part with
  | nil =>
    right
    exact ⟨[], List.nil_prefix, List.prefix_nil.mp cut⟩
  | cons c rest ih =>
    obtain ⟨lost, whole⟩ := cut
    rw [List.map_cons, utf8_cons_ch] at whole
    rcases List.append_eq_append_iff.mp whole with ⟨missing, char, _⟩ | ⟨more, rfl, left⟩
    · cases part with
      | nil => exact .inr ⟨[], List.nil_prefix, rfl⟩
      | cons b others =>
        by_cases complete : missing = []
        · rw [complete, List.append_nil] at char
          exact .inr ⟨[c], List.prefix_append [c] rest, by rw [← char]; simp⟩
        · left
          rw [decodeUtf8, decodeFrom, decodePoint_part char.symm complete]
          rfl
    · rcases ih ⟨lost, left.symm⟩ with failed | ⟨front, within, rfl⟩
      · left
        rw [decodeUtf8_front, failed, Option.map_none]
      · right
        exact ⟨c :: front, List.cons_prefix_cons.mpr ⟨rfl, within⟩, by simp⟩

end Library.Text
