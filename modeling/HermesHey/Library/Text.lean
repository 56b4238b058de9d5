import Mathlib.Algebra.Order.Ring.Int
import Mathlib.Data.List.Infix
import Mathlib.Data.List.Lex
import Mathlib.Order.Lex

/-! Strings as sequences of code points. A scripting-language string may hold
an unpaired surrogate, which no scalar value and no UTF-8 text can carry, so
the two are separate constructors and encoding is partial. -/
namespace Library

/-- One element of a code-point string. -/
inductive CodePoint where
  | scalar (c : Char)
  /-- The unpaired surrogate `U+D800 + offset`. -/
  | surrogate (offset : Fin 2048)
  deriving DecidableEq, Repr

@[match_pattern] abbrev ch (c : Char) : CodePoint := .scalar c

namespace CodePoint

/-- The numeric code point, by which strings are ordered. -/
def code : CodePoint → Nat
  | .scalar c => c.toNat
  | .surrogate offset => 0xD800 + offset.val

def scalar? : CodePoint → Option Char
  | .scalar c => some c
  | .surrogate _ => none

def isDigit : CodePoint → Bool
  | .scalar c => c.isDigit
  | .surrogate _ => false

/-- The code point of one UTF-16 code unit taken on its own. -/
def ofUnit (unit : Nat) : CodePoint :=
  if high : 0xD800 ≤ unit ∧ unit ≤ 0xDFFF then .surrogate ⟨unit - 0xD800, by omega⟩
  else .scalar (Char.ofNat unit)

end CodePoint

abbrev Text := List CodePoint

instance : LawfulBEq Text := inferInstance

/-- A literal as a code-point string. -/
def text (s : String) : Text := s.toList.map ch

theorem scalar_injective : Function.Injective CodePoint.scalar := fun _ _ same => by cases same; rfl

/-- Texts are equal when their strings are. -/
theorem text_inj {s t : String} : text s = text t ↔ s = t := by
  constructor
  · intro same
    exact String.toList_inj.mp (scalar_injective.list_map same)
  · rintro rfl
    rfl

theorem text_beq {s t : String} : (text s == text t) = (s == t) := by
  rw [Bool.eq_iff_iff, beq_iff_eq, beq_iff_eq, text_inj]

namespace Text

/-- Comparison by code point, the order of sorted keys. -/
def le (a b : Text) : Bool := decide (a.map CodePoint.code ≤ b.map CodePoint.code)

/-- Strict UTF-8 encoding, which refuses an unpaired surrogate. -/
def encode (t : Text) : Option ByteArray :=
  (t.mapM CodePoint.scalar?).map fun chars => (String.ofList chars).toByteArray

/-- Strict UTF-8 decoding. -/
def decode (bytes : ByteArray) : Option Text :=
  bytes.utf8Decode?.map fun chars => chars.toList.map ch

/-- The characters of a text without surrogates. -/
theorem mapM_scalar_eq_some {t : Text} {chars : List Char} :
    t.mapM CodePoint.scalar? = some chars ↔ t = chars.map ch := by
  induction t generalizing chars with
  | nil => cases chars <;> simp
  | cons point rest ih =>
    cases point with
    | surrogate offset => cases chars <;> simp [CodePoint.scalar?]
    | scalar c =>
      cases chars with
      | nil => simp [CodePoint.scalar?, Option.bind_eq_some_iff]
      | cons d ds => simp [CodePoint.scalar?, Option.bind_eq_some_iff, ih, and_comm]

/-- Decoding inverts encoding wherever encoding is defined. -/
theorem decode_of_encode {t : Text} {bytes : ByteArray} (encoded : t.encode = some bytes) :
    decode bytes = some t := by
  obtain ⟨chars, scalars, rfl⟩ := Option.map_eq_some_iff.mp encoded
  rw [mapM_scalar_eq_some.mp scalars, decode, String.toByteArray_ofList,
    List.utf8Decode?_utf8Encode]
  simp

private theorem utf8Encode_size (chars : List Char) : chars.utf8Encode.size ≤ 4 * chars.length := by
  induction chars with
  | nil => simp
  | cons c rest ih =>
    rw [← List.singleton_append, List.utf8Encode_append, ByteArray.size_append,
      List.utf8Encode_singleton]
    have width := c.utf8Size_le_four
    simp only [List.size_toByteArray, String.length_utf8EncodeChar, List.length_append,
      List.length_singleton]
    omega

/-- A string of scalar values encodes in at most four bytes each. -/
theorem encode_of_scalars {t : Text} (scalars : (t.mapM CodePoint.scalar?).isSome = true) :
    ∃ bytes, t.encode = some bytes ∧ bytes.size ≤ 4 * t.length := by
  obtain ⟨chars, read⟩ := Option.isSome_iff_exists.mp scalars
  refine ⟨(String.ofList chars).toByteArray, by rw [encode, read, Option.map_some], ?_⟩
  rw [mapM_scalar_eq_some.mp read, List.length_map, String.toByteArray_ofList]
  exact utf8Encode_size chars

end Text
end Library
