import HermesHey.Library.Numerals

/-! `strconv.ParseInt` on the bytes of a string, with base 10 and 64 bits: the
unsigned loop with its two checks for overflow, and the sign around it. -/
namespace Library.Strconv

/-- The UTF-8 bytes of a string. -/
def bytes (s : String) : List UInt8 := s.toByteArray.data.toList

inductive NumError where
  /-- `ErrSyntax` -/
  | invalid
  /-- `ErrRange` -/
  | range
  deriving DecidableEq, Repr

/-- `lower` -/
def lower (c : UInt8) : UInt8 := c ||| ('x'.toUInt8 - 'X'.toUInt8)

/-- The value of a digit in the largest base. -/
def digitValue (c : UInt8) : Option UInt8 :=
  if '0'.toUInt8 ≤ c ∧ c ≤ '9'.toUInt8 then some (c - '0'.toUInt8)
  else if 'a'.toUInt8 ≤ lower c ∧ lower c ≤ 'z'.toUInt8 then some (lower c - 'a'.toUInt8 + 10)
  else none

/-- The smallest number such that ten times it overflows: `maxUint64/10 + 1`. -/
def cutoff : UInt64 := 18446744073709551615 / 10 + 1

/-- One round of the loop of `ParseUint`. -/
def parseUintStep (n : UInt64) (c : UInt8) : Except NumError UInt64 :=
  match digitValue c with
  | none => .error .invalid
  | some d =>
    if 10 ≤ d then .error .invalid
    else if cutoff ≤ n then .error .range
    else if n * 10 + d.toUInt64 < n * 10 then .error .range
    else .ok (n * 10 + d.toUInt64)

/-- `ParseUint(s, 10, 64)` -/
def parseUint (s : List UInt8) : Except NumError UInt64 :=
  if s = [] then .error .invalid else s.foldlM parseUintStep 0

/-- `1 << 63` -/
def signBit : UInt64 := 9223372036854775808

/-- `ParseInt(s, 10, 64)` -/
def parseInt (s : List UInt8) : Except NumError Int64 :=
  match s with
  | [] => .error .invalid
  | sign :: rest =>
    match parseUint (if sign = '+'.toUInt8 ∨ sign = '-'.toUInt8 then rest else s) with
    -- An unsigned range error goes on with `maxUint64`, which is out of range too.
    | .error e => .error e
    | .ok un =>
      if sign = '-'.toUInt8 then if signBit < un then .error .range else .ok (-un.toInt64)
      else if signBit ≤ un then .error .range
      else .ok un.toInt64

/-! ## Runs of digits -/

def IsDigit (c : UInt8) : Prop := 48 ≤ c.toNat ∧ c.toNat ≤ 57

/-- The value of a run of digits, after digits of the value `n`. -/
def valueAfter (n : Nat) (s : List UInt8) : Nat := s.foldl (fun n c => 10 * n + (c.toNat - 48)) n

theorem le_valueAfter (n : Nat) (s : List UInt8) : n ≤ valueAfter n s := by
  induction s generalizing n with
  | nil => exact le_rfl
  | cons c rest ih =>
    have step : n ≤ 10 * n + (c.toNat - 48) := by omega
    exact step.trans (ih _)

private theorem digitValue_digit (digit : IsDigit c) : digitValue c = some (c - 48) := by
  obtain ⟨low, high⟩ := digit
  have front : '0'.toUInt8 ≤ c ∧ c ≤ '9'.toUInt8 := ⟨UInt8.le_iff_toNat_le.mpr low, UInt8.le_iff_toNat_le.mpr high⟩
  rw [digitValue, if_pos front]
  rfl

private theorem parseUintStep_digit (digit : IsDigit c) (bound : n < 2 ^ 64) :
    parseUintStep (.ofNat n) c = if 10 * n + (c.toNat - 48) < 2 ^ 64 then .ok (.ofNat (10 * n + (c.toNat - 48)))
      else .error .range := by
  obtain ⟨low, high⟩ := digit
  have worth : (c - 48).toNat = c.toNat - 48 := UInt8.toNat_sub_of_le _ _ (UInt8.le_iff_toNat_le.mpr low)
  have ten : (10 : UInt8).toNat = 10 := rfl
  have decade : (10 : UInt64).toNat = 10 := rfl
  have limit : cutoff.toNat = 1844674407370955162 := rfl
  have number : (UInt64.ofNat n).toNat = n := UInt64.toNat_ofNat_of_lt' bound
  have small : ¬ (10 : UInt8) ≤ c - 48 := by
    rw [UInt8.le_iff_toNat_le, worth, ten]
    omega
  rw [parseUintStep, digitValue_digit ⟨low, high⟩]
  simp only [small, ↓reduceIte]
  by_cases large : cutoff ≤ UInt64.ofNat n
  · rw [UInt64.le_iff_toNat_le, number, limit] at large
    have over' : ¬ 10 * n + (c.toNat - 48) < 2 ^ 64 := by omega
    rw [if_pos (UInt64.le_iff_toNat_le.mpr (by omega)), if_neg over']
  · rw [UInt64.le_iff_toNat_le, number, limit] at large
    rw [if_neg (by rw [UInt64.le_iff_toNat_le]; omega)]
    have product : (UInt64.ofNat n * 10).toNat = 10 * n := by
      rw [UInt64.toNat_mul, number, decade]
      omega
    have sum : (UInt64.ofNat n * 10 + (c - 48).toUInt64).toNat = (10 * n + (c.toNat - 48)) % 2 ^ 64 := by
      rw [UInt64.toNat_add, product, UInt8.toNat_toUInt64, worth]
    by_cases fits : 10 * n + (c.toNat - 48) < 2 ^ 64
    · rw [Nat.mod_eq_of_lt fits] at sum
      rw [if_pos fits, if_neg (by rw [UInt64.lt_iff_toNat_lt, sum, product]; omega)]
      exact congrArg Except.ok (UInt64.toNat_inj.mp (by rw [sum, UInt64.toNat_ofNat_of_lt' fits]))
    · rw [if_neg fits, if_pos (by rw [UInt64.lt_iff_toNat_lt, sum, product]; omega)]

private theorem foldlM_digits (s : List UInt8) : ∀ n, (∀ c ∈ s, IsDigit c) → n < 2 ^ 64 →
    s.foldlM parseUintStep (.ofNat n) =
      if valueAfter n s < 2 ^ 64 then .ok (.ofNat (valueAfter n s)) else .error .range := by
  -- induction on the digits to come; the value only grows, so an overflow stays one
  induction s with
  | nil =>
    intro n _ bound
    exact (if_pos bound).symm
  | cons c rest ih =>
    intro n digits bound
    obtain ⟨first, others⟩ := List.forall_mem_cons.mp digits
    have grows := le_valueAfter (10 * n + (c.toNat - 48)) rest
    have unfolded : valueAfter n (c :: rest) = valueAfter (10 * n + (c.toNat - 48)) rest := rfl
    rw [List.foldlM_cons, parseUintStep_digit first bound, unfolded]
    by_cases fits : 10 * n + (c.toNat - 48) < 2 ^ 64
    · rw [if_pos fits]
      exact ih _ others fits
    · rw [if_neg fits, if_neg (by omega)]
      rfl

/-- Digits are the number they spell, if it has 64 bits. -/
theorem parseUint_digits (nonempty : s ≠ []) (digits : ∀ c ∈ s, IsDigit c) :
    parseUint s = if valueAfter 0 s < 2 ^ 64 then .ok (.ofNat (valueAfter 0 s)) else .error .range := by
  rw [parseUint, if_neg nonempty]
  exact foldlM_digits s 0 digits (by decide)

/-- A run of digits is parsed to its value if that fits. -/
theorem parseInt_digits (nonempty : s ≠ []) (digits : ∀ c ∈ s, IsDigit c) :
    parseInt s = if valueAfter 0 s < 2 ^ 63 then .ok (.ofNat (valueAfter 0 s)) else .error .range := by
  obtain ⟨c, rest, rfl⟩ := List.exists_cons_of_ne_nil nonempty
  obtain ⟨low, high⟩ := digits c List.mem_cons_self
  have plus : c ≠ '+'.toUInt8 := by
    rintro rfl
    exact absurd low (by decide)
  have minus : c ≠ '-'.toUInt8 := by
    rintro rfl
    exact absurd low (by decide)
  rw [parseInt, if_neg (by simp [plus, minus]), parseUint_digits nonempty digits]
  have bit : signBit.toNat = 2 ^ 63 := rfl
  by_cases fits : valueAfter 0 (c :: rest) < 2 ^ 64
  · have number : (UInt64.ofNat (valueAfter 0 (c :: rest))).toNat = valueAfter 0 (c :: rest) :=
      UInt64.toNat_ofNat_of_lt' fits
    simp only [fits, ↓reduceIte, minus, UInt64.le_iff_toNat_le, number, bit]
    by_cases signed : valueAfter 0 (c :: rest) < 2 ^ 63
    · rw [if_neg (by omega), if_pos signed]
      rfl
    · rw [if_pos (by omega), if_neg signed]
  · rw [if_neg fits, if_neg (by omega)]

/-! ## Strings of digits -/

/-- Different strings have different bytes. -/
theorem bytes_injective : Function.Injective bytes := by
  intro s t same
  have data : s.toByteArray.data = t.toByteArray.data := Array.toList_inj.mp same
  exact String.toByteArray_inj.mp (ByteArray.ext data)

/-- An ASCII character is one byte. -/
theorem utf8EncodeChar_ascii (ascii : Char.toNat c < 128) : String.utf8EncodeChar c = [c.toUInt8] := by
  apply String.utf8EncodeChar_eq_singleton
  rw [Char.utf8Size_eq_one_iff, UInt32.le_iff_toNat_le]
  exact Nat.le_of_lt_succ ascii

/-- An ASCII character is one byte. -/
theorem bytes_ascii (chars : List Char) (ascii : ∀ c ∈ chars, c.toNat < 128) :
    bytes (String.ofList chars) = chars.map Char.toUInt8 := by
  rw [bytes, String.toByteArray_ofList]
  induction chars with
  | nil => rfl
  | cons c rest ih =>
    obtain ⟨first, others⟩ := List.forall_mem_cons.mp ascii
    rw [List.utf8Encode_cons, List.utf8Encode_singleton, utf8EncodeChar_ascii first, ByteArray.toList_data_append,
      ih others]
    rfl

theorem toNat_toUInt8 (ascii : Char.toNat c < 128) : c.toUInt8.toNat = c.toNat := by
  have small : c.toNat < 256 := by omega
  exact Nat.mod_eq_of_lt small

/-- A string of digits has one byte for each of them. -/
theorem bytes_digits {s : String} (digits : ∀ c ∈ s.toList, c.isDigit = true) :
    bytes s = s.toList.map Char.toUInt8 := by
  have spelled := bytes_ascii s.toList fun c held => by have := isDigit_range (digits c held); omega
  rwa [String.ofList_toList] at spelled

private theorem toNat_ofNat (digit : IsDigit c) : (Char.ofNat c.toNat).toNat = c.toNat := by
  obtain ⟨low, high⟩ := digit
  rw [Char.ofNat, dif_pos (.inl (by omega))]
  rfl

/-- The bytes of a string are digits if and only if its characters are. -/
theorem digits_iff {s : String} : (∀ c ∈ bytes s, IsDigit c) ↔ ∀ c ∈ s.toList, c.isDigit = true := by
  constructor
  · intro digits
    have ascii : ∀ c ∈ (bytes s).map fun c => Char.ofNat c.toNat, c.isDigit = true := by
      intro c held
      obtain ⟨byte, inside, rfl⟩ := List.mem_map.mp held
      exact Char.isDigit_iff_toNat.mpr (by rw [toNat_ofNat (digits byte inside)]; exact digits byte inside)
    have same : s = String.ofList ((bytes s).map fun c => Char.ofNat c.toNat) := by
      apply bytes_injective
      rw [bytes_ascii _ fun c held => by have := isDigit_range (ascii c held); omega, List.map_map]
      refine ((List.map_congr_left fun byte inside => ?_).trans (List.map_id _)).symm
      have code := toNat_ofNat (digits byte inside)
      have range := digits byte inside
      exact UInt8.toNat_inj.mp ((toNat_toUInt8 (by rw [code]; have := range.2; omega)).trans code)
    rw [same, String.toList_ofList]
    exact ascii
  · intro digits
    rw [bytes_digits digits]
    intro byte held
    obtain ⟨c, inside, rfl⟩ := List.mem_map.mp held
    have range := isDigit_range (digits c inside)
    rw [IsDigit, toNat_toUInt8 (by omega)]
    exact range

/-- The bytes of digits are worth what the digits are. -/
theorem valueAfter_bytes {s : String} (digits : ∀ c ∈ s.toList, c.isDigit = true) :
    valueAfter 0 (bytes s) = Library.digitsValue (text s) := by
  have loop : ∀ (chars : List Char) n, (∀ c ∈ chars, c.isDigit = true) →
      valueAfter n (chars.map Char.toUInt8) = Nat.ofDigitChars 10 chars n := by
    intro chars
    induction chars with
    | nil => exact fun _ _ => rfl
    | cons c rest ih =>
      intro n held
      obtain ⟨first, others⟩ := List.forall_mem_cons.mp held
      have range := isDigit_range first
      rw [Nat.ofDigitChars_cons, ← ih _ others]
      change valueAfter (10 * n + (c.toUInt8.toNat - 48)) _ = _
      rw [toNat_toUInt8 (by omega)]
      rfl
  rw [bytes_digits digits, loop _ 0 digits, text, digitsValue_chars]

/-! ## Formatting -/

/-- `FormatInt(n, 10)` -/
def formatInt (n : Int) : List UInt8 := ((decimalInt n).filterMap CodePoint.scalar?).map Char.toUInt8

private theorem formatInt_natCast (n : Nat) : formatInt n = (Nat.toDigits 10 n).map Char.toUInt8 := by
  have chars : (decimal n).filterMap CodePoint.scalar? = Nat.toDigits 10 n := by
    simp [decimal, List.filterMap_map, Function.comp_def, CodePoint.scalar?]
  exact congrArg (List.map Char.toUInt8) chars

private theorem formatInt_natCast_digits (n : Nat) :
    formatInt n ≠ [] ∧ (∀ c ∈ formatInt n, IsDigit c) ∧ valueAfter 0 (formatInt n) = n := by
  have digits : ∀ c ∈ (String.ofList (Nat.toDigits 10 n)).toList, c.isDigit = true := by
    intro c held
    rw [String.toList_ofList] at held
    exact Nat.isDigit_of_mem_toDigits (by decide) (by decide) held
  have spelled : text (String.ofList (Nat.toDigits 10 n)) = decimal n := by rw [text, String.toList_ofList, decimal]
  have same : bytes (String.ofList (Nat.toDigits 10 n)) = formatInt n := by
    rw [bytes_digits digits, String.toList_ofList, formatInt_natCast]
  have some : formatInt n ≠ [] := by simp [formatInt_natCast]
  rw [← same] at some ⊢
  exact ⟨some, digits_iff.mpr digits, by rw [valueAfter_bytes digits, spelled, digitsValue_decimal]⟩

/-- What is formatted is parsed back. -/
theorem parseInt_formatInt {n : Int} (low : -2 ^ 63 ≤ n) (high : n < 2 ^ 63) :
    parseInt (formatInt n) = .ok (.ofInt n) := by
  cases n with
  | ofNat n =>
    obtain ⟨some, digits, value⟩ := formatInt_natCast_digits n
    rw [Int.ofNat_eq_natCast] at high
    have fits : n < 2 ^ 63 := by omega
    rw [Int.ofNat_eq_natCast, parseInt_digits some digits, value, if_pos fits, Int64.ofInt_eq_ofNat]
  | negSucc n =>
    obtain ⟨some, digits, value⟩ := formatInt_natCast_digits (n + 1)
    have fits : n + 1 ≤ 2 ^ 63 := by omega
    have signed : formatInt (.negSucc n) = '-'.toUInt8 :: formatInt (n + 1 : Nat) := rfl
    have number : (UInt64.ofNat (n + 1)).toNat = n + 1 := UInt64.toNat_ofNat_of_lt' (show n + 1 < 2 ^ 64 by omega)
    have within : ¬ signBit < UInt64.ofNat (n + 1) := by
      rw [UInt64.lt_iff_toNat_lt, number]
      exact not_lt.mpr fits
    rw [signed, parseInt, if_pos (.inr rfl), parseUint_digits some digits, value, if_pos (by omega)]
    simp only [↓reduceIte, if_neg within, UInt64.toInt64_ofNat']
    rw [← Int64.ofInt_eq_ofNat, Int64.neg_ofInt]
    rfl

/-- What does not fit is out of range. -/
theorem parseInt_outside {n : Int} (outside : n < -2 ^ 63 ∨ 2 ^ 63 ≤ n) : parseInt (formatInt n) = .error .range := by
  cases n with
  | ofNat n =>
    obtain ⟨some, digits, value⟩ := formatInt_natCast_digits n
    rw [Int.ofNat_eq_natCast] at outside
    have large : ¬ n < 2 ^ 63 := by omega
    rw [Int.ofNat_eq_natCast, parseInt_digits some digits, value, if_neg large]
  | negSucc n =>
    obtain ⟨some, digits, value⟩ := formatInt_natCast_digits (n + 1)
    have large : 2 ^ 63 < n + 1 := by omega
    have signed : formatInt (.negSucc n) = '-'.toUInt8 :: formatInt (n + 1 : Nat) := rfl
    rw [signed, parseInt, if_pos (.inr rfl), parseUint_digits some digits, value]
    by_cases fits : n + 1 < 2 ^ 64
    · have beyond : signBit < UInt64.ofNat (n + 1) := by
        rw [UInt64.lt_iff_toNat_lt, UInt64.toNat_ofNat_of_lt' fits]
        exact large
      simp only [if_pos fits, ↓reduceIte, if_pos beyond]
    · rw [if_neg fits]

end Library.Strconv
