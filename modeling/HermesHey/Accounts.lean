import HermesHey.Core
import HermesHey.Library.Strconv

/-! The account identifiers of `client.py` and of `app.go`. Both take the decimal
numerals of the positive 64-bit integers: one compares the text with the largest
numeral, the other parses the bytes and watches for overflow. -/
namespace HermesHey.Accounts
open Library Library.Json Library.Strconv HermesHey.Core

/-! ## The plugin -/

/-- `re.fullmatch(r"[1-9][0-9]*", value)` -/
def fullmatchAccount : Text → Bool
  | .scalar c :: rest => '1' ≤ c && c ≤ '9' && rest.all CodePoint.isDigit
  | _ => false

/-- `_MAX_ACCOUNT` -/
def maxAccount : Text := text "9223372036854775807"

/-- `canonical_account` -/
def canonicalAccount : Value → Except PyError Text
  | .str value =>
    if ¬ fullmatchAccount value ∨ maxAccount.length < value.length ∨
        value.length = maxAccount.length ∧ ¬ Text.le value maxAccount then
      .error (.value "HEY account must be a canonical ASCII account identifier")
    else .ok value
  | _ => .error (.value "HEY account must be a canonical ASCII account identifier")

/-! ## The sidecar -/

/-- `parseCanonicalAccount` -/
def parseCanonicalAccount (value : List UInt8) : Except Text Int64 :=
  match value with
  | [] => .error "invalid arguments"
  | first :: rest =>
    if first < '1'.toUInt8 ∨ '9'.toUInt8 < first then .error "invalid arguments"
    else if rest.any fun c => c < '0'.toUInt8 || '9'.toUInt8 < c then .error "invalid arguments"
    else
      match parseInt value with
      | .error _ => .error "invalid arguments"
      | .ok account => .ok account

/-! ## Numerals -/

private theorem char_le {c d : Char} : c ≤ d ↔ c.toNat ≤ d.toNat := UInt32.le_iff_toNat_le

private theorem isDigit_of_range (low : '1' ≤ c) (high : c ≤ '9') : c.isDigit = true ∧ c ≠ '0' := by
  have bottom : 49 ≤ c.toNat := char_le.mp low
  have top : c.toNat ≤ 57 := char_le.mp high
  refine ⟨Char.isDigit_iff_toNat.mpr ⟨Nat.le_of_succ_le bottom, top⟩, ?_⟩
  rintro rfl
  exact absurd bottom (by decide)

/-- The expression matches the numerals of positive numbers. -/
theorem fullmatchAccount_iff : fullmatchAccount t = true ↔ ∃ n, 0 < n ∧ t = decimal n := by
  constructor
  · intro matched
    unfold fullmatchAccount at matched
    split at matched
    · rename_i c rest
      simp only [Bool.and_eq_true, decide_eq_true_eq, List.all_eq_true] at matched
      obtain ⟨⟨low, high⟩, digits⟩ := matched
      obtain ⟨digit, nonzero⟩ := isDigit_of_range low high
      have spelled := decimal_digitsValue (List.forall_mem_cons.mpr ⟨digit, digits⟩) nonzero
      refine ⟨digitsValue (ch c :: rest), Nat.pos_of_ne_zero fun zero => nonzero ?_, spelled.symm⟩
      rw [zero] at spelled
      cases spelled
      rfl
    · cases matched
  · rintro ⟨n, positive, rfl⟩
    obtain ⟨c, rest, front, digit, nonzero⟩ := decimal_head positive
    have digits : ∀ point ∈ decimal n, point.isDigit = true := fun point held => decimal_isDigit held
    rw [front] at digits ⊢
    have range := isDigit_range digit
    have other : c.toNat ≠ 48 := fun same => nonzero (Char.toNat_inj.mp same)
    simp only [fullmatchAccount, Bool.and_eq_true, decide_eq_true_eq, List.all_eq_true]
    refine ⟨⟨char_le.mpr ?_, char_le.mpr range.2⟩, (List.forall_mem_cons.mp digits).2⟩
    change 49 ≤ c.toNat
    omega

private theorem maxAccount_bound (n : Nat) :
    maxAccount.length < (decimal n).length ∨ (decimal n).length = maxAccount.length ∧ ¬ Text.le (decimal n) maxAccount ↔
      2 ^ 63 ≤ n := by
  have largest : maxAccount = decimal (2 ^ 63 - 1) := by decide +kernel
  have digits : ∀ m, ∀ point ∈ decimal m, point.isDigit = true := fun m point held => decimal_isDigit held
  have length : maxAccount.length = 19 := rfl
  have long := decimal_length_le (n := n) (by decide : 0 < 19)
  have short := decimal_length_le (n := n) (by decide : 0 < 18)
  rw [length]
  by_cases same : (decimal n).length = 19
  · have order := le_iff_digitsValue_le (decimal n) maxAccount (digits n) (by rw [largest]; exact digits _) same
    rw [largest, digitsValue_decimal, digitsValue_decimal, ← largest] at order
    rw [order]
    omega
  · simp only [same, false_and, or_false]
    omega

/-- The adapter accepts the canonical numerals of positive 64-bit integers. -/
theorem canonicalAccount_eq_ok :
    canonicalAccount (.str t) = .ok account ↔ account = t ∧ ∃ n, 0 < n ∧ n < 2 ^ 63 ∧ t = decimal n := by
  rw [canonicalAccount, ite_error_eq_ok, not_or, not_not, fullmatchAccount_iff, Except.ok.injEq]
  constructor
  · rintro ⟨⟨⟨n, positive, rfl⟩, bounded⟩, rfl⟩
    rw [maxAccount_bound] at bounded
    exact ⟨rfl, n, positive, by omega, rfl⟩
  · rintro ⟨rfl, n, positive, bound, rfl⟩
    exact ⟨⟨⟨n, positive, rfl⟩, by rw [maxAccount_bound]; omega⟩, rfl⟩

private theorem checks_iff (s : String) :
    (∃ first rest, bytes s = first :: rest ∧ ¬ (first < '1'.toUInt8 ∨ '9'.toUInt8 < first) ∧
      ∀ c ∈ rest, ¬ (c < '0'.toUInt8 ∨ '9'.toUInt8 < c)) ↔ fullmatchAccount (text s) = true := by
  have one : '1'.toUInt8.toNat = 49 := rfl
  have nine : '9'.toUInt8.toNat = 57 := rfl
  have zero : '0'.toUInt8.toNat = 48 := rfl
  simp only [UInt8.lt_iff_toNat_lt, one, nine, zero, not_or, Nat.not_lt]
  constructor
  · rintro ⟨first, rest, front, ⟨low, high⟩, others⟩
    have digits : ∀ c ∈ s.toList, c.isDigit = true := by
      refine digits_iff.mp ?_
      rw [front]
      exact List.forall_mem_cons.mpr ⟨⟨by omega, high⟩, others⟩
    rw [bytes_digits digits] at front
    rw [text]
    cases chars : s.toList with
    | nil =>
      rw [chars] at front
      cases front
    | cons c cs =>
      rw [chars] at front digits
      cases front
      obtain ⟨digit, tail⟩ := List.forall_mem_cons.mp digits
      have range := isDigit_range digit
      rw [toNat_toUInt8 (by omega)] at low
      simp only [List.map_cons, fullmatchAccount, Bool.and_eq_true, decide_eq_true_eq, List.all_eq_true,
        List.forall_mem_map]
      exact ⟨⟨char_le.mpr low, char_le.mpr range.2⟩, tail⟩
  · intro matched
    rw [text] at matched
    cases chars : s.toList with
    | nil =>
      rw [chars] at matched
      cases matched
    | cons c cs =>
      rw [chars] at matched
      simp only [List.map_cons, fullmatchAccount, Bool.and_eq_true, decide_eq_true_eq, List.all_eq_true,
        List.forall_mem_map] at matched
      obtain ⟨⟨low, high⟩, tail⟩ := matched
      have digits : ∀ c ∈ s.toList, c.isDigit = true := by
        rw [chars]
        exact List.forall_mem_cons.mpr ⟨(isDigit_of_range low high).1, tail⟩
      have top : c.toNat ≤ 57 := char_le.mp high
      refine ⟨c.toUInt8, cs.map Char.toUInt8, by rw [bytes_digits digits, chars, List.map_cons], ?_, ?_⟩
      · rw [toNat_toUInt8 (by omega)]
        exact ⟨char_le.mp low, top⟩
      · intro byte held
        obtain ⟨d, inside, rfl⟩ := List.mem_map.mp held
        have range := isDigit_range (tail d inside)
        rw [toNat_toUInt8 (by omega)]
        exact range

private theorem parseCanonicalAccount_checked (value : List UInt8) (account : Int64) :
    parseCanonicalAccount value = .ok account ↔
      (∃ first rest, value = first :: rest ∧ ¬ (first < '1'.toUInt8 ∨ '9'.toUInt8 < first) ∧
        ∀ c ∈ rest, ¬ (c < '0'.toUInt8 ∨ '9'.toUInt8 < c)) ∧ parseInt value = .ok account := by
  cases value with
  | nil => simp [parseCanonicalAccount]
  | cons first rest =>
    have others : (rest.any fun c => c < '0'.toUInt8 || '9'.toUInt8 < c) = true ↔
        ¬ ∀ c ∈ rest, ¬ (c < '0'.toUInt8 ∨ '9'.toUInt8 < c) := by
      simp only [List.any_eq_true, Bool.or_eq_true, decide_eq_true_eq, not_forall, not_not, exists_prop]
    rw [parseCanonicalAccount, ite_error_eq_ok, ite_error_eq_ok, others, not_not]
    cases parseInt (first :: rest) <;> simp [and_assoc]

/-- So does the sidecar, and it reads the same number. -/
theorem parseCanonicalAccount_eq_ok {s : String} :
    parseCanonicalAccount (bytes s) = .ok account ↔
      ∃ n, 0 < n ∧ n < 2 ^ 63 ∧ text s = decimal n ∧ account = .ofNat n := by
  have parsed : ∀ n, 0 < n → text s = decimal n →
      parseInt (bytes s) = if n < 2 ^ 63 then .ok (.ofNat n) else .error .range := by
    intro n positive spelled
    have digits : ∀ c ∈ s.toList, c.isDigit = true := by
      intro c held
      have inside : ch c ∈ decimal n := by
        rw [← spelled]
        exact List.mem_map_of_mem held
      exact decimal_isDigit inside
    have value : valueAfter 0 (bytes s) = n := by rw [valueAfter_bytes digits, spelled, digitsValue_decimal]
    rw [parseInt_digits _ (digits_iff.mpr digits), value]
    intro empty
    rw [empty] at value
    exact absurd positive (by rw [← value]; exact Nat.lt_irrefl 0)
  rw [parseCanonicalAccount_checked, checks_iff, fullmatchAccount_iff]
  constructor
  · rintro ⟨⟨n, positive, spelled⟩, read⟩
    rw [parsed n positive spelled] at read
    split at read <;> cases read
    exact ⟨n, positive, ‹_›, spelled, rfl⟩
  · rintro ⟨n, positive, bound, spelled, rfl⟩
    exact ⟨⟨n, positive, spelled⟩, by rw [parsed n positive spelled, if_pos bound]⟩

/-- **The plugin and the sidecar accept the same accounts:** the decimal numerals
of the integers from 1 to 2⁶³ − 1, and they read the same number. -/
theorem accounts_agree (s : String) :
    ((∃ account, canonicalAccount (.str (text s)) = .ok account) ↔
      ∃ account, parseCanonicalAccount (bytes s) = .ok account) ∧
    ((∃ account, parseCanonicalAccount (bytes s) = .ok account) ↔
      ∃ n, 1 ≤ n ∧ n ≤ 2 ^ 63 - 1 ∧ text s = decimal n) ∧
    ∀ account, parseCanonicalAccount (bytes s) = .ok account →
      canonicalAccount (.str (text s)) = .ok (text s) ∧ (digitsValue (text s) : Int) = account.toInt := by
  refine ⟨?_, ?_, ?_⟩
  · simp only [canonicalAccount_eq_ok, parseCanonicalAccount_eq_ok]
    constructor
    · rintro ⟨_, _, n, positive, bound, spelled⟩
      exact ⟨.ofNat n, n, positive, bound, spelled, rfl⟩
    · rintro ⟨_, n, positive, bound, spelled, _⟩
      exact ⟨text s, rfl, n, positive, bound, spelled⟩
  · simp only [parseCanonicalAccount_eq_ok]
    constructor
    · rintro ⟨_, n, positive, bound, spelled, _⟩
      exact ⟨n, positive, by omega, spelled⟩
    · rintro ⟨n, positive, bound, spelled⟩
      exact ⟨.ofNat n, n, positive, by omega, spelled, rfl⟩
  · intro account read
    obtain ⟨n, positive, bound, spelled, rfl⟩ := parseCanonicalAccount_eq_ok.mp read
    refine ⟨canonicalAccount_eq_ok.mpr ⟨rfl, n, positive, bound, spelled⟩, ?_⟩
    rw [spelled, digitsValue_decimal, Int64.toInt_ofNat_of_lt bound]

end HermesHey.Accounts
