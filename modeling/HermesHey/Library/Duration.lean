import HermesHey.Library.Binary64
import HermesHey.Library.Outcome
import HermesHey.Library.Strconv

/-! `time.ParseDuration` on the bytes of a string: decimal amounts with units,
summed as nanoseconds in 64 bits. -/
namespace Library.Duration
open Strconv (bytes signBit IsDigit valueAfter)

inductive ParseError where
  | invalid
  | missingUnit
  | unknownUnit
  deriving DecidableEq, Repr

def isDigit (c : UInt8) : Bool := '0'.toUInt8 ≤ c && c ≤ '9'.toUInt8

/-- `'.'` -/
def point : UInt8 := '.'.toUInt8

/-- `leadingInt`, after digits of the value `x`; an error when the value exceeds 2^63. -/
def leadingInt (x : UInt64) : List UInt8 → Option (UInt64 × List UInt8)
  | [] => some (x, [])
  | c :: rest =>
    if ¬ isDigit c then some (x, c :: rest)
    else if signBit / 10 < x then none
    else
      let y := x * 10 + c.toUInt64 - '0'.toUInt8.toUInt64
      if signBit < y then none else leadingInt y rest

/-- `leadingFraction`: the digits as an integer and the power of ten under it. Digits that
do not fit are skipped. -/
def leadingFraction (x : UInt64) (scale : Binary64) (overflow : Bool) : List UInt8 → UInt64 × Binary64 × List UInt8
  | [] => (x, scale, [])
  | c :: rest =>
    if ¬ isDigit c then (x, scale, c :: rest)
    else if overflow then leadingFraction x scale true rest
    else if (signBit - 1) / 10 < x then leadingFraction x scale true rest
    else
      let y := x * 10 + c.toUInt64 - '0'.toUInt8.toUInt64
      if signBit < y then leadingFraction x scale true rest
      else leadingFraction y (scale.mul (.ofNat 10)) false rest

/-- `unitMap`; the micro sign and the Greek letter are both there. -/
def unitMap : List (List UInt8 × UInt64) :=
  [(bytes "ns", 1), (bytes "us", 1000), (bytes "\u00b5s", 1000), (bytes "\u03bcs", 1000), (bytes "ms", 1000000),
    (bytes "s", 1000000000), (bytes "m", 60000000000), (bytes "h", 3600000000000)]

/-- Not a character of a number. -/
def inUnit (c : UInt8) : Bool := ¬ (c = point ∨ isDigit c)

/-- `uint64(float64(f) * (float64(unit) / scale))` -/
def fractionOf (f unit : UInt64) (scale : Binary64) : UInt64 :=
  ((Binary64.ofNat f.toNat).mul ((Binary64.ofNat unit.toNat).div scale)).toUInt64

/-- The amount in nanoseconds, once its unit is known. -/
def amountOf (v f unit : UInt64) (scale : Binary64) : Except ParseError UInt64 :=
  if signBit / unit < v then .error .invalid
  else if 0 < f then
    if signBit < v * unit + fractionOf f unit scale then .error .invalid
    else .ok (v * unit + fractionOf f unit scale)
  else .ok (v * unit)

/-- The part of a number from its point on, and whether there are digits. -/
def fractionPart (s : List UInt8) : UInt64 × Binary64 × List UInt8 × Bool :=
  match s with
  | [] => (0, .finite 1, [], false)
  | c :: rest =>
    if c = point then
      let (f, scale, left) := leadingFraction 0 (.finite 1) false rest
      (f, scale, left, rest.length ≠ left.length)
    else (0, .finite 1, s, false)

/-- `[0-9]*(\.[0-9]*)?` with a digit somewhere. -/
def takeNumber (s : List UInt8) : Except ParseError (UInt64 × UInt64 × Binary64 × List UInt8) :=
  if (s.head?.map inUnit).getD true then .error .invalid
  else
    match leadingInt 0 s with
    | none => .error .invalid
    | some (v, rest) =>
      let (f, scale, left, post) := fractionPart rest
      if ¬ s.length ≠ rest.length ∧ ¬ post then .error .invalid else .ok (v, f, scale, left)

def takeUnit (s : List UInt8) : Except ParseError (UInt64 × List UInt8) :=
  if s.takeWhile inUnit = [] then .error .missingUnit
  else
    match unitMap.lookup (s.takeWhile inUnit) with
    | none => .error .unknownUnit
    | some unit => .ok (unit, s.dropWhile inUnit)

/-- One round of the loop: an amount and what is left. -/
def takeAmount (s : List UInt8) : Except ParseError (UInt64 × List UInt8) := do
  let (v, f, scale, left) ← takeNumber s
  let (unit, rest) ← takeUnit left
  let n ← amountOf v f unit scale
  return (n, rest)

/-! ## The rounds get shorter -/

private theorem leadingInt_length : leadingInt x s = some (y, rest) → rest.length ≤ s.length := by
  induction s generalizing x with
  | nil =>
    rintro ⟨⟩
    exact le_rfl
  | cons c others ih =>
    unfold leadingInt
    split
    · rintro ⟨⟩
      exact le_rfl
    · split
      · exact nofun
      · dsimp only
        split
        · exact nofun
        · exact fun ran => (ih ran).trans (Nat.le_succ _)

private theorem leadingFraction_length (x : UInt64) (scale : Binary64) (overflow : Bool) (s : List UInt8) :
    (leadingFraction x scale overflow s).2.2.length ≤ s.length := by
  induction s generalizing x scale overflow with
  | nil => exact le_rfl
  | cons c rest ih =>
    unfold leadingFraction
    dsimp only
    split
    · exact le_rfl
    · split
      · exact (ih _ _ _).trans (Nat.le_succ _)
      · split
        · exact (ih _ _ _).trans (Nat.le_succ _)
        · split <;> exact (ih _ _ _).trans (Nat.le_succ _)

private theorem fractionPart_length (s : List UInt8) : (fractionPart s).2.2.1.length ≤ s.length := by
  unfold fractionPart
  split
  · exact le_rfl
  · split
    · exact (leadingFraction_length _ _ _ _).trans (Nat.le_succ _)
    · exact le_rfl

private theorem takeNumber_length (taken : takeNumber s = .ok (v, f, scale, left)) : left.length ≤ s.length := by
  unfold takeNumber at taken
  split at taken
  · cases taken
  · split at taken
    · cases taken
    · rename_i first rest leading
      dsimp only at taken
      split at taken
      · cases taken
      · cases taken
        exact (fractionPart_length rest).trans (leadingInt_length leading)

private theorem takeUnit_length (taken : takeUnit s = .ok (unit, rest)) : rest.length < s.length := by
  unfold takeUnit at taken
  split at taken
  · cases taken
  · rename_i named
    split at taken
    · cases taken
    · cases taken
      have whole := congrArg List.length (List.takeWhile_append_dropWhile (p := inUnit) (l := s))
      have some := List.length_pos_iff.mpr named
      rw [List.length_append] at whole
      omega

/-- A round takes the unit at least. -/
theorem takeAmount_length (taken : takeAmount s = .ok (n, rest)) : rest.length < s.length := by
  simp only [takeAmount, bind_eq_ok, pure_eq_ok] at taken
  obtain ⟨⟨v, f, scale, left⟩, number, ⟨unit, others⟩, named, amount, _, same⟩ := taken
  cases same
  exact (takeUnit_length named).trans_le (takeNumber_length number)

/-- The loop, after amounts of the sum `d`. -/
def addAmounts (d : UInt64) (s : List UInt8) : Except ParseError UInt64 :=
  if s = [] then .ok d
  else
    match _ : takeAmount s with
    | .error e => .error e
    | .ok (n, rest) => if signBit < d + n then .error .invalid else addAmounts (d + n) rest
termination_by s.length
decreasing_by exact takeAmount_length ‹_›

/-- `time.ParseDuration` -/
def parseDuration (s : List UInt8) : Except ParseError Int64 :=
  let neg := s.head? = some '-'.toUInt8
  let rest := if s.head? = some '-'.toUInt8 ∨ s.head? = some '+'.toUInt8 then s.tail else s
  if rest = bytes "0" then .ok 0
  else if rest = [] then .error .invalid
  else
    match addAmounts 0 rest with
    | .error e => .error e
    | .ok d =>
      if neg then .ok (-d.toInt64)
      else if signBit - 1 < d then .error .invalid
      else .ok d.toInt64

/-! ## Numbers -/

private theorem isDigit_iff : isDigit c = true ↔ IsDigit c := by
  rw [isDigit, Bool.and_eq_true, decide_eq_true_iff, decide_eq_true_iff, UInt8.le_iff_toNat_le, UInt8.le_iff_toNat_le]
  rfl

/-- What may follow a run of digits. -/
def Ends (s : List UInt8) : Prop := ∀ c ∈ s.head?, isDigit c = false

private theorem toNat_digit (digit : IsDigit c) (small : x.toNat ≤ 2 ^ 63 / 10) :
    (x * 10 + c.toUInt64 - '0'.toUInt8.toUInt64).toNat = 10 * x.toNat + (c.toNat - 48) := by
  obtain ⟨low, high⟩ := digit
  have ten : (10 : UInt64).toNat = 10 := rfl
  have zero : '0'.toUInt8.toUInt64.toNat = 48 := rfl
  have product : (x * 10).toNat = x.toNat * 10 := by
    rw [UInt64.toNat_mul, ten]
    omega
  have sum : (x * 10 + c.toUInt64).toNat = x.toNat * 10 + c.toNat := by
    rw [UInt64.toNat_add, product, UInt8.toNat_toUInt64]
    omega
  have enough : '0'.toUInt8.toUInt64 ≤ x * 10 + c.toUInt64 := by
    rw [UInt64.le_iff_toNat_le, sum, zero]
    omega
  rw [UInt64.toNat_sub_of_le _ _ enough, sum, zero]
  omega

/-- A run of digits is read to its value, if that is at most 2^63. -/
theorem leadingInt_digits (digits : ∀ c ∈ ds, IsDigit c) (ends : Ends rest) (small : x.toNat ≤ 2 ^ 63) :
    leadingInt x (ds ++ rest) =
      if valueAfter x.toNat ds ≤ 2 ^ 63 then some (.ofNat (valueAfter x.toNat ds), rest) else none := by
  have bit : signBit.toNat = 2 ^ 63 := rfl
  have tenth : (signBit / 10).toNat = 2 ^ 63 / 10 := rfl
  induction ds generalizing x with
  | nil =>
    have same : valueAfter x.toNat [] = x.toNat := rfl
    rw [same, if_pos small, UInt64.ofNat_toNat, List.nil_append]
    cases rest with
    | nil => rfl
    | cons c others =>
      have stop : isDigit c = false := ends c rfl
      rw [leadingInt, if_pos (by simp [stop])]
  | cons c others ih =>
    obtain ⟨first, more⟩ := List.forall_mem_cons.mp digits
    have grows := Strconv.le_valueAfter (10 * x.toNat + (c.toNat - 48)) others
    have unfolded : valueAfter x.toNat (c :: others) = valueAfter (10 * x.toNat + (c.toNat - 48)) others := rfl
    rw [List.cons_append, leadingInt, if_neg (by simp [isDigit_iff.mpr first]), unfolded]
    by_cases large : signBit / 10 < x
    · rw [UInt64.lt_iff_toNat_lt, tenth] at large
      rw [if_pos (by rw [UInt64.lt_iff_toNat_lt, tenth]; exact large), if_neg (by omega)]
    · rw [UInt64.lt_iff_toNat_lt, tenth, not_lt] at large
      have next := toNat_digit first large
      rw [if_neg (by rw [UInt64.lt_iff_toNat_lt, tenth]; omega)]
      dsimp only
      by_cases above : signBit < x * 10 + c.toUInt64 - '0'.toUInt8.toUInt64
      · rw [if_pos above, if_neg]
        rw [UInt64.lt_iff_toNat_lt, bit, next] at above
        omega
      · rw [if_neg above]
        rw [UInt64.lt_iff_toNat_lt, bit, next, not_lt] at above
        rw [ih more (by omega), next]

private theorem leadingFraction_append (digits : ∀ c ∈ ds, IsDigit c) (ends : Ends rest) :
    leadingFraction x scale overflow (ds ++ rest) =
      ((leadingFraction x scale overflow ds).1, (leadingFraction x scale overflow ds).2.1, rest) := by
  induction ds generalizing x scale overflow with
  | nil =>
    cases rest with
    | nil => rfl
    | cons c others =>
      have stop : isDigit c = false := ends c rfl
      simp [leadingFraction, stop]
  | cons c others ih =>
    obtain ⟨first, more⟩ := List.forall_mem_cons.mp digits
    simp only [List.cons_append, leadingFraction, isDigit_iff.mpr first, not_true, ↓reduceIte]
    split_ifs <;> exact ih more

/-! ## Fractions -/

/-- The integer is below the power of ten, which is exact as long as that matters. -/
private def Tracks (x : UInt64) (scale : Binary64) : Prop :=
  x.toNat ≤ 2 ^ 63 ∧ ((∃ k ≤ 19, scale = .finite (10 ^ k) ∧ x.toNat < 10 ^ k) ∨ scale.AtLeast (10 ^ 19))

private theorem in_range {q : ℚ} (small : q ≤ 2 ^ 200) : q < 2 ^ 1024 :=
  small.trans_lt (pow_lt_pow_right₀ one_lt_two (by norm_num))

private theorem Tracks.step (tracks : Tracks x scale) (digit : IsDigit c) (small : x.toNat ≤ 2 ^ 63 / 10)
    (fits : 10 * x.toNat + (c.toNat - 48) ≤ 2 ^ 63) :
    Tracks (x * 10 + c.toUInt64 - '0'.toUInt8.toUInt64) (scale.mul (.ofNat 10)) := by
  have value := toNat_digit digit small
  have ten : Binary64.ofNat 10 = .finite 10 := by decide +kernel
  refine ⟨by omega, ?_⟩
  rw [value, ten]
  rcases tracks.2 with ⟨k, few, rfl, below⟩ | large
  · rcases Nat.lt_or_eq_of_le few with fewer | rfl
    · have same : (10 : ℚ) ^ k * 10 = (5 ^ (k + 1) : ℕ) * 2 ^ (k + 1) := by
        push_cast
        rw [← mul_pow, ← pow_succ]
        norm_num
      have bits : 5 ^ (k + 1) < 2 ^ 53 := (Nat.pow_le_pow_right (by decide) fewer).trans_lt (by norm_num)
      have range : (10 : ℚ) ^ k * 10 < 2 ^ 1024 := by
        rw [← pow_succ]
        exact in_range ((pow_le_pow_right₀ (by norm_num) fewer).trans (by norm_num))
      obtain ⟨_, high⟩ := digit
      refine .inl ⟨k + 1, fewer, ?_, by omega⟩
      rw [Binary64.mul, pow_succ, same, Binary64.round_exact _ _ bits (same ▸ range)]
    · right
      exact Binary64.AtLeast.mul (.inr ⟨_, rfl, le_rfl⟩) (by norm_num) (by norm_num)
  · exact .inr (large.mul (by norm_num) (by norm_num))

private theorem leadingFraction_tracks (tracks : Tracks x scale) (digits : ∀ c ∈ ds, IsDigit c) :
    Tracks (leadingFraction x scale overflow ds).1 (leadingFraction x scale overflow ds).2.1 := by
  -- induction on the digits to come; those that do not fit change nothing
  induction ds generalizing x scale overflow with
  | nil => exact tracks
  | cons c rest ih =>
    obtain ⟨first, more⟩ := List.forall_mem_cons.mp digits
    have tenth : ((signBit - 1) / 10).toNat = 2 ^ 63 / 10 := rfl
    have bit : signBit.toNat = 2 ^ 63 := rfl
    simp only [leadingFraction, isDigit_iff.mpr first, not_true, ↓reduceIte]
    split_ifs with full large above
    · exact ih tracks more
    · exact ih tracks more
    · exact ih tracks more
    · rw [UInt64.lt_iff_toNat_lt, tenth, not_lt] at large
      rw [UInt64.lt_iff_toNat_lt, bit, toNat_digit first large, not_lt] at above
      exact ih (tracks.step first large above) more

private theorem fractionOf_le (tracks : Tracks f scale) (unit : UInt64) :
    (fractionOf f unit scale).toNat ≤ 16 * unit.toNat := by
  obtain ⟨w, large, one, below⟩ : ∃ w : ℚ, scale.AtLeast w ∧ 1 ≤ w ∧ (f.toNat : ℚ) ≤ w := by
    obtain ⟨small, ⟨k, _, rfl, below⟩ | large⟩ := tracks
    · exact ⟨10 ^ k, .inr ⟨_, rfl, le_rfl⟩, one_le_pow₀ (by norm_num), by exact_mod_cast below.le⟩
    · have bound : (f.toNat : ℚ) ≤ 2 ^ 63 := by exact_mod_cast small
      exact ⟨10 ^ 19, large, by norm_num, bound.trans (by norm_num)⟩
  have word (n : UInt64) : (n.toNat : ℚ) ≤ 2 ^ 64 := by exact_mod_cast n.toNat_lt.le
  have positive : 0 < w := by linarith
  have shrunk : (unit.toNat : ℚ) / w ≤ unit.toNat := div_le_self (Nat.cast_nonneg _) one
  have numerator : (Binary64.ofNat f.toNat).AtMost (2 * f.toNat) :=
    Binary64.round_atMost (Nat.cast_nonneg _) le_rfl (in_range (by linarith [word f]))
  have whole : (Binary64.ofNat unit.toNat).AtMost (2 * unit.toNat) :=
    Binary64.round_atMost (Nat.cast_nonneg _) le_rfl (in_range (by linarith [word unit]))
  have place : ((Binary64.ofNat unit.toNat).div scale).AtMost (2 * (2 * unit.toNat / w)) :=
    whole.div large positive (in_range (by rw [mul_div_assoc]; linarith [word unit]))
  have product : 2 * (2 * f.toNat * (2 * (2 * unit.toNat / w))) ≤ ((16 * unit.toNat : ℕ) : ℚ) := by
    have part : f.toNat * (unit.toNat / w) ≤ (unit.toNat : ℚ) := by
      rw [mul_div_left_comm]
      exact mul_le_of_le_one_right (Nat.cast_nonneg _) ((div_le_one positive).mpr below)
    push_cast
    rw [mul_div_assoc]
    linarith
  have amount := numerator.mul place (in_range (product.trans (by push_cast; linarith [word unit])))
  exact (amount.mono product).toUInt64

/-! ## Amounts -/

/-- The digits of an amount, its fraction and its unit. -/
structure Amount where
  whole : List UInt8
  fraction : Option (List UInt8)
  unit : List UInt8

namespace Amount

def spell (a : Amount) : List UInt8 := a.whole ++ (a.fraction.elim [] (point :: ·) ++ a.unit)

structure Formed (a : Amount) : Prop where
  nonempty : a.whole ≠ []
  whole : ∀ c ∈ a.whole, IsDigit c
  fraction : ∀ ds ∈ a.fraction, ∀ c ∈ ds, IsDigit c
  unit : (unitMap.lookup a.unit).isSome

/-- The worth of the unit in nanoseconds. -/
def worth (a : Amount) : UInt64 := (unitMap.lookup a.unit).getD 0

/-- The digits after the point that count, and the power of ten under them. -/
def decimals (a : Amount) : UInt64 × Binary64 :=
  match a.fraction with
  | none => (0, .finite 1)
  | some ds => ((leadingFraction 0 (.finite 1) false ds).1, (leadingFraction 0 (.finite 1) false ds).2.1)

/-- The amount in whole nanoseconds, the fraction of the unit rounded as doubles are and cut off. -/
def nanoseconds (a : Amount) : ℕ :=
  valueAfter 0 a.whole * a.worth.toNat + (if 0 < a.decimals.1 then fractionOf a.decimals.1 a.worth a.decimals.2 else 0).toNat

end Amount

private theorem unitMap_entries : ∀ entry ∈ unitMap, entry.1 ≠ [] ∧ (∀ c ∈ entry.1, inUnit c = true) ∧
    0 < entry.2.toNat ∧ entry.2.toNat ≤ 3600000000000 := by
  decide +kernel

namespace Amount

private theorem Formed.entry {a : Amount} (formed : a.Formed) : unitMap.lookup a.unit = some a.worth ∧ a.unit ≠ [] ∧
    (∀ c ∈ a.unit, inUnit c = true) ∧ 0 < a.worth.toNat ∧ a.worth.toNat ≤ 3600000000000 := by
  obtain ⟨unit, found⟩ := Option.isSome_iff_exists.mp formed.unit
  have same : a.worth = unit := by rw [worth, found, Option.getD_some]
  obtain ⟨front, back, split, _⟩ := List.lookup_eq_some_iff.mp found
  have listed : (a.unit, unit) ∈ unitMap := split ▸ List.mem_append_right _ List.mem_cons_self
  rw [same]
  exact ⟨found, unitMap_entries _ listed⟩

private theorem decimals_tracks {a : Amount} (formed : a.Formed) : Tracks a.decimals.1 a.decimals.2 := by
  have zero : Tracks 0 (.finite 1) := ⟨by decide, .inl ⟨0, by decide, by rw [pow_zero], by decide⟩⟩
  unfold decimals
  split
  · exact zero
  · rename_i ds held
    exact leadingFraction_tracks zero (formed.fraction ds held)

end Amount

/-- What may follow the unit: the next amount or nothing. -/
def Apart (s : List UInt8) : Prop := ∀ c ∈ s.head?, inUnit c = false

private theorem takeUnit_spell {a : Amount} (formed : a.Formed) (apart : Apart rest) :
    takeUnit (a.unit ++ rest) = .ok (a.worth, rest) := by
  obtain ⟨found, named, letters, _⟩ := formed.entry
  have stop : rest.takeWhile inUnit = [] ∧ rest.dropWhile inUnit = rest := by
    cases rest with
    | nil => exact ⟨rfl, rfl⟩
    | cons c others =>
      have next : inUnit c = false := apart c rfl
      exact ⟨by rw [List.takeWhile_cons, next]; rfl, by rw [List.dropWhile_cons, next]; rfl⟩
  have taken : (a.unit ++ rest).takeWhile inUnit = a.unit := by
    rw [List.takeWhile_append_of_pos letters, stop.1, List.append_nil]
  have left : (a.unit ++ rest).dropWhile inUnit = rest := by
    rw [List.dropWhile_append_of_pos letters, stop.2]
  rw [takeUnit, taken, if_neg named, found, left]

private theorem ends_of_inUnit (next : ∀ c ∈ s.head?, inUnit c = true) : Ends s := by
  intro c held
  have letter := next c held
  simp only [inUnit, not_or, Bool.not_eq_true, decide_eq_true_eq] at letter
  exact letter.2

private theorem fractionPart_spell {a : Amount} (formed : a.Formed) (named : rest ≠ [])
    (next : ∀ c ∈ rest.head?, inUnit c = true) :
    ∃ post, fractionPart (a.fraction.elim [] (point :: ·) ++ rest) = (a.decimals.1, a.decimals.2, rest, post) := by
  obtain ⟨whole, fraction, unit⟩ := a
  cases fraction with
  | none =>
    obtain ⟨c, others, rfl⟩ := List.exists_cons_of_ne_nil named
    have letter := next c rfl
    simp only [inUnit, not_or, decide_eq_true_eq] at letter
    exact ⟨false, by simp [fractionPart, letter.1, Amount.decimals]⟩
  | some ds =>
    have digits := formed.fraction ds rfl
    refine ⟨decide ((ds ++ rest).length ≠ rest.length), ?_⟩
    simp [fractionPart, Amount.decimals, leadingFraction_append digits (ends_of_inUnit next)]

private theorem takeNumber_spell {a : Amount} (formed : a.Formed) (named : rest ≠ [])
    (next : ∀ c ∈ rest.head?, inUnit c = true) :
    takeNumber (a.whole ++ (a.fraction.elim [] (point :: ·) ++ rest)) =
      if valueAfter 0 a.whole ≤ 2 ^ 63 then .ok (.ofNat (valueAfter 0 a.whole), a.decimals.1, a.decimals.2, rest)
      else .error .invalid := by
  obtain ⟨post, fraction⟩ := fractionPart_spell formed named next
  obtain ⟨digit, digits, whole⟩ := List.exists_cons_of_ne_nil formed.nonempty
  have front : inUnit digit = false := by
    have first := isDigit_iff.mpr (formed.whole digit (whole ▸ List.mem_cons_self))
    simp [inUnit, first]
  have ends : Ends (a.fraction.elim [] (point :: ·) ++ rest) := by
    cases a.fraction with
    | none => exact ends_of_inUnit next
    | some ds =>
      rintro c ⟨⟩
      rfl
  have zero : (0 : UInt64).toNat = 0 := rfl
  have read := leadingInt_digits formed.whole ends (show (0 : UInt64).toNat ≤ 2 ^ 63 by decide)
  rw [zero] at read
  have head : (a.whole ++ (a.fraction.elim [] (point :: ·) ++ rest)).head? = some digit := by rw [whole]; rfl
  have some : (a.whole ++ (a.fraction.elim [] (point :: ·) ++ rest)).length ≠
      (a.fraction.elim [] (point :: ·) ++ rest).length := by
    have positive := List.length_pos_iff.mpr formed.nonempty
    rw [List.length_append]
    omega
  rw [takeNumber, head, Option.map_some, Option.getD_some, front, if_neg (by decide), read]
  split
  · rename_i same
    split at same
    · cases same
    · rename_i large
      rw [if_neg large]
  · rename_i same
    split at same
    · rename_i small
      cases same
      simp only [fraction, some, not_true, ne_eq, not_false_eq_true, false_and, ↓reduceIte, small]
    · cases same

private theorem signBit_lt {n : UInt64} : signBit < n ↔ ¬ n.toNat ≤ 2 ^ 63 := by
  rw [UInt64.lt_iff_toNat_lt, not_le]
  rfl

private theorem amountOf_spell {a : Amount} (formed : a.Formed) (small : valueAfter 0 a.whole ≤ 2 ^ 63) :
    amountOf (.ofNat (valueAfter 0 a.whole)) a.decimals.1 a.worth a.decimals.2 =
      if a.nanoseconds ≤ 2 ^ 63 then .ok (.ofNat a.nanoseconds) else .error .invalid := by
  obtain ⟨_, _, _, positive, bounded⟩ := formed.entry
  have fraction := fractionOf_le (Amount.decimals_tracks formed) a.worth
  have word : valueAfter 0 a.whole < 2 ^ 64 := by omega
  have value : (UInt64.ofNat (valueAfter 0 a.whole)).toNat = valueAfter 0 a.whole := UInt64.toNat_ofNat_of_lt' word
  have bit : signBit.toNat = 2 ^ 63 := rfl
  have zero : (0 : UInt64).toNat = 0 := rfl
  have fits : signBit / a.worth < .ofNat (valueAfter 0 a.whole) ↔ 2 ^ 63 < valueAfter 0 a.whole * a.worth.toNat := by
    rw [UInt64.lt_iff_toNat_lt, UInt64.toNat_div, value, bit, Nat.div_lt_iff_lt_mul positive]
  rw [amountOf, Amount.nanoseconds]
  by_cases large : signBit / a.worth < .ofNat (valueAfter 0 a.whole)
  · rw [if_pos large, if_neg]
    have above := fits.mp large
    omega
  · have below := not_lt.mp (mt fits.mpr large)
    have product : (UInt64.ofNat (valueAfter 0 a.whole) * a.worth).toNat = valueAfter 0 a.whole * a.worth.toNat := by
      rw [UInt64.toNat_mul, value, Nat.mod_eq_of_lt (by omega)]
    rw [if_neg large]
    by_cases some : 0 < a.decimals.1
    · have sum : (UInt64.ofNat (valueAfter 0 a.whole) * a.worth + fractionOf a.decimals.1 a.worth a.decimals.2).toNat =
          valueAfter 0 a.whole * a.worth.toNat + (fractionOf a.decimals.1 a.worth a.decimals.2).toNat := by
        rw [UInt64.toNat_add, product, Nat.mod_eq_of_lt (by omega)]
      rw [if_pos some, if_pos some, ← sum, UInt64.ofNat_toNat]
      by_cases above : signBit < .ofNat (valueAfter 0 a.whole) * a.worth + fractionOf a.decimals.1 a.worth a.decimals.2
      · rw [if_pos above, if_neg (signBit_lt.mp above)]
      · rw [if_neg above, if_pos (not_not.mp (mt signBit_lt.mpr above))]
    · rw [if_neg some, if_neg some, zero, Nat.add_zero, if_pos below, ← product, UInt64.ofNat_toNat]

theorem takeAmount_spell {a : Amount} (formed : a.Formed) (apart : Apart rest) :
    takeAmount (a.spell ++ rest) =
      if a.nanoseconds ≤ 2 ^ 63 then .ok (.ofNat a.nanoseconds, rest) else .error .invalid := by
  obtain ⟨_, named, letters, positive, _⟩ := formed.entry
  have next : ∀ c ∈ (a.unit ++ rest).head?, inUnit c = true := by
    obtain ⟨c, others, unit⟩ := List.exists_cons_of_ne_nil named
    rw [unit]
    rintro d ⟨⟩
    exact letters c (unit ▸ List.mem_cons_self)
  have number := takeNumber_spell formed (List.append_ne_nil_of_left_ne_nil named rest) next
  have spelled : a.spell ++ rest = a.whole ++ (a.fraction.elim [] (point :: ·) ++ (a.unit ++ rest)) := by
    simp [Amount.spell]
  rw [takeAmount, spelled, number]
  by_cases small : valueAfter 0 a.whole ≤ 2 ^ 63
  · rw [if_pos small, ok_bind]
    dsimp only
    rw [takeUnit_spell formed apart, ok_bind]
    dsimp only
    rw [amountOf_spell formed small]
    split <;> rfl
  · have grows : valueAfter 0 a.whole ≤ valueAfter 0 a.whole * a.worth.toNat := Nat.le_mul_of_pos_right _ positive
    rw [if_neg small, if_neg (by unfold Amount.nanoseconds; omega)]
    rfl

/-! ## Sums -/

/-- The running sum of 64 bits never passes 2^63; an amount of 2^63 on a sum of 2^63 takes it back to nothing. -/
def Fits (start : ℕ) (amounts : List ℕ) : Prop :=
  (∀ n ∈ amounts, n ≤ 2 ^ 63) ∧ ∀ front, front <+: amounts → (start + front.sum) % 2 ^ 64 ≤ 2 ^ 63

private theorem fits_cons : Fits start (n :: rest) ↔ n ≤ 2 ^ 63 ∧ start % 2 ^ 64 ≤ 2 ^ 63 ∧ Fits (start + n) rest := by
  simp only [Fits, List.forall_mem_cons, List.prefix_cons_iff]
  constructor
  · rintro ⟨⟨first, others⟩, fronts⟩
    refine ⟨first, fronts [] (.inl rfl), others, fun front held => ?_⟩
    have sum := fronts (n :: front) (.inr ⟨front, rfl, held⟩)
    rwa [List.sum_cons, ← Nat.add_assoc] at sum
  · rintro ⟨first, before, others, fronts⟩
    refine ⟨⟨first, others⟩, ?_⟩
    rintro front (rfl | ⟨rest, rfl, held⟩)
    · exact before
    · rw [List.sum_cons, ← Nat.add_assoc]
      exact fronts rest held

private theorem apart_spell {amounts : List Amount} (formed : ∀ a ∈ amounts, a.Formed) :
    Apart (amounts.flatMap Amount.spell) := by
  cases amounts with
  | nil => exact nofun
  | cons a rest =>
    have first := formed a List.mem_cons_self
    obtain ⟨digit, digits, whole⟩ := List.exists_cons_of_ne_nil first.nonempty
    rw [List.flatMap_cons, Amount.spell, whole]
    rintro c ⟨⟩
    simp [inUnit, isDigit_iff.mpr (first.whole digit (whole ▸ List.mem_cons_self))]

/-- Induction on the amounts to come; the sum so far is the exact one modulo 2^64. -/
theorem addAmounts_spell {amounts : List Amount} (formed : ∀ a ∈ amounts, a.Formed) (same : d.toNat = start % 2 ^ 64)
    (small : d.toNat ≤ 2 ^ 63) : addAmounts d (amounts.flatMap Amount.spell) = .ok total ↔
      Fits start (amounts.map Amount.nanoseconds) ∧
        total.toNat = (start + (amounts.map Amount.nanoseconds).sum) % 2 ^ 64 := by
  induction amounts generalizing d start with
  | nil =>
    have nothing : Fits start [] := ⟨nofun, fun front held => by rw [List.prefix_nil.mp held]; exact same ▸ small⟩
    rw [List.flatMap_nil, addAmounts, if_pos rfl, Except.ok.injEq, eq_comm, ← UInt64.toNat_inj, same]
    exact (and_iff_right nothing).symm
  | cons a rest ih =>
    obtain ⟨first, others⟩ := List.forall_mem_cons.mp formed
    have some : (a :: rest).flatMap Amount.spell ≠ [] := by
      rw [List.flatMap_cons, Amount.spell]
      simp [first.nonempty]
    have taken := takeAmount_spell first (apart_spell others)
    rw [List.map_cons, fits_cons, List.sum_cons, ← Nat.add_assoc, addAmounts, if_neg some, List.flatMap_cons, taken]
    by_cases fits : a.nanoseconds ≤ 2 ^ 63
    · have word : a.nanoseconds < 2 ^ 64 := by omega
      have sum : (d + .ofNat a.nanoseconds).toNat = (start + a.nanoseconds) % 2 ^ 64 := by
        rw [UInt64.toNat_add, UInt64.toNat_ofNat_of_lt' word, same]
        omega
      rw [if_pos fits]
      dsimp only
      by_cases above : signBit < d + .ofNat a.nanoseconds
      · have passed := signBit_lt.mp above
        rw [sum] at passed
        rw [if_pos above]
        refine iff_of_false nofun fun held => passed ?_
        simpa using held.1.2.2.2 [] List.nil_prefix
      · rw [if_neg above, ih others sum (not_not.mp (mt signBit_lt.mpr above))]
        simp only [fits, true_and, same ▸ small]
    · rw [if_neg fits]
      simp only [fits, false_and, reduceCtorEq]

/-- What the sum of the amounts has to be for a duration of at least a nanosecond. -/
def Positive (amounts : List ℕ) : Prop :=
  Fits 0 amounts ∧ 1 ≤ amounts.sum % 2 ^ 64 ∧ amounts.sum % 2 ^ 64 < 2 ^ 63

/-- Up to the greatest duration, only their sum matters. -/
theorem positive_iff (small : amounts.sum < 2 ^ 63) : Positive amounts ↔ 1 ≤ amounts.sum := by
  have fits : Fits 0 amounts := by
    constructor
    · intro n held
      obtain ⟨front, back, rfl⟩ := List.append_of_mem held
      rw [List.sum_append, List.sum_cons] at small
      omega
    · rintro front ⟨back, rfl⟩
      rw [List.sum_append] at small
      omega
  rw [Positive, and_iff_right fits, Nat.mod_eq_of_lt (small.trans (by decide)), and_iff_left small]

/-- Amounts with units are a positive duration exactly when their sum is. -/
theorem parseDuration_spell {amounts : List Amount} (formed : ∀ a ∈ amounts, a.Formed) (some : amounts ≠ []) :
    (∃ d, parseDuration (amounts.flatMap Amount.spell) = .ok d ∧ 0 < d) ↔
      Positive (amounts.map Amount.nanoseconds) := by
  obtain ⟨a, rest, rfl⟩ := List.exists_cons_of_ne_nil some
  obtain ⟨first, _⟩ := List.forall_mem_cons.mp formed
  obtain ⟨digit, digits, whole⟩ := List.exists_cons_of_ne_nil first.nonempty
  have numeral : IsDigit digit := first.whole digit (whole ▸ List.mem_cons_self)
  obtain ⟨_, named, _⟩ := first.entry
  have head : ((a :: rest).flatMap Amount.spell).head? = Option.some digit := by
    rw [List.flatMap_cons, Amount.spell, whole]
    rfl
  have minus : digit ≠ '-'.toUInt8 := by
    rintro rfl
    exact absurd numeral.1 (by decide)
  have plus : digit ≠ '+'.toUInt8 := by
    rintro rfl
    exact absurd numeral.1 (by decide)
  have zero : (a :: rest).flatMap Amount.spell ≠ bytes "0" := by
    intro same
    have one : (bytes "0").length = 1 := by decide
    have unit := List.length_pos_iff.mpr named
    have number := List.length_pos_iff.mpr first.nonempty
    rw [← same, List.flatMap_cons, Amount.spell] at one
    simp only [List.length_append] at one
    omega
  have sums : ∀ total, addAmounts 0 ((a :: rest).flatMap Amount.spell) = .ok total ↔
      Fits 0 ((a :: rest).map Amount.nanoseconds) ∧
        total.toNat = (0 + ((a :: rest).map Amount.nanoseconds).sum) % 2 ^ 64 := fun total =>
    addAmounts_spell formed rfl (by decide)
  have spelled : (a :: rest).flatMap Amount.spell ≠ [] := by
    intro none
    rw [none] at head
    cases head
  rw [Nat.zero_add] at sums
  rw [parseDuration]
  simp only [head, Option.some.injEq, minus, plus, or_self, ↓reduceIte, zero, spelled]
  rw [Positive]
  cases added : addAmounts 0 ((a :: rest).flatMap Amount.spell) with
  | error e =>
    refine iff_of_false (by simp) fun held => ?_
    have total := (sums (.ofNat (((a :: rest).map Amount.nanoseconds).sum % 2 ^ 64))).mpr
      ⟨held.1, UInt64.toNat_ofNat_of_lt' (Nat.mod_lt _ (by decide))⟩
    rw [total] at added
    cases added
  | ok total =>
    obtain ⟨fits, same⟩ := (sums total).mp added
    have limit : (signBit - 1).toNat = 2 ^ 63 - 1 := rfl
    rw [and_iff_right fits, ← same]
    dsimp only
    by_cases above : signBit - 1 < total
    · rw [if_pos above]
      rw [UInt64.lt_iff_toNat_lt, limit] at above
      exact iff_of_false (by simp) (by omega)
    · rw [if_neg above]
      rw [UInt64.lt_iff_toNat_lt, limit] at above
      have value : total.toInt64.toInt = total.toNat := by
        have cast := Int64.toInt_ofNat_of_lt (show total.toNat < 2 ^ 63 by omega)
        rwa [← UInt64.toInt64_ofNat', UInt64.ofNat_toNat] at cast
      have sign : (0 : Int64) < total.toInt64 ↔ 1 ≤ total.toNat := by
        have none : (0 : Int64).toInt = 0 := rfl
        rw [Int64.lt_iff_toInt_lt, value, none]
        omega
      simp only [Except.ok.injEq, exists_eq_left', sign]
      omega

end Library.Duration
