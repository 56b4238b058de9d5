import Mathlib.Data.List.TakeWhile
import HermesHey.Library.Duration
import HermesHey.Library.JsonWritable

/-! The interval between polls, in its two readings: `hey_platform/plugin.py`
checks the setting with a regular expression and floats, and `sidecar/app.go`
parses the flag as a duration of 64-bit nanoseconds. -/
namespace HermesHey.PollInterval
open Library Library.Json Library.Duration

/-! ## The setting -/

/-- The units of the pattern, in its order; the micro sign is the one of Latin-1. -/
def units : List Text :=
  [text "ns", text "us", text "\u00b5s", text "ms", text "s", text "m", text "h"]

/-- One repetition of the pattern `[0-9]+(?:\.[0-9]+)?` with its unit. -/
structure Component where
  whole : Text
  fraction : Option Text
  unit : Text
  deriving DecidableEq, Repr

/-- `(?:\.[0-9]+)?` -/
def matchFraction : Text → Option Text × Text
  | ch '.' :: rest =>
    if (spanDigits rest).1 = [] then (none, ch '.' :: rest)
    else (some (spanDigits rest).1, (spanDigits rest).2)
  | t => (none, t)

/-- One repetition. Giving a digit back never helps: no unit starts with one. -/
def matchComponent (t : Text) : Option (Component × Text) :=
  if (spanDigits t).1 = [] then none
  else
    let matched := matchFraction (spanDigits t).2
    (units.find? (·.isPrefixOf matched.2)).map fun unit =>
      ({ whole := (spanDigits t).1, fraction := matched.1, unit }, matched.2.drop unit.length)

namespace Component

def spell (c : Component) : Text := c.whole ++ (c.fraction.elim [] (ch '.' :: ·) ++ c.unit)

/-- What the pattern asks of a repetition. -/
structure Formed (c : Component) : Prop where
  nonempty : c.whole ≠ []
  whole : ∀ p ∈ c.whole, p.isDigit = true
  fraction : ∀ ds ∈ c.fraction, ds ≠ [] ∧ ∀ p ∈ ds, p.isDigit = true
  unit : c.unit ∈ units

/-- `float(amount)` -/
def amount (c : Component) : Binary64 :=
  .round (digitsValue c.whole + c.fraction.elim 0 fun ds : Text => (digitsValue ds / 10 ^ ds.length : ℚ))

end Component

private theorem spanDigits_append (t : Text) : (spanDigits t).1 ++ (spanDigits t).2 = t :=
  List.takeWhile_append_dropWhile

private theorem spanDigits_isDigit (t : Text) : ∀ p ∈ (spanDigits t).1, p.isDigit = true :=
  fun _ held => List.mem_takeWhile_imp held

private theorem matchFraction_sound (t : Text) :
    (matchFraction t).1.elim [] (ch '.' :: ·) ++ (matchFraction t).2 = t ∧
      ∀ ds ∈ (matchFraction t).1, ds ≠ [] ∧ ∀ p ∈ ds, p.isDigit = true := by
  unfold matchFraction
  split
  · rename_i rest
    split
    · exact ⟨rfl, nofun⟩
    · rename_i some
      refine ⟨congrArg (ch '.' :: ·) (spanDigits_append rest), ?_⟩
      rintro ds ⟨⟩
      exact ⟨some, spanDigits_isDigit rest⟩
  · exact ⟨rfl, nofun⟩

/-- What is matched is a repetition of the pattern in front of what is left. -/
theorem matchComponent_sound (matched : matchComponent t = some (c, rest)) : c.Formed ∧ c.spell ++ rest = t := by
  unfold matchComponent at matched
  split at matched
  · cases matched
  · rename_i some
    obtain ⟨spelled, digits⟩ := matchFraction_sound (spanDigits t).2
    obtain ⟨unit, found, same⟩ := Option.map_eq_some_iff.mp matched
    obtain ⟨rfl, rfl⟩ := Prod.mk.inj same
    have front : unit.isPrefixOf (matchFraction (spanDigits t).2).2 = true := by
      simpa using List.find?_some found
    refine ⟨⟨some, spanDigits_isDigit t, digits, List.mem_of_find?_eq_some found⟩, ?_⟩
    have parts := List.prefix_iff_eq_append.mp (List.isPrefixOf_iff_prefix.mp front)
    rw [Component.spell, List.append_assoc, List.append_assoc, parts, spelled, spanDigits_append]

private theorem matchComponent_length (matched : matchComponent t = some (c, rest)) : rest.length < t.length := by
  obtain ⟨formed, spelled⟩ := matchComponent_sound matched
  have some := List.length_pos_iff.mpr formed.nonempty
  have whole := congrArg List.length spelled
  rw [Component.spell, List.length_append, List.length_append] at whole
  omega

/-- The repetitions of a string that the pattern matches as a whole. -/
def matchComponents (t : Text) : Option (List Component) :=
  match _ : matchComponent t with
  | none => none
  | some (c, rest) => if rest = [] then some [c] else (matchComponents rest).map (c :: ·)
termination_by t.length
decreasing_by exact matchComponent_length ‹_›

/-- `_valid_poll_interval` -/
def validPollInterval : Value → Bool
  | .str value => (matchComponents value).elim false fun components => components.any (·.amount.positive)
  | _ => false

/-- Induction on the length of what is left. -/
theorem matchComponents_sound (matched : matchComponents t = some components) :
    components ≠ [] ∧ (∀ c ∈ components, c.Formed) ∧ components.flatMap Component.spell = t := by
  fun_induction matchComponents t generalizing components with
  | case1 => cases matched
  | case2 t c one =>
    cases matched
    obtain ⟨formed, spelled⟩ := matchComponent_sound one
    exact ⟨by simp, by simpa using formed, by simpa using spelled⟩
  | case3 t c rest one some ih =>
    obtain ⟨others, found, rfl⟩ := Option.map_eq_some_iff.mp matched
    obtain ⟨formed, spelled⟩ := matchComponent_sound one
    obtain ⟨_, more, left⟩ := ih found
    exact ⟨by simp, List.forall_mem_cons.mpr ⟨formed, more⟩, by rw [List.flatMap_cons, left, spelled]⟩

private theorem find_unit {unit : Text} (listed : unit ∈ units)
    (ahead : ∀ p ∈ rest.head?, CodePoint.isDigit p = true) :
    units.find? (·.isPrefixOf (unit ++ rest)) = some unit := by
  cases rest with
  | nil =>
    simp only [units, List.mem_cons, List.not_mem_nil, or_false] at listed
    rcases listed with rfl | rfl | rfl | rfl | rfl | rfl | rfl <;> decide
  | cons p others =>
    have other : (ch 's' == p) = false := by
      rw [beq_eq_false_iff_ne]
      rintro rfl
      exact absurd (ahead (ch 's') rfl) (by decide)
    simp only [units, List.mem_cons, List.not_mem_nil, or_false] at listed
    rcases listed with rfl | rfl | rfl | rfl | rfl | rfl | rfl <;>
      simp [units, text, List.find?, List.isPrefixOf, other] <;> rfl

private theorem matchFraction_spell {fraction : Option Text}
    (digits : ∀ ds ∈ fraction, ds ≠ [] ∧ ∀ p ∈ ds, CodePoint.isDigit p = true) (ahead : NoDigitAhead rest)
    (unit : rest.head? ≠ some (ch '.')) :
    matchFraction (fraction.elim [] (ch '.' :: ·) ++ rest) = (fraction, rest) := by
  cases fraction with
  | none =>
    unfold matchFraction
    split
    · rename_i same
      rw [Option.elim_none, List.nil_append] at same
      exact absurd (congrArg List.head? same) unit
    · rfl
  | some ds =>
    obtain ⟨some, numeral⟩ := digits ds rfl
    have read := spanDigits_digits numeral ahead
    simp [matchFraction, read, some]

private theorem unit_head {unit : Text} (listed : unit ∈ units) :
    NoDigitAhead (unit ++ rest) ∧ (unit ++ rest).head? ≠ some (ch '.') := by
  simp only [units, List.mem_cons, List.not_mem_nil, or_false] at listed
  rcases listed with rfl | rfl | rfl | rfl | rfl | rfl | rfl <;> simp [text] <;> decide

private theorem matchComponent_spell {c : Component} (formed : c.Formed)
    (ahead : ∀ p ∈ rest.head?, CodePoint.isDigit p = true) :
    matchComponent (c.spell ++ rest) = some (c, rest) := by
  obtain ⟨noDigit, noPoint⟩ : NoDigitAhead (c.unit ++ rest) ∧ (c.unit ++ rest).head? ≠ some (ch '.') :=
    unit_head formed.unit
  have fraction := matchFraction_spell formed.fraction noDigit noPoint
  have ends : NoDigitAhead (c.fraction.elim [] (ch '.' :: ·) ++ (c.unit ++ rest)) := by
    cases c.fraction with
    | none => exact noDigit
    | some ds => exact noDigitAhead_cons.mpr rfl
  have spelled : c.spell ++ rest = c.whole ++ (c.fraction.elim [] (ch '.' :: ·) ++ (c.unit ++ rest)) := by
    simp [Component.spell]
  rw [matchComponent, spelled, spanDigits_digits formed.whole ends, if_neg formed.nonempty]
  simp [fraction, find_unit formed.unit ahead]

/-- The repetitions are found as they were written. -/
theorem matchComponents_spell {components : List Component} (formed : ∀ c ∈ components, c.Formed)
    (named : components ≠ []) : matchComponents (components.flatMap Component.spell) = some components := by
  induction components with
  | nil => exact absurd rfl named
  | cons c rest ih =>
    obtain ⟨first, others⟩ := List.forall_mem_cons.mp formed
    have ahead : ∀ p ∈ (rest.flatMap Component.spell).head?, CodePoint.isDigit p = true := by
      cases rest with
      | nil => exact nofun
      | cons next more =>
        have following := others next List.mem_cons_self
        obtain ⟨digit, digits, whole⟩ := List.exists_cons_of_ne_nil following.nonempty
        rw [List.flatMap_cons, Component.spell, whole]
        rintro p ⟨⟩
        exact following.whole digit (whole ▸ List.mem_cons_self)
    rw [List.flatMap_cons, matchComponents, matchComponent_spell first ahead]
    cases rest with
    | nil => rfl
    | cons next more =>
      have following := others next List.mem_cons_self
      have left : (next :: more).flatMap Component.spell ≠ [] := by
        rw [List.flatMap_cons, Component.spell]
        simp [following.nonempty]
      dsimp only
      rw [if_neg left, ih others (by simp), Option.map_some]

/-! ## The flag -/

/-- The bytes of a string in UTF-8, as far as it is text. -/
def utf8 (t : Text) : List UInt8 :=
  t.flatMap fun
    | .scalar c => String.utf8EncodeChar c
    | .surrogate _ => []

private theorem encode_utf8 (encoded : t.encode = some argument) : argument.data.toList = utf8 t := by
  obtain ⟨chars, scalars, rfl⟩ := Option.map_eq_some_iff.mp encoded
  rw [Text.mapM_scalar_eq_some.mp scalars, String.toByteArray_ofList]
  clear encoded scalars
  induction chars with
  | nil => rfl
  | cons c rest ih =>
    rw [List.utf8Encode_cons, List.utf8Encode_singleton, ByteArray.toList_data_append, ih, List.toList_data_toByteArray]
    rfl

private theorem utf8_append (s t : Text) : utf8 (s ++ t) = utf8 s ++ utf8 t := List.flatMap_append

private theorem utf8_digits (digits : ∀ p ∈ ds, CodePoint.isDigit p = true) :
    (utf8 ds).length = ds.length ∧ ∀ c ∈ utf8 ds, Strconv.IsDigit c := by
  obtain ⟨chars, rfl, numeral⟩ := digits_chars digits
  have ascii : utf8 (chars.map ch) = chars.map Char.toUInt8 := by
    clear digits
    induction chars with
    | nil => rfl
    | cons c rest ih =>
      obtain ⟨first, others⟩ := List.forall_mem_cons.mp numeral
      have range := isDigit_range first
      have single := Strconv.utf8EncodeChar_ascii (show c.toNat < 128 by omega)
      rw [List.map_cons, List.map_cons, ← ih others, utf8, List.flatMap_cons]
      simp only [single]
      rfl
  rw [ascii]
  refine ⟨by simp, List.forall_mem_map.mpr fun c held => ?_⟩
  have range := isDigit_range (numeral c held)
  rw [Strconv.IsDigit, Strconv.toNat_toUInt8 (by omega)]
  exact range

/-- The repetition as the sidecar reads it. -/
def Component.toAmount (c : Component) : Amount where
  whole := utf8 c.whole
  fraction := c.fraction.map utf8
  unit := utf8 c.unit

/-- Every unit of the pattern is one of durations. -/
theorem Component.Formed.toAmount {c : Component} (formed : c.Formed) : c.toAmount.Formed where
  nonempty := by
    have positive := List.length_pos_iff.mpr formed.nonempty
    rw [← (utf8_digits formed.whole).1] at positive
    exact List.length_pos_iff.mp positive
  whole := (utf8_digits formed.whole).2
  fraction := by
    intro ds held
    obtain ⟨digits, inside, rfl⟩ := Option.map_eq_some_iff.mp held
    exact (utf8_digits (formed.fraction digits inside).2).2
  unit := by
    have known : ∀ unit ∈ units, (unitMap.lookup (utf8 unit)).isSome = true := by decide
    exact known c.unit formed.unit

private theorem utf8_spell (components : List Component) :
    utf8 (components.flatMap Component.spell) = (components.map Component.toAmount).flatMap Amount.spell := by
  induction components with
  | nil => rfl
  | cons c rest ih =>
    have one : utf8 c.spell = c.toAmount.spell := by
      obtain ⟨whole, fraction, unit⟩ := c
      have dot (digits : Text) : utf8 (ch '.' :: digits) = point :: utf8 digits := rfl
      cases fraction <;> simp [Component.spell, Amount.spell, Component.toAmount, utf8_append, dot]
    rw [List.flatMap_cons, utf8_append, ih, one, List.map_cons, List.flatMap_cons]

/-- `run` on the interval of the watch mode: `flag.Duration`, and what is not positive is refused. -/
def watchInterval (argument : List UInt8) : Except String Int64 :=
  match parseDuration argument with
  | .error _ => .error "invalid watch arguments"
  | .ok interval => if interval ≤ 0 then .error "invalid watch arguments" else .ok interval

private theorem watchInterval_eq_ok : watchInterval argument = .ok d ↔ parseDuration argument = .ok d ∧ 0 < d := by
  unfold watchInterval
  cases parseDuration argument with
  | error e => simp
  | ok interval =>
    simp only [ite_error_eq_ok, Except.ok.injEq, Int64.not_le]
    constructor
    · rintro ⟨positive, rfl⟩
      exact ⟨rfl, positive⟩
    · rintro ⟨rfl, positive⟩
      exact ⟨positive, rfl⟩

/-! ## Settings that start the watch -/

/-- The nanoseconds of each repetition of the pattern. -/
def nanoseconds (components : List Component) : List ℕ := components.map fun c => c.toAmount.nanoseconds

private theorem digits_scalars (digits : ∀ p ∈ ds, CodePoint.isDigit p = true) : Scalars ds := by
  obtain ⟨chars, rfl, _⟩ := digits_chars digits
  intro point held
  obtain ⟨c, _, rfl⟩ := List.mem_map.mp held
  exact ⟨c, rfl⟩

private theorem Component.Formed.scalars {c : Component} (formed : c.Formed) : Scalars c.spell := by
  have unit : ∀ unit ∈ units, Scalars unit := by simp [units]
  rw [Component.spell, scalars_append, scalars_append]
  refine ⟨digits_scalars formed.whole, ?_, unit c.unit formed.unit⟩
  cases fraction : c.fraction with
  | none => exact scalars_nil
  | some ds => exact scalars_ch.mpr (digits_scalars (formed.fraction ds fraction).2)

/-- The sidecar takes the setting as a positive interval. -/
def Starts (s : Text) : Prop := ∃ argument, s.encode = some argument ∧
  ∃ d, parseDuration argument.data.toList = .ok d ∧ 0 < d ∧ watchInterval argument.data.toList = .ok d

private theorem starts_spell {components : List Component} (formed : ∀ c ∈ components, c.Formed)
    (named : components ≠ []) : Starts (components.flatMap Component.spell) ↔ Positive (nanoseconds components) := by
  have scalars : Scalars (components.flatMap Component.spell) := by
    intro point held
    obtain ⟨c, inside, spelled⟩ := List.mem_flatMap.mp held
    exact (formed c inside).scalars point spelled
  obtain ⟨argument, encoded⟩ := scalars.encode
  have amounts := parseDuration_spell (List.forall_mem_map.mpr fun c held => (formed c held).toAmount)
    (show components.map Component.toAmount ≠ [] by simpa using named)
  rw [← utf8_spell, ← encode_utf8 encoded, List.map_map] at amounts
  refine Iff.trans ⟨?_, ?_⟩ amounts
  · rintro ⟨_, same, d, parsed, positive, _⟩
    cases encoded.symm.trans same
    exact ⟨d, parsed, positive⟩
  · rintro ⟨d, parsed, positive⟩
    exact ⟨argument, encoded, d, parsed, positive, watchInterval_eq_ok.mpr ⟨parsed, positive⟩⟩

private theorem matchComponents_one {c : Component} (formed : c.Formed) : matchComponents c.spell = some [c] := by
  simpa using matchComponents_spell (List.forall_mem_singleton.mpr formed) (by simp)

/-- Of the settings that validation accepts, those start the watch whose whole nanoseconds are
positive and in range together. -/
theorem valid_interval_starts_iff (valid : validPollInterval (.str s) = true) :
    ∃ components, matchComponents s = some components ∧ (Starts s ↔ Positive (nanoseconds components)) := by
  cases matched : matchComponents s with
  | none =>
    rw [validPollInterval, matched] at valid
    cases valid
  | some components =>
    obtain ⟨named, formed, rfl⟩ := matchComponents_sound matched
    exact ⟨components, rfl, starts_spell formed named⟩

/-- A setting of one second and a half. -/
theorem valid_interval_starts_iff_sample : Starts (text "1.5s") := by
  have formed : Component.Formed ⟨text "1", some (text "5"), text "s"⟩ :=
    ⟨by decide, by decide, by decide, by decide⟩
  have matched : matchComponents (text "1.5s") = some [⟨text "1", some (text "5"), text "s"⟩] := matchComponents_one formed
  have valid : validPollInterval (.str (text "1.5s")) = true := by
    rw [validPollInterval, matched]
    decide +kernel
  obtain ⟨components, found, starts⟩ := valid_interval_starts_iff valid
  cases matched.symm.trans found
  have worth : nanoseconds [⟨text "1", some (text "5"), text "s"⟩] = [1500000000] := by decide +kernel
  rw [starts, worth]
  exact (positive_iff (by decide)).mpr (by decide)

/-- A tenth of a nanosecond is nothing, and 293 years are too long. -/
theorem valid_interval_refused :
    (validPollInterval (.str (text "0.1ns")) = true ∧ ¬ Starts (text "0.1ns")) ∧
      validPollInterval (.str (text "2562048h")) = true ∧ ¬ Starts (text "2562048h") := by
  have refused (c : Component) (formed : c.Formed) (positive : c.amount.positive = true)
      (out : ¬ Positive (nanoseconds [c])) : validPollInterval (.str c.spell) = true ∧ ¬ Starts c.spell := by
    have starts := starts_spell (List.forall_mem_singleton.mpr formed) (by simp)
    rw [List.flatMap_singleton] at starts
    exact ⟨by simp [validPollInterval, matchComponents_one formed, positive], mt starts.mp out⟩
  have short : nanoseconds [⟨text "0", some (text "1"), text "ns"⟩] = [0] := by decide +kernel
  have long : nanoseconds [⟨text "2562048", none, text "h"⟩] = [9223372800000000000] := by decide +kernel
  constructor
  · refine refused ⟨text "0", some (text "1"), text "ns"⟩ ⟨by decide, by decide, by decide, by decide⟩ (by decide +kernel) ?_
    rw [short, positive_iff (by decide)]
    decide
  · refine refused ⟨text "2562048", none, text "h"⟩ ⟨by decide, by decide, by decide, by decide⟩ (by decide +kernel) ?_
    rw [long]
    exact fun held => absurd (held.1.1 _ List.mem_cons_self) (by decide)

end HermesHey.PollInterval
