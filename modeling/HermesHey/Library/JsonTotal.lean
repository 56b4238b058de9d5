import HermesHey.Library.Json

/-! The depth bound of the scanner is never the reason a text is refused:
every call consumes at least half of the depth it spends. -/
namespace Library.Json

variable {hook : Members → Except ScanError Value}

/-- A string takes at least its closing quote. -/
theorem scanPieces_shorter (scanned : scanPieces t = some (pieces, after)) : after.length < t.length := by
  induction t using scanPieces.induct generalizing pieces after with
  | case1 => simp [scanPieces] at scanned
  | case2 rest =>
    simp only [scanPieces, Option.some.injEq, Prod.mk.injEq] at scanned
    simp [← scanned.2]
  | case3 a b c d rest ih =>
    simp only [scanPieces, Option.bind_eq_bind, Option.pure_def, Option.bind_eq_some_iff,
      Option.some.injEq, Prod.mk.injEq] at scanned
    obtain ⟨unit, _, found, read, _, rfl⟩ := scanned
    have shorter := ih read
    simp only [List.length_cons]
    omega
  | case4 c rest other ih =>
    rw [scanPieces.eq_4 _ _ other] at scanned
    simp only [Option.bind_eq_bind, Option.pure_def, Option.bind_eq_some_iff,
      Option.some.injEq, Prod.mk.injEq] at scanned
    obtain ⟨meaning, _, found, read, _, rfl⟩ := scanned
    have shorter := ih read
    simp only [List.length_cons]
    omega
  | case5 => simp_all [scanPieces]
  | case6 point rest _ _ control => simp_all [scanPieces]
  | case7 point rest quoted escaped simple slashed printable ih =>
    rw [scanPieces.eq_6 _ _ quoted escaped simple slashed, if_neg printable] at scanned
    simp only [Option.bind_eq_bind, Option.pure_def, Option.bind_eq_some_iff, Option.some.injEq,
      Prod.mk.injEq] at scanned
    obtain ⟨found, read, _, rfl⟩ := scanned
    have shorter := ih read
    simp only [List.length_cons]
    omega

private theorem skipSpace_length (t : Text) : (skipSpace t).length ≤ t.length :=
  (List.dropWhile_sublist _).length_le

private theorem spanDigits_length (t : Text) : (spanDigits t).2.length ≤ t.length :=
  (List.dropWhile_sublist _).length_le

private theorem spanFraction_length (t : Text) : (spanFraction t).2.length ≤ t.length := by
  rw [spanFraction.eq_def]
  split
  · rename_i rest
    have digits := spanDigits_length rest
    split
    · simp
    · rename_i after _ found
      simp only [found, List.length_cons] at digits ⊢
      omega
  · simp

private theorem spanExponent_length (t : Text) : (spanExponent t).2.length ≤ t.length := by
  rw [spanExponent.eq_def]
  split
  · rename_i e rest
    split
    · split
      · rename_i sign tail
        have signed := spanDigits_length tail
        have plain := spanDigits_length (.scalar sign :: tail)
        split
        · split
          · simp
          · rename_i found
            simp only [found, List.length_cons] at signed ⊢
            omega
        · split
          · simp
          · rename_i found
            simp only [found, List.length_cons] at plain ⊢
            omega
      · simp
    · simp
  · simp

private theorem spanInteger_shorter (read : spanInteger t = some (digits, after)) :
    after.length < t.length := by
  rw [spanInteger.eq_def] at read
  split at read
  · simp only [Option.some.injEq, Prod.mk.injEq] at read
    simp [← read.2]
  · rw [spanPositive] at read
    have parts : t.takeWhile CodePoint.isDigit ++ t.dropWhile CodePoint.isDigit = t :=
      List.takeWhile_append_dropWhile
    split at read
    · rename_i first more rest found
      simp only [spanDigits, Prod.mk.injEq] at found
      split at read
      · cases read
      · simp only [Option.some.injEq, Prod.mk.injEq] at read
        have whole := congrArg List.length parts
        rw [found.1, found.2, read.2, List.length_append, List.length_cons] at whole
        omega
    · cases read

/-- The scanner never reports the depth bound on `t`, and consumes part of it. -/
private def Progress (t : Text) (result : Except ScanError (Value × Text)) : Prop :=
  result ≠ .error .depth ∧ ∀ value after, result = .ok (value, after) → after.length < t.length

private theorem progress_error (other : error ≠ .depth) : Progress t (.error error) :=
  ⟨by simpa using other, by simp⟩

private theorem progress_ok (shorter : after.length < t.length) : Progress t (.ok (value, after)) :=
  ⟨by simp, by rintro _ _ ⟨⟩; exact shorter⟩

private theorem scanMagnitude_progress (negative : Bool) (t : Text) :
    Progress t (scanMagnitude negative t) := by
  rw [scanMagnitude]
  cases read : spanInteger t with
  | none => exact progress_error (by decide)
  | some found =>
    obtain ⟨digits, rest⟩ := found
    have first := spanInteger_shorter read
    have second := spanFraction_length rest
    have third := spanExponent_length (spanFraction rest).2
    simp only
    split
    · split
      · exact progress_ok (by omega)
      · exact progress_error (by decide)
    · exact progress_ok (by omega)

private theorem scanAtom_progress (t : Text) : Progress t (scanAtom t) := by
  rw [scanAtom.eq_def]
  split
  case h_7 => exact scanMagnitude_progress false _
  case h_6 rest =>
    split
    · exact progress_ok (by simp only [List.length_drop, List.length_cons]; omega)
    · obtain ⟨bounded, shorter⟩ := scanMagnitude_progress true rest
      refine ⟨bounded, fun value after read => ?_⟩
      have step := shorter value after read
      simp only [List.length_cons]
      omega
  case h_5 rest =>
    split
    · exact progress_ok (by simp only [List.length_drop, List.length_cons]; omega)
    · exact progress_error (by decide)
  all_goals exact progress_ok (by simp only [List.length_cons]; omega)

private theorem hook_progress (whole : Members) (after : Text) (sound : hook whole ≠ .error .depth)
    (shorter : after.length < t.length) :
    Progress t (do return (← hook whole, after)) := by
  cases answer : hook whole with
  | ok value => exact progress_ok shorter
  | error error =>
    refine progress_error ?_
    rintro rfl
    exact sound answer

private theorem progress_bind {next : Value × Text → Except ScanError (Value × Text)}
    (first : Progress u result)
    (later : ∀ found, found.2.length < u.length → Progress t (next found)) :
    Progress t (result >>= next) := by
  cases result with
  | ok found => exact later found (first.2 _ _ rfl)
  | error error =>
    refine progress_error ?_
    rintro rfl
    exact first.1 rfl

private theorem progress_string {next : Text × Text → Except ScanError (Value × Text)}
    (later : ∀ found, found.2.length < u.length → Progress t (next found)) :
    Progress t (scanString u >>= next) := by
  rw [scanString]
  cases read : scanPieces u with
  | none => exact progress_error (by decide)
  | some found => exact later _ (scanPieces_shorter read)

private theorem scan_progress (sound : ∀ whole, hook whole ≠ .error .depth) (depth : Nat) :
    (∀ t, 2 * t.length + 1 ≤ depth → Progress t (scanValue hook depth t)) ∧
    (∀ t collected, 2 * t.length + 2 ≤ depth → Progress t (scanMembers hook depth t collected)) ∧
    (∀ t collected, 2 * t.length + 2 ≤ depth → Progress t (scanElements hook depth t collected)) := by
  -- induction on the depth: a bracket spends two of it and consumes one code point, so a bound of twice
  -- the length always suffices
  induction depth with
  | zero => exact ⟨fun _ bound => by omega, fun _ _ bound => by omega, fun _ _ bound => by omega⟩
  | succ depth ih =>
    obtain ⟨values, members, elements⟩ := ih
    refine ⟨fun t bound => ?_, fun t collected bound => ?_, fun t collected bound => ?_⟩
    · rw [scanValue.eq_def]
      split
      · omega
      · rename_i rest _
        exact progress_string fun found shorter =>
          progress_ok (by simp only [List.length_cons]; omega)
      · rename_i rest same
        cases same
        have trimmed := skipSpace_length rest
        simp only [List.length_cons] at bound
        split
        · rename_i after found
          rw [found, List.length_cons] at trimmed
          exact hook_progress [] after (sound []) (by simp only [List.length_cons]; omega)
        · rename_i after found
          rw [found, List.length_cons] at trimmed
          obtain ⟨bounded, shorter⟩ := members after [] (by omega)
          refine ⟨bounded, fun value rest' read => ?_⟩
          have step := shorter value rest' read
          simp only [List.length_cons]
          omega
        · exact progress_error (by decide)
      · rename_i rest same
        cases same
        have trimmed := skipSpace_length rest
        simp only [List.length_cons] at bound
        split
        · rename_i after found
          rw [found, List.length_cons] at trimmed
          exact progress_ok (by simp only [List.length_cons]; omega)
        · obtain ⟨bounded, shorter⟩ := elements (skipSpace rest) [] (by omega)
          refine ⟨bounded, fun value rest' read => ?_⟩
          have step := shorter value rest' read
          simp only [List.length_cons]
          omega
      · exact scanAtom_progress _
    · rw [scanMembers]
      refine progress_string ?_
      rintro ⟨key, afterKey⟩ keyShorter
      dsimp only at keyShorter ⊢
      have trimmed := skipSpace_length afterKey
      split
      · rename_i afterColon found
        rw [found, List.length_cons] at trimmed
        have spaced := skipSpace_length afterColon
        refine progress_bind (values (skipSpace afterColon) (by omega)) ?_
        rintro ⟨value, afterValue⟩ shorter
        dsimp only at shorter ⊢
        have closing := skipSpace_length afterValue
        split
        · rename_i after read
          rw [read, List.length_cons] at closing
          exact hook_progress _ after (sound _) (by omega)
        · rename_i afterComma read
          rw [read, List.length_cons] at closing
          have opening := skipSpace_length afterComma
          split
          · rename_i after next
            rw [next, List.length_cons] at opening
            obtain ⟨bounded, step⟩ := members after (collected ++ [(key, value)]) (by omega)
            exact ⟨bounded, fun _ _ read => by have consumed := step _ _ read; omega⟩
          · exact progress_error (by decide)
        · exact progress_error (by decide)
      · exact progress_error (by decide)
    · rw [scanElements]
      refine progress_bind (values t (by omega)) ?_
      rintro ⟨value, afterValue⟩ shorter
      dsimp only at shorter ⊢
      have closing := skipSpace_length afterValue
      split
      · rename_i after read
        rw [read, List.length_cons] at closing
        exact progress_ok (by omega)
      · rename_i afterComma read
        rw [read, List.length_cons] at closing
        have opening := skipSpace_length afterComma
        obtain ⟨bounded, step⟩ := elements (skipSpace afterComma) (collected ++ [value]) (by omega)
        exact ⟨bounded, fun _ _ read => by have consumed := step _ _ read; omega⟩
      · exact progress_error (by decide)

/-- Loading a text never ends at the scanner's depth bound. -/
theorem loads_within_depth (sound : ∀ whole, hook whole ≠ .error .depth) (t : Text) :
    loads hook t ≠ .error .depth := by
  rw [loads.eq_def]
  split
  · simp
  · have trimmed := skipSpace_length t
    have bounded := ((scan_progress sound (2 * t.length + 2)).1 (skipSpace t) (by omega)).1
    cases read : scanValue hook (2 * t.length + 2) (skipSpace t) with
    | error error =>
      rw [read] at bounded
      simpa [bind, Except.bind] using bounded
    | ok found =>
      simp only [bind, Except.bind]
      split <;> simp [pure, Except.pure]

end Library.Json
