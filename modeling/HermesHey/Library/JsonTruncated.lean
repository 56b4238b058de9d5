import HermesHey.Library.JsonDocument

/-! A document that was cut off is not read as another one: what the scanner has found
it finds again when more text follows, so a proper prefix of an object is no document. -/
namespace Library.Json
variable {hook : Members → Except ScanError Value}

/-- The text goes on with what ends a value. -/
def Stops (after : Text) : Prop :=
  ∃ point rest, after = point :: rest ∧ (isSpace point = true ∨ point = ch ',' ∨ point = ch ']' ∨ point = ch '\x7d')

private theorem stops_of_skipSpace (found : skipSpace after = point :: rest)
    (mark : point = ch ',' ∨ point = ch ']' ∨ point = ch '\x7d') : Stops after := by
  cases after with
  | nil => cases found
  | cons first more =>
    by_cases space : isSpace first = true
    · exact ⟨first, more, rfl, .inl space⟩
    · rw [skipSpace_solid (Bool.eq_false_iff.mpr space)] at found
      obtain ⟨rfl, _⟩ := List.cons.inj found
      exact ⟨_, more, rfl, .inr mark⟩

private theorem stops_head (stops : Stops (point :: rest)) :
    point.isDigit = false ∧ point ≠ ch '.' ∧ point ≠ ch 'e' ∧ point ≠ ch 'E' := by
  obtain ⟨_, _, same, ends⟩ := stops
  cases same
  rcases ends with space | rfl | rfl | rfl
  · cases point with
    | surrogate offset => cases space
    | scalar c =>
      simp only [isSpace, Bool.or_eq_true, decide_eq_true_eq] at space
      rcases space with ((rfl | rfl) | rfl) | rfl <;> decide
  all_goals decide

private theorem skipSpace_longer (found : skipSpace t = point :: rest) (more : Text) :
    skipSpace (t ++ more) = point :: (rest ++ more) := by
  induction t with
  | nil => cases found
  | cons first t ih =>
    by_cases space : isSpace first = true
    · rw [skipSpace, List.dropWhile_cons_of_pos space] at found
      rw [List.cons_append, skipSpace, List.dropWhile_cons_of_pos space]
      exact ih found
    · have solid := Bool.eq_false_iff.mpr space
      rw [skipSpace_solid solid] at found
      rw [List.cons_append, skipSpace_solid solid, ← List.cons_append, found, List.cons_append]

/-! ## Strings and numbers -/

private theorem scanPieces_longer (scanned : scanPieces t = some (pieces, after)) (more : Text) :
    scanPieces (t ++ more) = some (pieces, after ++ more) := by
  fun_induction scanPieces t generalizing pieces after with
  | case1 => cases scanned
  | case2 rest =>
    cases scanned
    simp [scanPieces]
  | case3 a b c d rest ih =>
    simp only [Option.bind_eq_bind, Option.bind_eq_some_iff] at scanned
    obtain ⟨unit, value, ⟨others, left⟩, inner, same⟩ := scanned
    cases same
    simp [scanPieces, value, ih inner]
  | case4 c rest _ ih =>
    simp only [Option.bind_eq_bind, Option.bind_eq_some_iff] at scanned
    obtain ⟨meaning, value, ⟨others, left⟩, inner, same⟩ := scanned
    cases same
    rw [List.cons_append, List.cons_append, scanPieces_short value, ih inner, Option.map_some]
  | case5 => cases scanned
  | case6 => cases scanned
  | case7 point rest quoted _ _ slashed printable ih =>
    simp only [Option.bind_eq_bind, Option.bind_eq_some_iff] at scanned
    obtain ⟨⟨others, left⟩, inner, same⟩ := scanned
    cases same
    rw [List.cons_append, scanPieces_plain (not_lt.mp printable) quoted slashed, ih inner, Option.map_some]

private theorem spanDigits_longer (spanned : spanDigits t = (digits, point :: rest)) (more : Text) :
    spanDigits (t ++ more) = (digits, point :: (rest ++ more)) := by
  induction t generalizing digits with
  | nil => cases spanned
  | cons first t ih =>
    by_cases digit : first.isDigit = true
    · simp only [spanDigits, List.takeWhile_cons_of_pos digit, List.dropWhile_cons_of_pos digit, Prod.mk.injEq] at spanned
      obtain ⟨rfl, dropped⟩ := spanned
      have front : spanDigits t = (t.takeWhile CodePoint.isDigit, point :: rest) := by rw [spanDigits, dropped]
      have others := ih front
      simp only [spanDigits, Prod.mk.injEq] at others
      simp only [spanDigits, List.cons_append, List.takeWhile_cons_of_pos digit, List.dropWhile_cons_of_pos digit, others]
    · simp only [spanDigits, List.takeWhile_cons_of_neg digit, List.dropWhile_cons_of_neg digit, Prod.mk.injEq] at spanned
      obtain ⟨rfl, dropped⟩ := spanned
      obtain ⟨rfl, rfl⟩ := List.cons.inj dropped
      simp only [spanDigits, List.cons_append, List.takeWhile_cons_of_neg digit, List.dropWhile_cons_of_neg digit]

private theorem spanFraction_longer (spanned : spanFraction t = (fraction, point :: rest)) (dot : point ≠ ch '.')
    (more : Text) : spanFraction (t ++ more) = (fraction, point :: (rest ++ more)) := by
  unfold spanFraction at spanned
  split at spanned
  · rename_i inner
    split at spanned
    · cases spanned
      exact absurd rfl dot
    · rename_i digits left some read
      cases spanned
      have longer := spanDigits_longer read more
      rw [List.cons_append, spanFraction.eq_def]
      simp only [longer]
  · cases spanned
    rw [List.cons_append, spanFraction.eq_def]
    split
    · rename_i other
      exact absurd (List.cons.inj other).1 dot
    · rfl

private theorem spanExponent_longer (spanned : spanExponent t = (exponent, after)) (stops : Stops after)
    (more : Text) :
    spanExponent (t ++ more) = (exponent, after ++ more) := by
  obtain ⟨point, rest, rfl, _⟩ := id stops
  obtain ⟨_, _, small, large⟩ := stops_head stops
  have other : ∀ e : Char, e = 'e' ∨ e = 'E' → point ≠ ch e := by
    rintro e (rfl | rfl)
    · exact small
    · exact large
  unfold spanExponent at spanned
  split at spanned
  · rename_i e inner
    split at spanned
    · rename_i letter
      split at spanned
      · rename_i sign tail
        split at spanned
        · rename_i signed
          split at spanned
          · cases spanned
            exact absurd rfl (other _ letter)
          · rename_i digits left some read
            cases spanned
            have longer := spanDigits_longer read more
            simp only [List.cons_append, spanExponent, letter, signed, ↓reduceIte, longer]
        · rename_i unsigned
          split at spanned
          · cases spanned
            exact absurd rfl (other _ letter)
          · rename_i digits left some read
            cases spanned
            have longer := spanDigits_longer read more
            simp only [List.cons_append] at longer
            simp only [List.cons_append, spanExponent, letter, unsigned, ↓reduceIte, longer]
      · cases spanned
        exact absurd rfl (other _ letter)
    · rename_i letter
      cases spanned
      simp only [List.cons_append, spanExponent, letter, ↓reduceIte]
  · rename_i scalar
    cases spanned
    rw [List.cons_append, spanExponent.eq_def]
    split
    · rename_i same
      exact absurd (congrArg (· :: rest) (List.cons.inj same).1) (scalar _ _)
    · rfl

private theorem spanExponent_front (spanned : spanExponent t = (exponent, after)) (stops : Stops after) :
    ∃ point rest, t = point :: rest ∧ point ≠ ch '.' := by
  unfold spanExponent at spanned
  split at spanned
  · rename_i e inner
    by_cases letter : e = 'e' ∨ e = 'E'
    · refine ⟨_, _, rfl, ?_⟩
      rcases letter with rfl | rfl <;> decide
    · rw [if_neg letter] at spanned
      cases spanned
      exact ⟨_, _, rfl, (stops_head stops).2.1⟩
  · cases spanned
    obtain ⟨point, rest, rfl, _⟩ := id stops
    exact ⟨point, rest, rfl, (stops_head stops).2.1⟩

private theorem spanFraction_some (spanned : spanFraction t = (fraction, point :: rest)) :
    ∃ first more, t = first :: more := by
  cases t with
  | nil => cases spanned
  | cons first more => exact ⟨first, more, rfl⟩

private theorem spanInteger_digit (spanned : spanInteger t = some found) :
    ∃ c rest, t = ch c :: rest ∧ c.isDigit = true := by
  unfold spanInteger at spanned
  split at spanned
  · exact ⟨'0', _, rfl, rfl⟩
  · unfold spanPositive at spanned
    split at spanned
    · rename_i first others left read
      cases t with
      | nil => cases read
      | cons head tail =>
        by_cases digit : head.isDigit = true
        · cases head with
          | surrogate offset => cases digit
          | scalar c => exact ⟨c, tail, rfl, digit⟩
        · simp [spanDigits, List.takeWhile_cons_of_neg digit] at read
    · cases spanned

private theorem spanInteger_longer (spanned : spanInteger t = some (digits, point :: rest)) (more : Text) :
    spanInteger (t ++ more) = some (digits, point :: (rest ++ more)) := by
  obtain ⟨c, tail, rfl, digit⟩ := spanInteger_digit spanned
  unfold spanInteger at spanned
  split at spanned
  · rename_i same
    cases spanned
    rw [same]
    rfl
  · rename_i other
    unfold spanPositive at spanned
    split at spanned
    · rename_i first others left read
      split at spanned
      · cases spanned
      · rename_i nonzero
        cases spanned
        have longer := spanDigits_longer read more
        rw [spanInteger.eq_def]
        split
        · rename_i same
          exact absurd (congrArg (· :: tail) (List.cons.inj same).1) (other _)
        · simp only [spanPositive, longer, nonzero, ↓reduceIte]
    · cases spanned

private theorem scanMagnitude_longer (scanned : scanMagnitude negative t = .ok (v, after)) (stops : Stops after)
    (more : Text) :
    scanMagnitude negative (t ++ more) = .ok (v, after ++ more) := by
  unfold scanMagnitude at scanned ⊢
  cases read : spanInteger t with
  | none =>
    rw [read] at scanned
    cases scanned
  | some found =>
    obtain ⟨digits, left⟩ := found
    rw [read] at scanned
    dsimp only at scanned
    have last : (spanExponent (spanFraction left).2).2 = after := by
      split at scanned
      · split at scanned
        · cases scanned
          rfl
        · cases scanned
      · cases scanned
        rfl
    have exponent : spanExponent (spanFraction left).2 = ((spanExponent (spanFraction left).2).1, after) := by rw [← last]
    obtain ⟨point, rest, middle, dot⟩ := spanExponent_front exponent stops
    have fraction : spanFraction left = ((spanFraction left).1, point :: rest) := by rw [← middle]
    obtain ⟨first, others, rfl⟩ := spanFraction_some fraction
    have exponent' := spanExponent_longer exponent stops more
    have fraction' := spanFraction_longer fraction dot more
    rw [middle, List.cons_append] at exponent'
    rw [← List.cons_append] at fraction'
    rw [spanInteger_longer read more, ← List.cons_append]
    dsimp only
    rw [fraction']
    dsimp only
    rw [List.cons_append, exponent']
    rw [last, middle] at scanned
    dsimp only at scanned ⊢
    split at scanned
    · rename_i plain
      rw [if_pos plain]
      split at scanned
      · rename_i short
        cases scanned
        rw [if_pos short]
      · cases scanned
    · rename_i plain
      cases scanned
      rw [if_neg plain]

private theorem scanMagnitude_digit (scanned : scanMagnitude negative t = .ok found) :
    ∃ c rest, t = ch c :: rest ∧ c.isDigit = true := by
  unfold scanMagnitude at scanned
  cases read : spanInteger t with
  | none =>
    rw [read] at scanned
    cases scanned
  | some digits => exact spanInteger_digit read

private theorem digit_unnamed {c : Char} (digit : c.isDigit = true) :
    ¬ (text "Infinity").isPrefixOf (ch c :: rest) = true := by
  have capital : (ch 'I' == ch c) = false := by
    refine beq_false_of_ne ?_
    rintro same
    cases same
    cases digit
  change ¬ (ch 'I' == ch c && (text "nfinity").isPrefixOf rest) = true
  rw [capital, Bool.false_and]
  decide

private theorem scanAtom_longer (scanned : scanAtom t = .ok (v, after)) (stops : Stops after) (more : Text) :
    scanAtom (t ++ more) = .ok (v, after ++ more) := by
  unfold scanAtom at scanned
  split at scanned
  case h_5 rest =>
    split at scanned
    · rename_i named
      obtain ⟨left, rfl⟩ := List.isPrefixOf_iff_prefix.mp named
      cases scanned
      rw [List.cons_append, List.append_assoc]
      rfl
    · cases scanned
  case h_6 rest =>
    split at scanned
    · rename_i named
      obtain ⟨left, rfl⟩ := List.isPrefixOf_iff_prefix.mp named
      cases scanned
      rw [List.cons_append, List.append_assoc]
      rfl
    · obtain ⟨c, left, rfl, digit⟩ := scanMagnitude_digit scanned
      have longer := scanMagnitude_longer scanned stops more
      rw [List.cons_append] at longer
      rw [List.cons_append, List.cons_append, scanAtom, if_neg (digit_unnamed digit), longer]
  case h_7 =>
    obtain ⟨c, left, rfl, digit⟩ := scanMagnitude_digit scanned
    rw [List.cons_append, scanAtom_digit digit, ← List.cons_append]
    exact scanMagnitude_longer scanned stops more
  all_goals
    cases scanned
    rfl

/-! ## Values -/

private theorem scanString_longer (scanned : scanString t = .ok (s, after)) (more : Text) :
    scanString (t ++ more) = .ok (s, after ++ more) := by
  unfold scanString at scanned ⊢
  cases read : scanPieces t with
  | none =>
    rw [read] at scanned
    cases scanned
  | some found =>
    rw [read] at scanned
    cases scanned
    rw [scanPieces_longer read]

private theorem hook_longer (made : (do return (← hook whole, after) : Except ScanError (Value × Text)) = .ok (v, left))
    (more : Text) : (do return (← hook whole, after ++ more) : Except ScanError (Value × Text)) = .ok (v, left ++ more) := by
  cases answer : hook whole with
  | error error =>
    rw [answer] at made
    cases made
  | ok value =>
    rw [answer] at made
    cases made
    rfl

private theorem scanValue_nil : scanValue hook depth [] ≠ .ok found := by
  intro read
  cases depth with
  | zero => cases read
  | succ depth => cases read

private theorem scanElements_nil : scanElements hook depth [] collected ≠ .ok found := by
  intro read
  cases depth with
  | zero => cases read
  | succ depth =>
    rw [scanElements] at read
    obtain ⟨_, value, _⟩ := bind_eq_ok.mp read
    exact scanValue_nil value

private theorem skipSpace_append (some : skipSpace t ≠ []) (more : Text) :
    skipSpace (t ++ more) = skipSpace t ++ more := by
  obtain ⟨point, rest, front⟩ := List.exists_cons_of_ne_nil some
  rw [skipSpace_longer front, front, List.cons_append]

private theorem scan_longer (hook : Members → Except ScanError Value) (more : Text) (depth : Nat) :
    ∀ deeper, depth ≤ deeper →
    (∀ t v after, scanValue hook depth t = .ok (v, after) → Stops after ∨ t.head? = some (ch '\x7b') →
      scanValue hook deeper (t ++ more) = .ok (v, after ++ more)) ∧
    (∀ t collected v after, scanMembers hook depth t collected = .ok (v, after) →
      scanMembers hook deeper (t ++ more) collected = .ok (v, after ++ more)) ∧
    (∀ t collected v after, scanElements hook depth t collected = .ok (v, after) →
      scanElements hook deeper (t ++ more) collected = .ok (v, after ++ more)) := by
  -- induction on the depth: what a container leaves over is a part of what its last member leaves, so
  -- only an atom can depend on the text after it
  induction depth with
  | zero =>
    intro deeper _
    refine ⟨?_, ?_, ?_⟩
    · rintro t v after ⟨⟩
    · rintro t collected v after ⟨⟩
    · rintro t collected v after ⟨⟩
  | succ depth ih =>
    intro deeper enough
    obtain ⟨deep, rfl⟩ : ∃ deep, deeper = deep + 1 := ⟨deeper - 1, by omega⟩
    obtain ⟨values, members, elements⟩ := ih deep (by omega)
    refine ⟨fun t v after read ends => ?_, fun t collected v after read => ?_, fun t collected v after read => ?_⟩
    · rw [scanValue.eq_def] at read
      split at read
      · cases read
      · rename_i rest same
        cases same
        obtain ⟨⟨s, left⟩, string, made⟩ := bind_eq_ok.mp read
        cases made
        simp only [List.cons_append, scanValue, scanString_longer string more]
        rfl
      · rename_i rest same
        cases same
        rw [List.cons_append, scanValue]
        split at read
        · rename_i left found
          rw [skipSpace_longer found more]
          exact hook_longer read more
        · rename_i left found
          rw [skipSpace_longer found more]
          exact members _ _ _ _ read
        · cases read
      · rename_i rest same
        cases same
        rw [List.cons_append, scanValue]
        split at read
        · rename_i left found
          rw [skipSpace_longer found more]
          cases read
          rfl
        · rename_i bracket
          have some : skipSpace rest ≠ [] := by
            intro none
            rw [none] at read
            exact scanElements_nil read
          rw [skipSpace_append some]
          have later := elements _ _ _ _ read
          obtain ⟨point, tail, front⟩ := List.exists_cons_of_ne_nil some
          rw [front, List.cons_append] at later ⊢
          split
          · rename_i same
            exact absurd (front.trans (congrArg (· :: tail) (List.cons.inj same).1)) (bracket _)
          · exact later
      · rename_i same string object array
        cases same
        rename_i front _ _
        rcases ends with stops | brace
        · have longer := scanAtom_longer read stops more
          cases front with
          | nil => cases read
          | cons point rest =>
            rw [List.cons_append, scanValue_atom deep ?_ ?_ ?_]
            · exact longer
            · rintro rfl
              exact string _ rfl
            · rintro rfl
              exact object _ rfl
            · rintro rfl
              exact array _ rfl
        · cases front with
          | nil => cases brace
          | cons point rest =>
            cases brace
            exact absurd rfl (object _)
    · rw [scanMembers] at read ⊢
      obtain ⟨⟨key, afterKey⟩, name, read⟩ := bind_eq_ok.mp read
      refine bind_eq_ok.mpr ⟨_, scanString_longer name more, ?_⟩
      dsimp only at read ⊢
      split at read
      · rename_i afterColon colon
        rw [skipSpace_longer colon more]
        obtain ⟨⟨value, afterValue⟩, first, read⟩ := bind_eq_ok.mp read
        have some : skipSpace afterColon ≠ [] := by
          intro none
          rw [none] at first
          exact scanValue_nil first
        dsimp only at read ⊢
        simp only [skipSpace_append some]
        split at read
        · rename_i left closing
          refine bind_eq_ok.mpr ⟨_, values _ _ _ first (.inl (stops_of_skipSpace closing (.inr (.inr rfl)))), ?_⟩
          dsimp only
          rw [skipSpace_longer closing more]
          exact hook_longer read more
        · rename_i afterComma comma
          refine bind_eq_ok.mpr ⟨_, values _ _ _ first (.inl (stops_of_skipSpace comma (.inl rfl))), ?_⟩
          dsimp only
          rw [skipSpace_longer comma more]
          split at read
          · rename_i left quoted
            simp only [skipSpace_longer quoted more]
            exact members _ _ _ _ read
          · cases read
        · cases read
      · cases read
    · rw [scanElements] at read ⊢
      obtain ⟨⟨value, afterValue⟩, first, read⟩ := bind_eq_ok.mp read
      dsimp only at read
      split at read
      · rename_i left closing
        refine bind_eq_ok.mpr ⟨_, values _ _ _ first (.inl (stops_of_skipSpace closing (.inr (.inl rfl)))), ?_⟩
        dsimp only
        rw [skipSpace_longer closing more]
        cases read
        rfl
      · rename_i afterComma comma
        refine bind_eq_ok.mpr ⟨_, values _ _ _ first (.inl (stops_of_skipSpace comma (.inl rfl))), ?_⟩
        have some : skipSpace afterComma ≠ [] := by
          intro none
          rw [none] at read
          exact scanElements_nil read
        dsimp only
        rw [skipSpace_longer comma more]
        simp only [skipSpace_append some]
        exact elements _ _ _ _ read
      · cases read

/-- The document of an object begins with a brace. -/
theorem Document.object_head (document : Document (.value (.obj ms)) t) : ∃ rest, t = ch '\x7b' :: rest := by
  cases document
  exact ⟨_, rfl⟩

/-- **A proper prefix of an object's text is not a document.** -/
theorem Document.truncated (document : Document (.value (.obj ms)) (t ++ u)) (kept : Kept hook (.obj ms))
    (lost : u ≠ []) :
    Json.loads hook t ≠ .ok v := by
  intro read
  have whole : scanValue hook (2 * (t ++ u).length + 2) (t ++ u ++ []) = .ok (.obj ms, []) :=
    Document.scan document kept (by simp only [Part.fuel]; omega) trivial
  rw [List.append_nil] at whole
  obtain ⟨rest, front⟩ := document.object_head
  cases t with
  | nil => cases read
  | cons point t =>
    obtain ⟨rfl, _⟩ := List.cons.inj front
    obtain ⟨⟨found, after⟩, scanned, _⟩ := bind_eq_ok.mp read
    rw [skipSpace_solid (show isSpace (ch '\x7b') = false by decide)] at scanned
    have longer := (scan_longer hook u _ (2 * (ch '\x7b' :: t ++ u).length + 2) (by rw [List.length_append]; omega)).1 _ _ _ scanned (.inr rfl)
    rw [longer] at whole
    obtain ⟨_, empty⟩ := Prod.mk.inj (Except.ok.inj whole)
    exact lost (List.append_eq_nil_iff.mp empty).2

end Library.Json
