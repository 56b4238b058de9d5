import Mathlib.Data.List.TakeWhile
import HermesHey.Library.JsonRoundTrip
import HermesHey.Library.Numerals
import HermesHey.Library.Outcome

/-! What can keep a document from being written: an integer over the conversion
limit, or a string with an unpaired surrogate. A scanned document has no such
integer, so a document put together from scanned parts needs only its strings
checked. -/
namespace Library.Json

/-! ## Integers -/

theorem elementsFit_iff : elementsFit elements = true ↔ ∀ value ∈ elements, intsFit value = true := by
  induction elements with
  | nil => simp [elementsFit]
  | cons first rest ih => simp [elementsFit, ih]

theorem membersFit_iff : membersFit members = true ↔ ∀ member ∈ members, intsFit member.2 = true := by
  induction members with
  | nil => simp [membersFit]
  | cons first rest ih => simp [membersFit, ih]

/-- The integers of a member are integers of its object. -/
theorem intsFit_lookup (fits : intsFit (.obj members) = true) (held : members.lookup key = some value) :
    intsFit value = true := by
  unfold intsFit at fits
  obtain ⟨before, after, rfl, _⟩ := List.lookup_eq_some_iff.mp held
  exact membersFit_iff.mp fits (key, value) (List.mem_append_right _ List.mem_cons_self)

private theorem spanInteger_digits (read : spanInteger t = some (digits, after)) :
    ∀ point ∈ digits, point.isDigit = true := by
  unfold spanInteger at read
  split at read
  · cases read
    simp [CodePoint.isDigit]
  · unfold spanPositive spanDigits at read
    split at read
    · rename_i first rest after' spanned
      split at read
      · cases read
      · cases read
        intro point held
        have run := (Prod.mk.inj spanned).1
        rw [← run] at held
        exact List.mem_takeWhile_imp held
    · cases read

/-- Whatever the scanner returned has no integer over the limit. -/
private def Fits (result : Except ScanError (Value × Text)) : Prop :=
  ∀ value after, result = .ok (value, after) → intsFit value = true

private theorem fits_ok (fits : intsFit value = true) : Fits (.ok (value, after)) := by
  rintro _ _ ⟨⟩
  exact fits

private theorem fits_error (error : ScanError) : Fits (.error error) := by
  rintro _ _ ⟨⟩

private theorem fits_bind {next : α → Except ScanError (Value × Text)} {first : Except ScanError α}
    (later : ∀ found, first = .ok found → Fits (next found)) : Fits (first >>= next) := by
  cases first with
  | ok found => exact later found rfl
  | error error => exact fits_error error

private theorem scanMagnitude_fits (negative : Bool) (t : Text) : Fits (scanMagnitude negative t) := by
  unfold scanMagnitude
  cases read : spanInteger t with
  | none => exact fits_error _
  | some found =>
    obtain ⟨digits, rest⟩ := found
    have value := digitsValue_lt digits (spanInteger_digits read)
    simp only
    split
    · split
      · rename_i short
        have bound := value.trans_le (Nat.pow_le_pow_right (by decide : 0 < 10) short)
        apply fits_ok
        cases negative <;> simpa [intsFit] using bound
      · exact fits_error _
    · exact fits_ok rfl

private theorem scanAtom_fits (t : Text) : Fits (scanAtom t) := by
  rw [scanAtom.eq_def]
  split
  case h_7 => exact scanMagnitude_fits false _
  case h_6 rest =>
    split
    · exact fits_ok rfl
    · exact scanMagnitude_fits true rest
  case h_5 rest =>
    split
    · exact fits_ok rfl
    · exact fits_error _
  all_goals exact fits_ok rfl

/-- A pairs hook that takes members without oversized integers to a value without. -/
def KeepsInts (hook : Members → Except ScanError Value) : Prop :=
  ∀ pairs value, membersFit pairs = true → hook pairs = .ok value → intsFit value = true

private theorem hook_fits (keeps : KeepsInts hook) {pairs : Members} (fits : membersFit pairs = true) (after : Text) :
    Fits (do return (← hook pairs, after)) :=
  fits_bind fun value ran => fits_ok (keeps pairs value fits ran)

private theorem scan_fits (keeps : KeepsInts hook) (depth : Nat) :
    (∀ t, Fits (scanValue hook depth t)) ∧
    (∀ t collected, membersFit collected = true → Fits (scanMembers hook depth t collected)) ∧
    (∀ t collected, elementsFit collected = true → Fits (scanElements hook depth t collected)) := by
  -- induction on the depth; what was collected so far fits
  induction depth with
  | zero => exact ⟨fun _ => fits_error _, fun _ _ _ => fits_error _, fun _ _ _ => fits_error _⟩
  | succ depth ih =>
    obtain ⟨values, members, elements⟩ := ih
    refine ⟨fun t => ?_, fun t collected held => ?_, fun t collected held => ?_⟩
    · rw [scanValue.eq_def]
      split
      · exact fits_error _
      · exact fits_bind fun _ _ => fits_ok rfl
      · rename_i same
        cases same
        split
        · exact hook_fits keeps rfl _
        · exact members _ [] rfl
        · exact fits_error _
      · rename_i same
        cases same
        split
        · exact fits_ok rfl
        · exact elements _ [] rfl
      · exact scanAtom_fits _
    · rw [scanMembers]
      refine fits_bind ?_
      rintro ⟨key, afterKey⟩ _
      dsimp only
      split
      · refine fits_bind ?_
        rintro ⟨value, afterValue⟩ read
        have collected' : membersFit (collected ++ [(key, value)]) = true := by
          rw [membersFit_iff, List.forall_mem_append]
          exact ⟨membersFit_iff.mp held, by simpa using values _ value afterValue read⟩
        dsimp only
        split
        · exact hook_fits keeps collected' _
        · split
          · exact members _ _ collected'
          · exact fits_error _
        · exact fits_error _
      · exact fits_error _
    · rw [scanElements]
      refine fits_bind ?_
      rintro ⟨value, afterValue⟩ read
      have collected' : elementsFit (collected ++ [value]) = true := by
        rw [elementsFit_iff, List.forall_mem_append]
        exact ⟨elementsFit_iff.mp held, by simpa using values _ value afterValue read⟩
      dsimp only
      split
      · exact fits_ok collected'
      · exact elements _ _ collected'
      · exact fits_error _

/-- A scanned document has no integer over the conversion limit. -/
theorem loads_fits (keeps : KeepsInts hook) (loaded : loads hook t = .ok value) : intsFit value = true := by
  rw [loads.eq_def] at loaded
  split at loaded
  · cases loaded
  · rw [bind_eq_ok] at loaded
    obtain ⟨⟨found, after⟩, read, rest⟩ := loaded
    have fits := (scan_fits keeps _).1 _ found after read
    dsimp only at rest
    split at rest
    · cases rest
      exact fits
    · cases rest

private theorem mem_dictSet (held : member ∈ dictSet dict key value) : member ∈ dict ∨ member = (key, value) := by
  unfold dictSet at held
  split at held
  · obtain ⟨old, inside, same⟩ := List.mem_map.mp held
    split at same
    · exact .inr same.symm
    · exact .inl (same ▸ inside)
  · simpa using held

/-- A dictionary has no pairs but those it is made of. -/
theorem mem_dictOfPairs (held : member ∈ dictOfPairs pairs) : member ∈ pairs := by
  have loop : ∀ (rest dict : Members), member ∈ rest.foldl (fun dict pair => dictSet dict pair.1 pair.2) dict →
      member ∈ dict ∨ member ∈ rest := by
    intro rest
    induction rest with
    | nil => exact fun _ held => .inl held
    | cons pair rest ih =>
      intro dict held
      rcases ih _ held with early | later
      · rcases mem_dictSet early with old | rfl
        · exact .inl old
        · exact .inr List.mem_cons_self
      · exact .inr (List.mem_cons_of_mem _ later)
  rcases loop pairs [] held with absent | inside
  · cases absent
  · exact inside

/-- Making a dictionary makes no new integers. -/
theorem plainHook_keepsInts : KeepsInts plainHook := by
  intro pairs value fits ran
  cases ran
  exact membersFit_iff.mpr fun member held => membersFit_iff.mp fits member (mem_dictOfPairs held)

/-! ## Strings -/

/-- No code point is a surrogate. -/
def Scalars (t : Text) : Prop := ∀ point ∈ t, ∃ c, point = .scalar c

@[simp] theorem scalars_text (s : String) : Scalars (text s) := by
  intro point held
  obtain ⟨c, _, rfl⟩ := List.mem_map.mp held
  exact ⟨c, rfl⟩

@[simp] theorem scalars_append : Scalars (s ++ t) ↔ Scalars s ∧ Scalars t := List.forall_mem_append

theorem scalars_cons : Scalars (point :: t) ↔ (∃ c, point = .scalar c) ∧ Scalars t := List.forall_mem_cons

@[simp] theorem scalars_ch : Scalars (ch c :: t) ↔ Scalars t := by
  simp [scalars_cons, ch]

@[simp] theorem scalars_nil : Scalars [] := by simp [Scalars]

/-- Such a string can be encoded. -/
theorem Scalars.encode (scalars : Scalars t) : ∃ bytes, t.encode = some bytes := by
  have read : (t.mapM CodePoint.scalar?).isSome = true := by
    induction t with
    | nil => simp
    | cons point rest ih =>
      obtain ⟨⟨c, rfl⟩, others⟩ := scalars_cons.mp scalars
      obtain ⟨chars, same⟩ := Option.isSome_iff_exists.mp (ih others)
      simp [CodePoint.scalar?, same]
  obtain ⟨bytes, encoded, _⟩ := Text.encode_of_scalars read
  exact ⟨bytes, encoded⟩

private theorem scalars_decimal (n : Nat) : Scalars (decimal n) := by
  intro point held
  have digit := decimal_isDigit held
  cases point with
  | scalar c => exact ⟨c, rfl⟩
  | surrogate offset => cases digit

@[simp] theorem scalars_decimalInt (n : Int) : Scalars (decimalInt n) := by
  cases n with
  | ofNat n => exact scalars_decimal n
  | negSucc n => exact scalars_ch.mpr (scalars_decimal _)

private theorem scalars_escape (c : Char) : Scalars (escape (.scalar c)) := by
  unfold escape
  split
  case h_6 =>
    split
    · simp only [scalars_ch, scalars_nil]
    · split
      · simp only [scalars_ch, scalars_nil]
      · split
        · simp only [scalars_ch, scalars_nil]
        · exact scalars_ch.mpr scalars_nil
  case h_7 same => cases same
  all_goals simp only [scalars_ch, scalars_nil]

private theorem scalars_quote : Scalars (quote s) ↔ Scalars s := by
  unfold quote
  rw [List.cons_append, scalars_ch, scalars_append, scalars_ch]
  simp only [scalars_nil, and_true]
  constructor
  · intro scalars point held
    cases point with
    | scalar c => exact ⟨c, rfl⟩
    | surrogate offset => exact scalars _ (List.mem_flatMap.mpr ⟨_, held, List.mem_singleton_self _⟩)
  · intro scalars point held
    obtain ⟨original, inside, escaped⟩ := List.mem_flatMap.mp held
    obtain ⟨c, rfl⟩ := scalars original inside
    exact scalars_escape c point escaped

mutual
/-- No string inside has a surrogate. -/
def Writable : Value → Prop
  | .float literal => Scalars literal
  | .str s => Scalars s
  | .arr elements => WritableElements elements
  | .obj members => WritableMembers members
  | _ => True

def WritableElements : List Value → Prop
  | [] => True
  | first :: rest => Writable first ∧ WritableElements rest

def WritableMembers : Members → Prop
  | [] => True
  | (key, first) :: rest => Scalars key ∧ Writable first ∧ WritableMembers rest
end

theorem writableElements_iff : WritableElements elements ↔ ∀ value ∈ elements, Writable value := by
  induction elements with
  | nil => simp [WritableElements]
  | cons first rest ih => simp [WritableElements, ih]

theorem writableMembers_iff :
    WritableMembers members ↔ ∀ member ∈ members, Scalars member.1 ∧ Writable member.2 := by
  induction members with
  | nil => simp [WritableMembers]
  | cons first rest ih => simp [WritableMembers, ih, and_assoc]

/-- The members of a writable object are writable. -/
theorem writable_lookup (writable : Writable (.obj members)) (held : members.lookup key = some value) :
    Writable value := by
  unfold Writable at writable
  obtain ⟨before, after, rfl, _⟩ := List.lookup_eq_some_iff.mp held
  exact (writableMembers_iff.mp writable (key, value) (List.mem_append_right _ List.mem_cons_self)).2

mutual
private theorem scalars_render : ∀ value : Value, Scalars (render value) ↔ Writable value
  | .null => iff_of_true (scalars_text "null") trivial
  | .bool true => iff_of_true (scalars_text "true") trivial
  | .bool false => iff_of_true (scalars_text "false") trivial
  | .int n => iff_of_true (scalars_decimalInt n) trivial
  | .float _ => Iff.rfl
  | .str _ => scalars_quote
  | .arr elements => scalars_ch.trans (scalars_renderElements elements)
  | .obj members => scalars_ch.trans (scalars_renderMembers members)

private theorem scalars_renderElements : ∀ elements : List Value,
    Scalars (renderElements elements) ↔ WritableElements elements
  | [] => iff_of_true (scalars_ch.mpr scalars_nil) trivial
  | [last] => by
    unfold renderElements WritableElements WritableElements
    rw [scalars_append, scalars_ch, scalars_render last]
    simp only [scalars_nil]
  | first :: next :: rest => by
    unfold renderElements WritableElements
    rw [scalars_append, scalars_ch, scalars_ch, scalars_render first, scalars_renderElements (next :: rest)]

private theorem scalars_renderMembers : ∀ members : Members,
    Scalars (renderMembers members) ↔ WritableMembers members
  | [] => iff_of_true (scalars_ch.mpr scalars_nil) trivial
  | [(key, last)] => by
    unfold renderMembers WritableMembers WritableMembers
    rw [scalars_append, scalars_ch, scalars_ch, scalars_append, scalars_ch, scalars_quote, scalars_render last]
    simp only [scalars_nil]
  | (key, first) :: next :: rest => by
    unfold renderMembers WritableMembers
    rw [scalars_append, scalars_ch, scalars_ch, scalars_append, scalars_ch, scalars_ch, scalars_quote,
      scalars_render first, scalars_renderMembers (next :: rest)]
end

mutual
private theorem writable_sortKeys : ∀ value : Value, Writable (sortKeys value) ↔ Writable value
  | .null | .bool _ | .int _ | .float _ | .str _ => Iff.rfl
  | .arr elements => writable_sortElements elements
  | .obj members => by
    unfold sortKeys Writable
    rw [← writable_sortMembers members, writableMembers_iff, writableMembers_iff]
    simp only [List.mem_insertionSort]

private theorem writable_sortElements : ∀ elements : List Value,
    WritableElements (sortElements elements) ↔ WritableElements elements
  | [] => Iff.rfl
  | first :: rest => by
    unfold sortElements WritableElements
    rw [writable_sortKeys first, writable_sortElements rest]

private theorem writable_sortMembers : ∀ members : Members,
    WritableMembers (sortMembers members) ↔ WritableMembers members
  | [] => Iff.rfl
  | (key, first) :: rest => by
    unfold sortMembers WritableMembers
    rw [writable_sortKeys first, writable_sortMembers rest]
end

/-- A document whose integers convert and whose strings encode can be written. -/
theorem dumps_encodes (fits : intsFit value = true) (writable : Writable value) :
    ∃ serialized bytes, dumps value = some serialized ∧ serialized.encode = some bytes := by
  have scalars : Scalars (render (sortKeys value)) := (scalars_render _).mpr ((writable_sortKeys value).mpr writable)
  obtain ⟨bytes, encoded⟩ := scalars.encode
  exact ⟨render (sortKeys value), bytes, by rw [dumps, if_pos fits], encoded⟩

/-- The converse: what was written has nothing in it that cannot be. -/
theorem writable_of_encodes (dumped : dumps value = some serialized) (encoded : serialized.encode = some bytes) :
    intsFit value = true ∧ Writable value := by
  rw [dumps] at dumped
  split at dumped
  · rename_i fits
    cases dumped
    refine ⟨fits, (writable_sortKeys value).mp ((scalars_render _).mp ?_)⟩
    obtain ⟨chars, scalars, _⟩ := Option.map_eq_some_iff.mp encoded
    rw [Text.mapM_scalar_eq_some.mp scalars]
    intro point held
    obtain ⟨c, _, rfl⟩ := List.mem_map.mp held
    exact ⟨c, rfl⟩
  · cases dumped

end Library.Json
