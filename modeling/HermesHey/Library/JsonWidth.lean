import Mathlib.Algebra.BigOperators.Group.List.Basic
import Mathlib.Algebra.Order.BigOperators.Group.List
import Mathlib.Algebra.Order.Group.Nat
import HermesHey.Library.JsonWritable

/-! How many bytes a document takes. The size of a list of entries is the sum of
theirs and of the separators, whatever the order, so it can be followed through
what is added, dropped and sorted. -/
namespace Library

/-- The bytes of the code point in UTF-8. -/
def CodePoint.width : CodePoint → Nat
  | .scalar c => c.utf8Size
  | .surrogate _ => 3

namespace Text

/-- The bytes of the string in UTF-8. -/
def width (t : Text) : Nat := (t.map CodePoint.width).sum

@[simp] theorem width_nil : width [] = 0 := rfl

@[simp] theorem width_cons : width (point :: t) = point.width + width t := by simp [width]

@[simp] theorem width_append (s t : Text) : width (s ++ t) = width s + width t := by simp [width]

/-- The width of a text is the number of its bytes. -/
theorem encode_size {t : Text} (encoded : t.encode = some bytes) : bytes.size = t.width := by
  obtain ⟨chars, scalars, rfl⟩ := Option.map_eq_some_iff.mp encoded
  rw [mapM_scalar_eq_some.mp scalars, String.toByteArray_ofList]
  clear encoded scalars
  induction chars with
  | nil => rfl
  | cons c rest ih =>
    rw [List.utf8Encode_cons, ByteArray.size_append, ih, List.utf8Encode_singleton, List.size_toByteArray,
      String.length_utf8EncodeChar, List.map_cons, width_cons]
    rfl

end Text

namespace Json

/-- The size of entries of these sizes, with a separator of two bytes between them. -/
def joined (widths : List Nat) : Nat := widths.sum + 2 * (widths.length - 1)

/-- The order of the parts does not matter to their joined width. -/
theorem joined_perm {xs ys : List Nat} (perm : xs.Perm ys) : joined xs = joined ys := by
  rw [joined, joined, perm.sum_eq, perm.length_eq]

/-- Entries before others. -/
theorem joined_append (xs : List Nat) {ys : List Nat} (more : ys ≠ []) :
    joined (xs ++ ys) = xs.sum + 2 * xs.length + joined ys := by
  have one := List.length_pos_iff.mpr more
  rw [joined, joined, List.sum_append, List.length_append]
  omega

theorem joined_cons (x : Nat) {ys : List Nat} (more : ys ≠ []) : joined (x :: ys) = x + 2 + joined ys := by
  have shape := joined_append [x] more
  simpa using shape

@[simp] theorem joined_singleton (x : Nat) : joined [x] = x := by simp [joined]

/-- Parts of a bounded width, each with a comma and a space. -/
theorem joined_le {widths : List Nat} (each : ∀ width ∈ widths, width ≤ bound) :
    joined widths ≤ widths.length * (bound + 2) := by
  have sum : widths.sum ≤ widths.length * bound := by simpa using List.sum_le_card_nsmul widths bound each
  rw [joined, Nat.mul_add]
  omega

private theorem width_escape_le (point : CodePoint) : (escape point).width ≤ 6 := by
  cases point with
  | surrogate offset => exact (show 3 ≤ 6 by decide)
  | scalar c =>
    have one : ∀ {x : Char}, (CodePoint.scalar x).width ≤ 4 := fun {x} => Char.utf8Size_le_four x
    have hex : ∀ n, n < 16 → (ch (hexDigit n)).width = 1 := by decide
    unfold escape
    split
    case h_6 _ c _ _ _ _ _ _ =>
      split
      · decide
      · split
        · decide
        · split
          · rename_i control
            have first := hex (c.toNat / 16) (by omega)
            have second := hex (c.toNat % 16) (by omega)
            have zero : (ch '0').width = 1 := rfl
            have u : (ch 'u').width = 1 := rfl
            have slash : (ch '\\').width = 1 := rfl
            simp only [Text.width_cons, Text.width_nil, first, second, zero, u, slash]
            omega
          · have four : (CodePoint.scalar c).width ≤ 4 := one
            simp only [Text.width_cons, Text.width_nil]
            omega
    case h_7 same => cases same
    all_goals decide

/-- A string of so many code points takes at most so many bytes. -/
theorem width_quote_le (s : Text) : (quote s).width ≤ 6 * s.length + 2 := by
  have escaped : Text.width (s.flatMap escape) ≤ 6 * s.length := by
    induction s with
    | nil => exact Nat.zero_le _
    | cons point rest ih =>
      have first := width_escape_le point
      rw [List.flatMap_cons, Text.width_append, List.length_cons]
      omega
  have edge : (ch '"').width = 1 := rfl
  rw [quote, Text.width_append, Text.width_cons, Text.width_cons, Text.width_nil, edge]
  omega

/-- The size of a member: its key, its colon and its value. -/
def memberWidth (member : Text × Value) : Nat := (quote member.1).width + 2 + (render member.2).width

theorem width_renderElements (elements : List Value) :
    (renderElements elements).width = joined (elements.map fun value => (render value).width) + 1 := by
  induction elements with
  | nil => rfl
  | cons first rest ih =>
    cases rest with
    | nil =>
      rw [renderElements, List.map_singleton, joined_singleton, Text.width_append]
      rfl
    | cons next others =>
      have comma : (ch ',').width = 1 := rfl
      have space : (ch ' ').width = 1 := rfl
      rw [renderElements, List.map_cons, joined_cons _ (by simp), Text.width_append, Text.width_cons,
        Text.width_cons, ih, comma, space]
      · omega
      · simp

theorem width_renderMembers (members : Members) :
    (renderMembers members).width = joined (members.map memberWidth) + 1 := by
  induction members with
  | nil => rfl
  | cons first rest ih =>
    obtain ⟨key, value⟩ := first
    have colon : (ch ':').width = 1 := rfl
    have space : (ch ' ').width = 1 := rfl
    cases rest with
    | nil =>
      have brace : Text.width [ch '\x7d'] = 1 := rfl
      rw [renderMembers, List.map_singleton, joined_singleton, memberWidth, Text.width_append, Text.width_cons,
        Text.width_cons, Text.width_append, colon, space, brace]
      dsimp only
      omega
    | cons next others =>
      have comma : (ch ',').width = 1 := rfl
      rw [renderMembers, List.map_cons, joined_cons _ (by simp), memberWidth, Text.width_append, Text.width_cons,
        Text.width_cons, Text.width_append, Text.width_cons, Text.width_cons, ih, colon, comma, space]
      · dsimp only
        omega
      · simp

/-- The width of an array is that of its parts and brackets. -/
theorem width_arr (elements : List Value) :
    (render (.arr elements)).width = joined (elements.map fun value => (render value).width) + 2 := by
  have bracket : (ch '[').width = 1 := rfl
  rw [render, Text.width_cons, width_renderElements, bracket]
  omega

/-- The width of an object is that of its members and braces. -/
theorem width_obj (members : Members) : (render (.obj members)).width = joined (members.map memberWidth) + 2 := by
  have brace : (ch '\x7b').width = 1 := rfl
  rw [render, Text.width_cons, width_renderMembers, brace]
  omega

mutual
/-- Sorting keys does not change the size. -/
theorem width_sortKeys : ∀ value : Value, (render (sortKeys value)).width = (render value).width
  | .null | .bool _ | .int _ | .float _ | .str _ => by rw [sortKeys] <;> simp
  | .arr elements => by rw [sortKeys, width_arr, width_arr, width_sortElements elements]
  | .obj members => by
    rw [sortKeys, width_obj, width_obj, ← width_sortMembers members]
    exact congrArg (· + 2) (joined_perm ((List.perm_insertionSort _ _).map _))

theorem width_sortElements : ∀ elements : List Value,
    (sortElements elements).map (fun value => (render value).width) = elements.map fun value => (render value).width
  | [] => by rw [sortElements]
  | first :: rest => by
    rw [sortElements, List.map_cons, List.map_cons, width_sortKeys first, width_sortElements rest]

theorem width_sortMembers : ∀ members : Members, (sortMembers members).map memberWidth = members.map memberWidth
  | [] => by rw [sortMembers]
  | (key, first) :: rest => by
    rw [sortMembers, List.map_cons, List.map_cons, memberWidth, memberWidth, width_sortKeys first,
      width_sortMembers rest]
end

/-- The size of what is written. -/
theorem encode_dumps_size (dumped : dumps value = some serialized) (encoded : serialized.encode = some bytes) :
    bytes.size = (render value).width := by
  rw [dumps] at dumped
  split at dumped
  · cases dumped
    rw [Text.encode_size encoded, width_sortKeys]
  · cases dumped

end Json
end Library
