import Mathlib.Data.List.Sort
import HermesHey.Library.Text

/-! Sorting by an order that tells the elements of a list apart: whatever the
algorithm, there is one result. -/
namespace Library

section
variable {α : Type} {sorted l l' : List α} {r : α → α → Prop} [DecidableRel r] [Std.Total r] [IsTrans α r]

/-- Every arrangement in order is the sorted list. -/
theorem eq_insertionSort (perm : sorted.Perm l) (inOrder : sorted.Pairwise r)
    (antisymm : ∀ a ∈ l, ∀ b ∈ l, r a b → r b a → a = b) : sorted = l.insertionSort r := by
  have same : sorted.Perm (l.insertionSort r) := perm.trans (List.perm_insertionSort r l).symm
  refine List.Perm.eq_of_pairwise ?_ inOrder (List.pairwise_insertionSort r l) same
  intro a b first second
  exact antisymm a (perm.mem_iff.mp first) b ((List.mem_insertionSort r).mp second)

/-- The order of the input does not matter. -/
theorem insertionSort_perm (perm : l.Perm l') (antisymm : ∀ a ∈ l, ∀ b ∈ l, r a b → r b a → a = b) :
    l'.insertionSort r = l.insertionSort r := by
  apply eq_insertionSort _ (List.pairwise_insertionSort r l') antisymm
  exact (List.perm_insertionSort r l').trans perm.symm

end

/-! ## Cuts -/

/-- The front up to the first failure is a part of what passes. -/
theorem takeWhile_sublist_filter (p : α → Bool) (l : List α) : (l.takeWhile p).Sublist (l.filter p) := by
  induction l with
  | nil => exact .slnil
  | cons a l ih =>
    cases held : p a with
    | true =>
      rw [List.takeWhile_cons_of_pos held, List.filter_cons_of_pos held]
      exact ih.cons_cons a
    | false =>
      rw [List.takeWhile_cons_of_neg (ne_true_of_eq_false held)]
      exact List.nil_sublist _

/-- A cut at the first miss keeps every match, exactly when no match stands behind a miss. -/
theorem takeWhile_eq_filter_iff {p : α → Bool} {l : List α} :
    l.takeWhile p = l.filter p ↔ l.Pairwise fun front behind => p front = false → p behind = false := by
  induction l with
  | nil => simp
  | cons a l ih =>
    rw [List.pairwise_cons]
    cases held : p a with
    | true =>
      rw [List.takeWhile_cons_of_pos held, List.filter_cons_of_pos held, List.cons.injEq, ih]
      simp
    | false =>
      rw [List.takeWhile_cons_of_neg (ne_true_of_eq_false held), List.filter_cons_of_neg (ne_true_of_eq_false held),
        eq_comm, List.filter_eq_nil_iff]
      constructor
      · intro missed
        have none : ∀ behind ∈ l, p behind = false := by simpa using missed
        exact ⟨fun behind inside _ => none behind inside, List.pairwise_of_forall_mem_list fun _ _ behind inside _ =>
          none behind inside⟩
      · rintro ⟨none, _⟩ behind inside
        rw [none behind inside rfl]
        exact Bool.false_ne_true

namespace CodePoint

theorem code_injective : Function.Injective code := by
  intro a b same
  cases a with
  | scalar c =>
    have valid := c.valid
    cases b with
    | scalar d => exact congrArg scalar (Char.toNat_inj.mp same)
    | surrogate offset =>
      have bound := offset.isLt
      have same : c.toNat = 0xD800 + offset.val := same
      rw [Char.toNat] at same
      rcases valid with low | high <;> omega
  | surrogate offset =>
    have bound := offset.isLt
    cases b with
    | scalar d =>
      have valid := d.valid
      have same : 0xD800 + offset.val = d.toNat := same
      rw [Char.toNat] at same
      rcases valid with low | high <;> omega
    | surrogate other =>
      have same : 0xD800 + offset.val = 0xD800 + other.val := same
      exact congrArg surrogate (Fin.ext (by omega))

end CodePoint

namespace Text

/-- The order of code points is total. -/
theorem le_or_le (a b : Text) : le a b = true ∨ le b a = true := by
  simp only [le, decide_eq_true_eq]
  exact le_total _ _

/-- It is transitive. -/
theorem le_of_le {a b c : Text} (first : le a b = true) (second : le b c = true) : le a c = true := by
  simp only [le, decide_eq_true_eq] at *
  exact first.trans second

/-- It is antisymmetric. -/
theorem eq_of_le {a b : Text} (first : le a b = true) (second : le b a = true) : a = b := by
  simp only [le, decide_eq_true_eq] at *
  exact CodePoint.code_injective.list_map (first.antisymm second)

end Text
end Library
