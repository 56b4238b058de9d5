import Mathlib.Data.Prod.Basic
import Mathlib.Logic.Function.Basic

/-! A claim table: at most one holder for each key. The table maps a key to the
identity claimed under it; a holder works on an item, and a release names the
item's identity only. -/
namespace Library.ClaimTable

variable {κ ι α η : Type}

/-- The items of a kind whose identity determines their key. -/
structure Keyed (key : α → κ) (ident : α → ι) (valid : α → Prop) : Prop where
  key_of_ident : ∀ x y, valid x → valid y → ident x = ident y → key x = key y

/-- Every holder's key is claimed for its item, and no two holders share a key. -/
structure Exclusive (key : α → κ) (ident : α → ι) (valid : α → Prop) (table : κ → Option ι)
    (holds : η → α → Prop) : Prop where
  sound : ∀ h x, holds h x → valid x
  claimed : ∀ k id, table k = some id → ∃ x, valid x ∧ key x = k ∧ ident x = id
  held : ∀ h x, holds h x → table (key x) = some (ident x)
  exclusive : ∀ h h' x x', holds h x → holds h' x' → key x = key x' → h = h'

/-- Every claim has its holder. -/
def Tight (key : α → κ) (ident : α → ι) (table : κ → Option ι) (holds : η → α → Prop) : Prop :=
  ∀ k id, table k = some id → ∃ h x, holds h x ∧ key x = k ∧ ident x = id

variable {key : α → κ} {ident : α → ι} {valid : α → Prop} {table : κ → Option ι}
  {holds later : η → α → Prop}

/-- Holders may end without a release. -/
theorem Exclusive.mono (before : Exclusive key ident valid table holds)
    (fewer : ∀ h x, later h x → holds h x) : Exclusive key ident valid table later where
  sound h x held := before.sound h x (fewer h x held)
  claimed := before.claimed
  held h x held := before.held h x (fewer h x held)
  exclusive h h' x x' held held' := before.exclusive h h' x x' (fewer h x held) (fewer h' x' held')

/-- Handing an item over from one holder to another. -/
theorem Exclusive.move (before : Exclusive key ident valid table holds) (taker : η)
    (held : holds giver item)
    (moved : ∀ h x, later h x → h ≠ giver ∧ holds h x ∨ h = taker ∧ x = item) :
    Exclusive key ident valid table later where
  sound h x now := by
    rcases moved h x now with ⟨_, old⟩ | ⟨_, rfl⟩
    · exact before.sound h x old
    · exact before.sound giver x held
  claimed := before.claimed
  held h x now := by
    rcases moved h x now with ⟨_, old⟩ | ⟨_, rfl⟩
    · exact before.held h x old
    · exact before.held giver x held
  exclusive h h' x x' now now' same := by
    rcases moved h x now with ⟨other, old⟩ | ⟨rfl, rfl⟩ <;>
      rcases moved h' x' now' with ⟨other', old'⟩ | ⟨rfl, rfl⟩
    · exact before.exclusive h h' x x' old old' same
    · exact absurd (before.exclusive h giver x x' old held same) other
    · exact absurd (before.exclusive h' giver x' x old' held same.symm) other'
    · rfl

/-- More holders do no harm. -/
theorem Tight.mono (before : Tight key ident table holds)
    (kept : ∀ h x, holds h x → later h x) : Tight key ident table later := by
  intro k id found
  obtain ⟨h, x, held, keyed⟩ := before k id found
  exact ⟨h, x, kept h x held, keyed⟩

/-- An item may pass from one holder to another. -/
theorem Tight.move (before : Tight key ident table holds)
    (unique : ∀ x, holds giver x → x = item) (taken : later taker item)
    (kept : ∀ h x, holds h x → h ≠ giver → later h x) : Tight key ident table later := by
  intro k id found
  obtain ⟨h, x, held, keyed⟩ := before k id found
  by_cases same : h = giver
  · subst same
    rw [unique x held] at keyed
    exact ⟨taker, item, taken, keyed⟩
  · exact ⟨h, x, kept h x held same, keyed⟩

/-- Dropping a holder without a release breaks tightness: its claim stays. -/
theorem not_tight_of_dropped (exclusive : Exclusive key ident valid table holds)
    (held : holds holder item) (dropped : ∀ h x, later h x → h ≠ holder ∧ holds h x) :
    ¬ Tight key ident table later := by
  intro tight
  obtain ⟨h, x, now, same, _⟩ := tight (key item) (ident item) (exclusive.held holder item held)
  obtain ⟨other, old⟩ := dropped h x now
  exact other (exclusive.exclusive h holder x item old held same)

section Claim
variable [DecidableEq κ]

/-- The table after an item was claimed. -/
def take (table : κ → Option ι) (key : κ) (id : ι) : κ → Option ι := Function.update table key (some id)

/-- Claiming a free key for a new holder. -/
theorem Exclusive.take (before : Exclusive key ident valid table holds) (holder : η)
    (fresh : valid item) (free : table (key item) = none)
    (more : ∀ h x, later h x → holds h x ∨ h = holder ∧ x = item) :
    Exclusive key ident valid (take table (key item) (ident item)) later where
  sound h x held := by
    rcases more h x held with old | ⟨_, rfl⟩
    · exact before.sound h x old
    · exact fresh
  claimed k id found := by
    by_cases same : k = key item
    · subst same
      rw [ClaimTable.take, Function.update_self] at found
      cases found
      exact ⟨item, fresh, rfl, rfl⟩
    · rw [ClaimTable.take, Function.update_of_ne same] at found
      exact before.claimed k id found
  held h x held := by
    rcases more h x held with old | ⟨_, rfl⟩
    · have taken := before.held h x old
      have other : key x ≠ key item := by
        intro same
        rw [same, free] at taken
        cases taken
      rw [ClaimTable.take, Function.update_of_ne other, taken]
    · rw [ClaimTable.take, Function.update_self]
  exclusive h h' x x' held held' same := by
    have occupied : ∀ h x, holds h x → key x ≠ key item := by
      intro h x old same
      have taken := before.held h x old
      rw [same, free] at taken
      cases taken
    rcases more h x held with old | ⟨rfl, rfl⟩ <;> rcases more h' x' held' with old' | ⟨rfl, rfl⟩
    · exact before.exclusive h h' x x' old old' same
    · exact absurd same (occupied h x old)
    · exact absurd same.symm (occupied h' x' old')
    · rfl

/-- Taking an item keeps the table tight, when someone holds the item. -/
theorem Tight.take (before : Tight key ident table holds) (holding : later holder item)
    (kept : ∀ h x, holds h x → later h x) :
    Tight key ident (take table (key item) (ident item)) later := by
  intro k id found
  by_cases same : k = key item
  · subst same
    rw [ClaimTable.take, Function.update_self] at found
    cases found
    exact ⟨holder, item, holding, rfl, rfl⟩
  · rw [ClaimTable.take, Function.update_of_ne same] at found
    obtain ⟨h, x, held, keyed⟩ := before k id found
    exact ⟨h, x, kept h x held, keyed⟩

end Claim

section Release
variable [DecidableEq ι]

/-- The table after every claim of an identity was released. -/
def release (table : κ → Option ι) (id : ι) : κ → Option ι := fun key =>
  if table key = some id then none else table key

/-- Releasing an item's identity together with its holder. -/
theorem Exclusive.release (keyed : Keyed key ident valid)
    (before : Exclusive key ident valid table holds) (held : holds holder item)
    (fewer : ∀ h x, later h x → h ≠ holder ∧ holds h x) :
    Exclusive key ident valid (release table (ident item)) later where
  sound h x now := before.sound h x (fewer h x now).2
  claimed k id found := by
    rw [ClaimTable.release] at found
    split at found
    · cases found
    · exact before.claimed k id found
  held h x now := by
    obtain ⟨other, old⟩ := fewer h x now
    have taken := before.held h x old
    rw [ClaimTable.release, if_neg, taken]
    rw [taken]
    intro same
    have sameKey := keyed.key_of_ident x item (before.sound h x old) (before.sound holder item held)
      (Option.some.inj same)
    exact other (before.exclusive h holder x item old held sameKey)
  exclusive h h' x x' now now' same :=
    before.exclusive h h' x x' (fewer h x now).2 (fewer h' x' now').2 same

/-- A release frees the item's key and no other. -/
theorem Exclusive.release_other (keyed : Keyed key ident valid)
    (before : Exclusive key ident valid table holds) (held : holds holder item)
    (other : k ≠ key item) : ClaimTable.release table (ident item) k = table k := by
  rw [ClaimTable.release]
  split
  · rename_i claimed
    obtain ⟨x, isValid, rfl, same⟩ := before.claimed k _ claimed
    exact absurd (keyed.key_of_ident x item isValid (before.sound holder item held) same) other
  · rfl

/-- Releasing it does, when its only holder lets go. -/
theorem Tight.release (before : Tight key ident table holds)
    (unique : ∀ x, holds holder x → x = item)
    (kept : ∀ h x, holds h x → h ≠ holder → later h x) :
    Tight key ident (release table (ident item)) later := by
  intro k id found
  rw [ClaimTable.release] at found
  split at found
  · cases found
  · rename_i other
    obtain ⟨h, x, held, rfl, rfl⟩ := before k id found
    refine ⟨h, x, kept h x held ?_, rfl, rfl⟩
    rintro rfl
    rw [unique x held] at found other
    exact other found

end Release

end Library.ClaimTable
