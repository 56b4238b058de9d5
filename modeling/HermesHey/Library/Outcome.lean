import Mathlib.Data.List.Forall2

/-! Computations that may raise: peeling a successful one apart. -/
namespace Library

theorem ok_bind (a : α) (f : α → Except ε β) : (Except.ok a >>= f) = f a := rfl

/-- A sequence succeeds when both of its parts do. -/
theorem bind_eq_ok {x : Except ε α} {f : α → Except ε β} :
    x >>= f = .ok b ↔ ∃ a, x = .ok a ∧ f a = .ok b := by
  cases x with
  | ok a => simp [bind, Except.bind]
  | error e => simp [bind, Except.bind]

theorem map_eq_ok {x : Except ε α} {f : α → β} : f <$> x = .ok b ↔ ∃ a, x = .ok a ∧ f a = b := by
  cases x <;> simp [Functor.map, Except.map]

@[simp] theorem pure_eq_ok {a b : α} : (pure a : Except ε α) = .ok b ↔ a = b := by
  simp [pure, Except.pure]

/-- A guard in a computation that may raise. -/
theorem ite_error_eq_ok {p : Prop} [Decidable p] {e : ε} {x : Except ε α} :
    (if p then .error e else x) = .ok a ↔ ¬ p ∧ x = .ok a := by
  by_cases holds : p <;> simp [holds]

/-- Mapping a computation that may raise over a list succeeds exactly when it
does so on every element, in order. -/
theorem mapM_eq_ok {f : α → Except ε β} {xs : List α} {ys : List β} :
    xs.mapM f = .ok ys ↔ List.Forall₂ (fun x y => f x = .ok y) xs ys := by
  induction xs generalizing ys with
  | nil => cases ys <;> simp [pure_eq_ok]
  | cons x xs ih =>
    rw [List.mapM_cons]
    cases ys with
    | nil => simp [bind_eq_ok, map_eq_ok]
    | cons y ys => simp [bind_eq_ok, map_eq_ok, ih]

/-- Where a whole list succeeds, each element does. -/
theorem mapM_ok_at {f : α → Except ε β} {xs : List α} (ran : xs.mapM f = .ok ys) (held : x ∈ xs) :
    ∃ y ∈ ys, f x = .ok y := by
  induction mapM_eq_ok.mp ran with
  | nil => cases held
  | cons first rest ih =>
    rcases List.mem_cons.mp held with rfl | later
    · exact ⟨_, List.mem_cons_self, first⟩
    · obtain ⟨y, inside, mapped⟩ := ih (mapM_eq_ok.mpr rest) later
      exact ⟨y, List.mem_cons_of_mem _ inside, mapped⟩

/-- A loop that fails does so on some element. -/
theorem foldlM_error_at {f : σ → α → Except ε σ} {xs : List α} (failed : xs.foldlM f s = .error e) :
    ∃ x ∈ xs, ∃ t, f t x = .error e := by
  induction xs generalizing s with
  | nil => cases failed
  | cons x xs ih =>
    rw [List.foldlM_cons] at failed
    cases first : f s x with
    | error error =>
      rw [first] at failed
      cases failed
      exact ⟨x, List.mem_cons_self, s, first⟩
    | ok next =>
      rw [first] at failed
      obtain ⟨other, held, t, later⟩ := ih failed
      exact ⟨other, List.mem_cons_of_mem _ held, t, later⟩

/-- What every round that succeeds preserves, a loop that succeeds preserves. -/
theorem foldlM_invariant {f : σ → α → Except ε σ} {xs : List α} (inv : σ → Prop)
    (kept : ∀ x ∈ xs, ∀ s t, inv s → f s x = .ok t → inv t) (ran : xs.foldlM f s = .ok u) (held : inv s) : inv u := by
  induction xs generalizing s with
  | nil =>
    cases ran
    exact held
  | cons x xs ih =>
    rw [List.foldlM_cons, bind_eq_ok] at ran
    obtain ⟨next, first, rest⟩ := ran
    obtain ⟨here, later⟩ := List.forall_mem_cons.mp kept
    exact ih later rest (here s next held first)

/-- A loop that succeeds does so on every element. -/
theorem foldlM_ok_at {f : σ → α → Except ε σ} {xs : List α} (ran : xs.foldlM f s = .ok u) (held : x ∈ xs) :
    ∃ t v, f t x = .ok v := by
  induction xs generalizing s with
  | nil => cases held
  | cons y xs ih =>
    rw [List.foldlM_cons, bind_eq_ok] at ran
    obtain ⟨next, first, rest⟩ := ran
    rcases List.mem_cons.mp held with rfl | later
    · exact ⟨s, next, first⟩
    · exact ih rest later

end Library
