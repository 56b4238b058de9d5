import Mathlib.Data.List.DropRight
import Mathlib.Data.List.Nodup

/-! A queue that accepts an identity once while it remembers it. The memory
keeps every pending identity and, of the completed ones, the `cap` last. -/
namespace Library

/-- The remembered identities and the pending items, oldest first. -/
structure Fifo (ι α : Type) where
  seen : List ι
  pending : List α

namespace Fifo
variable {ι α : Type}

/-- The empty queue. -/
def empty : Fifo ι α := { seen := [], pending := [] }

/-- The pending identities. -/
def pendingIds (key : α → ι) (queue : Fifo ι α) : List ι := queue.pending.map key

/-- Distinct identities, and every pending one remembered. -/
structure Sound (key : α → ι) (queue : Fifo ι α) : Prop where
  seen : queue.seen.Nodup
  pending : (queue.pendingIds key).Nodup
  recorded : queue.pendingIds key ⊆ queue.seen

/-- The memory of a queue that has been written: the completed identities, in
the order of their completion, before the pending ones. -/
structure Settled (key : α → ι) (cap : Nat) (queue : Fifo ι α) (done : List ι) : Prop where
  layout : queue.seen = done ++ queue.pendingIds key
  bounded : done.length ≤ cap
  distinct : (done ++ queue.pendingIds key).Nodup

/-- What changes a queue: an accepted item, or a completed identity. -/
inductive Effect (ι α : Type) where
  | accept (item : α)
  | complete (id : ι)
  | none

section
variable {key : α → ι} {cap : Nat} {queue : Fifo ι α}

/-- The empty queue is settled. -/
theorem settled_empty : (empty : Fifo ι α).Settled key cap [] :=
  ⟨rfl, Nat.zero_le _, List.nodup_nil⟩

theorem sound_empty : (empty : Fifo ι α).Sound key :=
  ⟨List.nodup_nil, List.nodup_nil, List.nil_subset _⟩

/-- A settled queue is sound. -/
theorem Settled.sound (settled : queue.Settled key cap done) : queue.Sound key where
  seen := settled.layout ▸ settled.distinct
  pending := (List.nodup_append'.mp settled.distinct).2.1
  recorded := by
    rw [settled.layout]
    exact List.subset_append_right _ _

/-- In a settled queue the seen identities are those done and those pending. -/
theorem Settled.mem_seen (settled : queue.Settled key cap done) :
    x ∈ queue.seen ↔ x ∈ done ∨ x ∈ queue.pendingIds key := by
  rw [settled.layout, List.mem_append]

/-- What fits into the window is kept. -/
theorem rtake_short {values : List ι} (short : values.length ≤ n) : values.rtake n = values := by
  rw [List.rtake, Nat.sub_eq_zero_of_le short, List.drop_zero]

private theorem rtake_sublist (values : List ι) : (values.rtake n).Sublist values :=
  List.drop_sublist _ _

/-- Dropping from the front commutes with appending at the end. -/
theorem rtake_rtake_append (first second : List ι) :
    (first.rtake n ++ second).rtake n = (first ++ second).rtake n := by
  simp only [List.rtake, List.length_append, List.length_drop, List.drop_append, List.drop_drop]
  congr 2 <;> omega

private theorem rtake_split (before after : List ι) :
    n ≤ after.length ∧ (before ++ x :: after).rtake n = after.rtake n ∨
      ∃ front, (before ++ x :: after).rtake n = front ++ x :: after := by
  by_cases long : n ≤ after.length
  · left
    have spelled : before ++ x :: after = (before ++ [x]) ++ after := by simp
    have offset : ((before ++ [x]) ++ after).length - n =
        (before ++ [x]).length + (after.length - n) := by
      simp only [List.length_append, List.length_singleton]
      omega
    refine ⟨long, ?_⟩
    rw [List.rtake, List.rtake, spelled, offset, List.drop_append, List.drop_eq_nil_of_le (by omega),
      List.nil_append]
    congr 1
    omega
  · right
    refine ⟨before.drop ((before ++ x :: after).length - n), ?_⟩
    rw [List.rtake, List.drop_append_of_le_length]
    simp only [List.length_append, List.length_cons]
    omega

end

/-! ## Effects -/

variable [DecidableEq ι]

/-- The memory a write leaves: the last completed identities, then the pending ones. -/
def remember (cap : Nat) (seen pending : List ι) : List ι :=
  (seen.filter (· ∉ pending)).rtake cap ++ pending

/-- The completed identities that a write drops from the memory, oldest first. -/
def forget (cap : Nat) (seen pending : List ι) : List ι := (seen.filter (· ∉ pending)).rdrop cap

/-- The queue after an effect. -/
def apply (key : α → ι) (cap : Nat) (queue : Fifo ι α) : Effect ι α → Fifo ι α
  | .accept item =>
    let pending := queue.pending ++ [item]
    { seen := remember cap (queue.seen ++ [key item]) (pending.map key), pending }
  | .complete id =>
    let pending := queue.pending.filter (key · ≠ id)
    { seen := remember cap queue.seen (pending.map key), pending }
  | .none => queue

/-- The queue after a list of effects. -/
def play (key : α → ι) (cap : Nat) (queue : Fifo ι α) (effects : List (Effect ι α)) : Fifo ι α :=
  effects.foldl (apply key cap) queue

/-- An item is accepted only under an identity that is not remembered. -/
def Fresh (key : α → ι) (queue : Fifo ι α) : Effect ι α → Prop
  | .accept item => key item ∉ queue.seen
  | _ => True

/-- Every effect of the list is fresh where it happens. -/
def Legal (key : α → ι) (cap : Nat) (queue : Fifo ι α) : List (Effect ι α) → Prop
  | [] => True
  | effect :: rest => Fresh key queue effect ∧ Legal key cap (queue.apply key cap effect) rest

/-- The identities that leave the pending items, in order. -/
def removed (key : α → ι) (cap : Nat) (queue : Fifo ι α) : List (Effect ι α) → List ι
  | [] => []
  | .complete id :: rest =>
    if id ∈ queue.pendingIds key then id :: removed key cap (queue.apply key cap (.complete id)) rest
    else removed key cap (queue.apply key cap (.complete id)) rest
  | effect :: rest => removed key cap (queue.apply key cap effect) rest

variable {key : α → ι} {cap : Nat} {queue : Fifo ι α}

@[simp] theorem play_nil : queue.play key cap [] = queue := rfl

@[simp] theorem play_cons :
    queue.play key cap (effect :: rest) = (queue.apply key cap effect).play key cap rest := rfl

theorem play_append :
    queue.play key cap (xs ++ ys) = (queue.play key cap xs).play key cap ys := List.foldl_append

/-! ## Every write keeps a queue sound -/

/-- What is remembered has no duplicates. -/
theorem remember_nodup {seen pending : List ι} (distinct : seen.Nodup) (apart : pending.Nodup) :
    (remember cap seen pending).Nodup := by
  refine List.nodup_append'.mpr ⟨?_, apart, ?_⟩
  · exact (distinct.filter _).sublist (rtake_sublist _)
  · intro x kept held
    have unheld := (List.mem_filter.mp ((rtake_sublist _).subset kept)).2
    exact (of_decide_eq_true unheld) held

/-- What is dropped and what is kept is all that was known. -/
theorem forget_remember {seen pending : List ι} (distinct : seen.Nodup) (apart : pending.Nodup)
    (recorded : pending ⊆ seen) : (forget cap seen pending ++ remember cap seen pending).Perm seen := by
  have kept : (seen.filter fun x => !decide (x ∉ pending)).Perm pending := by
    refine (List.perm_ext_iff_of_nodup (distinct.filter _) apart).mpr fun x => ?_
    rw [List.mem_filter]
    simp only [Bool.not_eq_true', decide_eq_false_iff_not, not_not]
    exact ⟨fun held => held.2, fun held => ⟨recorded held, held⟩⟩
  have parts : forget cap seen pending ++ (seen.filter (· ∉ pending)).rtake cap = seen.filter (· ∉ pending) :=
    List.take_append_drop _ _
  rw [remember, ← List.append_assoc, parts]
  exact (kept.symm.append_left _).trans (List.filter_append_perm _ seen)

theorem forget_short {seen pending : List ι} (short : seen.length ≤ cap) : forget cap seen pending = [] := by
  rw [forget, List.rdrop, Nat.sub_eq_zero_of_le ((List.length_filter_le _ _).trans short), List.take_zero]

/-- Nothing is remembered but what was seen. -/
theorem remember_subset {seen pending : List ι} (recorded : pending ⊆ seen) : remember cap seen pending ⊆ seen := by
  rw [remember, List.append_subset]
  exact ⟨fun x held => (List.mem_filter.mp ((rtake_sublist _).subset held)).1, recorded⟩

/-- A memory of something completed is not empty. -/
theorem remember_ne_nil {seen pending : List ι} (known : x ∈ seen) (done : x ∉ pending) (room : 0 < cap) :
    remember cap seen pending ≠ [] := by
  intro empty
  rw [remember, List.append_eq_nil_iff] at empty
  have completed : x ∈ seen.filter (· ∉ pending) := List.mem_filter.mpr ⟨known, decide_eq_true done⟩
  have length := congrArg List.length empty.1
  rw [List.rtake, List.length_drop, List.length_nil] at length
  have present := List.length_pos_of_mem completed
  omega

/-- Every fresh effect keeps a queue sound. -/
theorem Sound.apply {effect : Effect ι α} (sound : queue.Sound key) (fresh : queue.Fresh key effect) :
    (queue.apply key cap effect).Sound key := by
  cases effect with
  | none => exact sound
  | accept item =>
    have unseen : key item ∉ queue.seen := fresh
    have pending : ((queue.pending ++ [item]).map key).Nodup := by
      rw [List.map_append, List.map_singleton, List.nodup_append']
      refine ⟨sound.pending, List.nodup_singleton _, ?_⟩
      rw [List.disjoint_singleton]
      exact fun held => unseen (sound.recorded held)
    refine ⟨remember_nodup ?_ pending, pending, List.subset_append_right _ _⟩
    exact List.nodup_append'.mpr ⟨sound.seen, List.nodup_singleton _, by simpa using unseen⟩
  | complete x =>
    have pending : ((queue.pending.filter (key · ≠ x)).map key).Nodup :=
      sound.pending.sublist (List.filter_sublist.map key)
    exact ⟨remember_nodup sound.seen pending, pending, List.subset_append_right _ _⟩

/-- From a sound queue, every legal list of effects reaches a sound one. -/
theorem Sound.play {effects : List (Effect ι α)} (sound : queue.Sound key)
    (legal : queue.Legal key cap effects) : (queue.play key cap effects).Sound key := by
  induction effects generalizing queue with
  | nil => exact sound
  | cons effect rest ih => exact ih (sound.apply legal.1) legal.2

/-! ## The window of completed identities -/

private theorem filter_done {done inside rest : List ι} (distinct : (done ++ rest).Nodup)
    (subset : inside ⊆ rest) : done.filter (· ∉ inside) = done := by
  rw [List.filter_eq_self]
  intro x held
  have apart := (List.nodup_append'.mp distinct).2.2
  exact decide_eq_true fun pending => apart held (subset pending)

private theorem filter_nothing {inside rest : List ι} (subset : inside ⊆ rest) :
    inside.filter (· ∉ rest) = [] := by
  rw [List.filter_eq_nil_iff]
  intro x held
  simpa using subset held

/-- A memory of pending identities only is kept. -/
theorem remember_self (cap : Nat) (ids : List ι) : remember cap ids ids = ids := by
  rw [remember, filter_nothing (List.Subset.refl ids), List.rtake_nil, List.nil_append]

/-- An accepted item leaves a settled queue settled. -/
theorem Settled.accept (settled : queue.Settled key cap done) (fresh : key item ∉ queue.seen) :
    (queue.apply key cap (.accept item)).Settled key cap done := by
  have spelled : (queue.pending ++ [item]).map key = queue.pendingIds key ++ [key item] := by
    simp [pendingIds]
  have distinct : (done ++ (queue.pendingIds key ++ [key item])).Nodup := by
    rw [← List.append_assoc, ← settled.layout]
    exact List.nodup_append'.mpr ⟨settled.sound.seen, List.nodup_singleton _, by simpa using fresh⟩
  refine ⟨?_, settled.bounded, ?_⟩
  · change remember cap (queue.seen ++ [key item]) _ = done ++ (queue.pending ++ [item]).map key
    rw [spelled, remember, settled.layout, List.append_assoc, List.filter_append,
      filter_done distinct (List.Subset.refl _), filter_nothing (List.Subset.refl _), List.append_nil,
      rtake_short settled.bounded]
  · change (done ++ (queue.pending ++ [item]).map key).Nodup
    rw [spelled]
    exact distinct

private theorem map_filter_key (items : List α) (x : ι) :
    (items.filter (key · ≠ x)).map key = (items.map key).filter (· ≠ x) := by
  rw [List.filter_map]
  rfl

/-- Completing an identity that is not pending changes nothing. -/
theorem Settled.complete_absent (settled : queue.Settled key cap done)
    (absent : x ∉ queue.pendingIds key) : queue.apply key cap (.complete x) = queue := by
  have all : queue.pending.filter (key · ≠ x) = queue.pending := by
    rw [List.filter_eq_self]
    intro item held
    exact decide_eq_true fun same => absent (List.mem_map.mpr ⟨item, held, same⟩)
  have seen : remember cap queue.seen (queue.pendingIds key) = queue.seen := by
    rw [remember, settled.layout, List.filter_append,
      filter_done settled.distinct (List.Subset.refl _), filter_nothing (List.Subset.refl _),
      List.append_nil, rtake_short settled.bounded]
  simp only [Fifo.apply, all]
  exact congrArg (fun held => ({ seen := held, pending := queue.pending } : Fifo ι α)) seen

/-- Completing a pending identity makes it the last completed one. -/
theorem Settled.complete_pending (settled : queue.Settled key cap done)
    (present : x ∈ queue.pendingIds key) :
    (queue.apply key cap (.complete x)).Settled key cap ((done ++ [x]).rtake cap) := by
  have kept : (queue.pending.filter (key · ≠ x)).map key = (queue.pendingIds key).filter (· ≠ x) :=
    map_filter_key _ _
  have subset : (queue.pendingIds key).filter (· ≠ x) ⊆ queue.pendingIds key := List.filter_subset_self _
  have leaving : (queue.pendingIds key).filter (· ∉ (queue.pendingIds key).filter (· ≠ x)) = [x] := by
    have only : ∀ y ∈ queue.pendingIds key,
        decide (y ∉ (queue.pendingIds key).filter (· ≠ x)) = decide (y = x) := by
      intro y held
      simp only [List.mem_filter, decide_eq_true_eq, not_and, not_not]
      exact decide_eq_decide.mpr ⟨fun leaves => leaves held, fun same _ => same⟩
    rw [List.filter_congr only, List.filter_eq]
    rw [List.count_eq_one_of_mem settled.sound.pending present]
    rfl
  have distinct : (done ++ [x] ++ (queue.pendingIds key).filter (· ≠ x)).Nodup := by
    have apart := List.nodup_append'.mp settled.distinct
    rw [List.append_assoc, List.nodup_append']
    refine ⟨apart.1, ?_, ?_⟩
    · rw [List.singleton_append, List.nodup_cons]
      exact ⟨by simp, apart.2.1.filter _⟩
    · intro y held pending
      rcases List.mem_cons.mp pending with rfl | pending
      · exact apart.2.2 held present
      · exact apart.2.2 held (subset pending)
  refine ⟨?_, ?_, ?_⟩
  · change remember cap queue.seen _ = _ ++ (queue.pending.filter (key · ≠ x)).map key
    rw [kept, remember, settled.layout, List.filter_append, filter_done settled.distinct subset, leaving]
  · rw [List.rtake, List.length_drop]
    omega
  · change (_ ++ (queue.pending.filter (key · ≠ x)).map key).Nodup
    rw [kept]
    exact distinct.sublist ((rtake_sublist _).append_right _)

/-- Over a run the window is the last `cap` of the completed identities. -/
theorem Settled.play {effects : List (Effect ι α)} (settled : queue.Settled key cap done)
    (legal : queue.Legal key cap effects) :
    (queue.play key cap effects).Settled key cap ((done ++ queue.removed key cap effects).rtake cap) := by
  induction effects generalizing queue done with
  | nil =>
    rw [removed, List.append_nil, rtake_short settled.bounded]
    exact settled
  | cons effect rest ih =>
    cases effect with
    | none => exact ih settled legal.2
    | accept item => exact ih (settled.accept legal.1) legal.2
    | complete x =>
      rw [play_cons, removed]
      by_cases present : x ∈ queue.pendingIds key
      · rw [if_pos present]
        have reached := ih (settled.complete_pending present) legal.2
        rwa [rtake_rtake_append, List.append_assoc, List.singleton_append] at reached
      · have rest := legal.2
        rw [settled.complete_absent present] at rest
        rw [if_neg present, settled.complete_absent present]
        exact ih settled rest

/-- Each removed identity left at one of the effects. -/
theorem removed_at {effects : List (Effect ι α)} (left : x ∈ queue.removed key cap effects) :
    ∃ before after, effects = before ++ .complete x :: after ∧
      x ∈ (queue.play key cap before).pendingIds key := by
  induction effects generalizing queue with
  | nil => cases left
  | cons effect rest ih =>
    have later : x ∈ (queue.apply key cap effect).removed key cap rest →
        ∃ before after, effect :: rest = before ++ .complete x :: after ∧
          x ∈ (queue.play key cap before).pendingIds key := by
      intro held
      obtain ⟨before, after, rfl, pending⟩ := ih held
      exact ⟨effect :: before, after, rfl, pending⟩
    cases effect with
    | none => exact later left
    | accept item => exact later left
    | complete y =>
      rw [removed] at left
      by_cases present : y ∈ queue.pendingIds key
      · rw [if_pos present, List.mem_cons] at left
        rcases left with rfl | left
        · exact ⟨[], rest, rfl, present⟩
        · exact later left
      · rw [if_neg present] at left
        exact later left

/-- `x` left the pending items, and then `cap` distinct other identities did. -/
structure Forgotten (key : α → ι) (cap : Nat) (queue : Fifo ι α) (effects : List (Effect ι α))
    (x : ι) : Prop where
  window : ∃ before after, effects = before ++ .complete x :: after ∧
    x ∈ (queue.play key cap before).pendingIds key ∧
    ∃ others : List ι, others.Nodup ∧ cap ≤ others.length ∧ x ∉ others ∧
      ∀ y ∈ others, y ∈ (queue.play key cap (before ++ [.complete x])).removed key cap after

/-- What is forgotten later is forgotten. -/
theorem Forgotten.cons (rest : Forgotten key cap (queue.apply key cap effect) effects x) :
    Forgotten key cap queue (effect :: effects) x := by
  obtain ⟨before, after, rfl, pending, others⟩ := rest.window
  exact ⟨effect :: before, after, rfl, pending, others⟩

private theorem kept_pending (present : x ∈ queue.pendingIds key)
    (other : effect ≠ .complete x) : x ∈ (queue.apply key cap effect).pendingIds key := by
  obtain ⟨item, held, same⟩ := List.mem_map.mp present
  cases effect with
  | none => exact present
  | accept item' => exact List.mem_map.mpr ⟨item, List.mem_append_left _ held, same⟩
  | complete y =>
    refine List.mem_map.mpr ⟨item, List.mem_filter.mpr ⟨held, ?_⟩, same⟩
    apply decide_eq_true
    rintro rfl
    exact other (by rw [same])

private theorem window_of_unseen {effects : List (Effect ι α)} {before after : List ι}
    (settled : queue.Settled key cap (before ++ x :: after)) (legal : queue.Legal key cap effects)
    (unseen : x ∉ (queue.play key cap effects).seen) :
    ∃ others : List ι, others.Nodup ∧ cap ≤ others.length ∧ x ∉ others ∧
      ∀ y ∈ others, y ∈ after ++ queue.removed key cap effects := by
  induction effects generalizing queue before after with
  | nil => exact absurd (settled.mem_seen.mpr (.inl (by simp))) unseen
  | cons effect rest ih =>
    cases effect with
    | none => exact ih settled legal.2 unseen
    | accept item => exact ih (settled.accept legal.1) legal.2 unseen
    | complete y =>
      rw [removed]
      by_cases present : y ∈ queue.pendingIds key
      · have next := settled.complete_pending present
        rw [if_pos present]
        have spelled : before ++ x :: after ++ [y] = before ++ x :: (after ++ [y]) := by simp
        rw [spelled] at next
        rcases rtake_split (n := cap) before (after ++ [y]) with ⟨long, dropped⟩ | ⟨front, within⟩
        · have apart : x ∉ after ++ [y] := by
            have distinct := settled.distinct
            rw [List.append_assoc, List.nodup_append', List.cons_append, List.nodup_cons] at distinct
            intro inside
            apply distinct.2.1.1
            simp only [List.mem_append, List.mem_singleton] at inside ⊢
            rcases inside with inside | rfl
            · exact .inl inside
            · exact .inr present
          rw [dropped] at next
          refine ⟨_, (List.nodup_append'.mp next.distinct).1, ?_, fun held => ?_, fun z taken => ?_⟩
          · rw [List.rtake, List.length_drop]
            omega
          · exact apart ((rtake_sublist _).subset held)
          · have inside := (rtake_sublist _).subset taken
            simp only [List.mem_append, List.mem_cons, List.not_mem_nil, or_false] at inside ⊢
            tauto
        · rw [within] at next
          obtain ⟨others, distinct, enough, apart, left⟩ := ih next legal.2 unseen
          refine ⟨others, distinct, enough, apart, fun z taken => ?_⟩
          simpa using left z taken
      · have rest := legal.2
        rw [play_cons, settled.complete_absent present] at unseen
        rw [settled.complete_absent present] at rest
        rw [if_neg present, settled.complete_absent present]
        exact ih settled rest unseen

/-- A pending identity is forgotten only after it was completed and `cap`
others were completed after it. -/
theorem forgotten_of_unseen {effects : List (Effect ι α)} (positive : 0 < cap)
    (settled : queue.Settled key cap done) (present : x ∈ queue.pendingIds key)
    (legal : queue.Legal key cap effects) (unseen : x ∉ (queue.play key cap effects).seen) :
    Forgotten key cap queue effects x := by
  induction effects generalizing queue done with
  | nil => exact absurd (settled.sound.recorded present) unseen
  | cons effect rest ih =>
    have first : queue.Legal key cap [effect] := ⟨legal.1, trivial⟩
    have next := settled.play first
    by_cases completes : effect = .complete x
    · subst completes
      obtain ⟨n, rfl⟩ : ∃ n, cap = n + 1 := ⟨cap - 1, by omega⟩
      have last := settled.complete_pending present
      rw [List.rtake_concat_succ] at last
      obtain ⟨others, distinct, enough, apart, left⟩ := window_of_unseen last legal.2 unseen
      exact ⟨[], rest, rfl, present, others, distinct, enough, apart, by simpa using left⟩
    · exact (ih next (kept_pending present completes) legal.2 unseen).cons

end Fifo
end Library
