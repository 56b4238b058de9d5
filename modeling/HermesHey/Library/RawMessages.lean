import Mathlib.Data.List.AList
import Mathlib.Data.List.Sort
import HermesHey.Library.GoJson

/-! `map[string]json.RawMessage`: an object is decoded and written back with its
values as they are. Of two members of one name the last counts. -/
namespace Library.GoJson

/-- The value of the last member of a name. -/
def lastOf : Members → Text → Option Value
  | [], _ => none
  | (name, value) :: rest, key => (lastOf rest key).or (if name = key then some value else none)

/-- What a name stands for in a JSON value. -/
def Value.member (value : Value) (key : Text) : Option Value :=
  match value with
  | .object members => lastOf members key
  | _ => none

abbrev RawMap := AList fun _ : Text => Value

/-- `Unmarshal` into a map of raw messages. -/
def decodeMap : Value → Option RawMap
  | .null => some ∅
  | .object members => some (members.foldl (fun all member => all.insert member.1 member.2) ∅)
  | _ => none

/-- `Marshal` of a map of raw messages. -/
def marshalMap (all : RawMap) : Value :=
  .object ((all.entries.map fun entry => (entry.1, entry.2)).insertionSort fun a b => Text.le a.1 b.1)

/-! ## Members -/

theorem lastOf_eq_none : lastOf members key = none ↔ key ∉ members.map Prod.fst := by
  induction members with
  | nil => simp [lastOf]
  | cons member rest ih =>
    obtain ⟨name, value⟩ := member
    rw [lastOf, Option.or_eq_none_iff, ih]
    simp [and_comm, eq_comm]

theorem lastOf_mem (found : lastOf members key = some value) : (key, value) ∈ members := by
  induction members with
  | nil => cases found
  | cons member rest ih =>
    obtain ⟨name, first⟩ := member
    rw [lastOf, Option.or_eq_some_iff] at found
    rcases found with later | ⟨_, here⟩
    · exact List.mem_cons_of_mem _ (ih later)
    · split at here
      · rename_i same
        subst same
        cases here
        exact List.mem_cons_self
      · cases here

/-- Later members win. -/
theorem lastOf_append (first second : Members) (key : Text) :
    lastOf (first ++ second) key = (lastOf second key).or (lastOf first key) := by
  induction first with
  | nil => exact Option.or_none.symm
  | cons member rest ih =>
    obtain ⟨name, value⟩ := member
    rw [List.cons_append, lastOf, ih, lastOf, Option.or_assoc]

/-- Where every name occurs once, a member is the last of its name. -/
theorem lastOf_eq_some (distinct : (members.map Prod.fst).Nodup) :
    lastOf members key = some value ↔ (key, value) ∈ members := by
  constructor
  · exact lastOf_mem
  · intro held
    cases found : lastOf members key with
    | none => exact absurd (List.mem_map_of_mem held) (lastOf_eq_none.mp found)
    | some other =>
      have same := List.inj_on_of_nodup_map distinct held (lastOf_mem found) rfl
      cases same
      rfl

/-! ## Maps -/

private theorem lookup_foldl (members : Members) (all : RawMap) (key : Text) :
    (members.foldl (fun all member => all.insert member.1 member.2) all).lookup key =
      (lastOf members key).or (all.lookup key) := by
  induction members generalizing all with
  | nil => rfl
  | cons member rest ih =>
    obtain ⟨name, value⟩ := member
    rw [List.foldl_cons, ih, lastOf, Option.or_assoc]
    by_cases same : name = key
    · subst same
      simp
    · rw [AList.lookup_insert_ne (Ne.symm same), if_neg same, Option.none_or]

/-- A decoded map holds the last member of each key. -/
theorem lookup_decodeMap (decoded : decodeMap value = some all) (key : Text) : all.lookup key = value.member key := by
  cases value with
  | object members =>
    cases decoded
    exact (lookup_foldl members ∅ key).trans (Option.or_none)
  | null =>
    cases decoded
    rfl
  | bool _ => cases decoded
  | number _ => cases decoded
  | string _ => cases decoded
  | array _ => cases decoded

/-- What is written back of a map is what the map holds. -/
theorem member_marshalMap (all : RawMap) (key : Text) : (marshalMap all).member key = all.lookup key := by
  have perm := List.perm_insertionSort (fun a b : Text × Value => Text.le a.1 b.1) (all.entries.map fun entry => (entry.1, entry.2))
  have distinct : ((all.entries.map fun entry => (entry.1, entry.2)).map Prod.fst).Nodup := by
    rw [List.map_map]
    exact all.keys_nodup
  have sorted := (perm.map Prod.fst).nodup_iff.mpr distinct
  ext value
  rw [marshalMap, Value.member, lastOf_eq_some sorted, perm.mem_iff, List.mem_map]
  constructor
  · rintro ⟨⟨name, found⟩, held, same⟩
    cases same
    exact AList.mem_lookup_iff.mpr held
  · intro found
    exact ⟨⟨key, value⟩, AList.mem_lookup_iff.mp found, rfl⟩

end Library.GoJson
