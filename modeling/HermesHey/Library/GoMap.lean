import Mathlib.Data.List.AList
import Mathlib.Data.List.Sort
import HermesHey.Library.GoJsonDocument

/-! A Go map with text keys in JSON. `Marshal` writes its entries in the order of their keys, and
`Unmarshal` puts the members of an object into the map that is there. -/
namespace Library.GoJson

/-- `map[string]β` -/
abbrev TextMap (β : Type) := AList fun _ : Text => β

variable {β : Type}

/-- `Marshal` of a map, given that of its values. -/
def marshalMembers (encode : β → Json.Value) (all : TextMap β) : Json.Members :=
  (all.entries.insertionSort fun a b => Text.le a.1 b.1).map fun entry => (entry.1, encode entry.2)

def storeMember (decode : Value → Option β) (all : TextMap β) (member : Text × Value) : Option (TextMap β) :=
  (decode member.2).map fun value => all.insert member.1 value

/-- `decodeState.object` into a map. `null` makes the map nil, and a nil map is made first. -/
def storeMap (decode : Value → Option β) (old : Option (TextMap β)) : Value → Option (Option (TextMap β))
  | .null => some none
  | .object members => (members.foldlM (storeMember decode) (old.getD ∅)).map some
  | _ => none

/-! ## The round trip -/

private theorem lookup_inserted (entries : List (Sigma fun _ : Text => β)) (distinct : entries.NodupKeys)
    (all : TextMap β)
    (key : Text) : (entries.foldl (fun all entry => all.insert entry.1 entry.2) all).lookup key =
      (entries.dlookup key).or (all.lookup key) := by
  induction entries generalizing all with
  | nil => rfl
  | cons entry rest ih =>
    obtain ⟨name, value⟩ := entry
    obtain ⟨absent, others⟩ := List.nodupKeys_cons.mp distinct
    rw [List.foldl_cons, ih others]
    by_cases same : key = name
    · subst same
      rw [List.dlookup_cons_eq, List.dlookup_eq_none.mpr absent, AList.lookup_insert]
      rfl
    · rw [List.dlookup_cons_ne _ _ same, AList.lookup_insert_ne same]

/-- Go writes the entries of a map as it writes their values. -/
theorem goMembers_map (encode : β → Json.Value) (entries : List (Sigma fun _ : Text => β)) :
    goMembers (entries.map fun entry => (entry.1, encode entry.2)) =
      entries.map fun entry => (entry.1, goValue (encode entry.2)) := by
  induction entries with
  | nil => rfl
  | cons entry rest ih =>
    rw [List.map_cons, List.map_cons, goMembers, ih]

private theorem stored_entries {decode : Value → Option β} {encode : β → Json.Value}
    (entries : List (Sigma fun _ : Text => β)) (read : ∀ entry ∈ entries, decode (goValue (encode entry.2)) = some entry.2)
    (all : TextMap β) : (entries.map fun entry => (entry.1, goValue (encode entry.2))).foldlM (storeMember decode) all =
      some (entries.foldl (fun all entry => all.insert entry.1 entry.2) all) := by
  induction entries generalizing all with
  | nil => rfl
  | cons entry rest ih =>
    obtain ⟨first, others⟩ := List.forall_mem_cons.mp read
    rw [List.map_cons, List.foldlM_cons, storeMember, first]
    exact ih others _

/-- What is written of a map is read back as a map with the same entries. -/
theorem storeMap_marshal {decode : Value → Option β} {encode : β → Json.Value} (all : TextMap β)
    (read : ∀ entry ∈ all.entries, decode (goValue (encode entry.2)) = some entry.2) :
    ∃ found : TextMap β, storeMap decode (some ∅) (goValue (.obj (marshalMembers encode all))) = some (some found) ∧
      ∀ key, found.lookup key = all.lookup key := by
  have perm := List.perm_insertionSort (fun a b : Sigma fun _ : Text => β => Text.le a.1 b.1) all.entries
  have distinct := (List.perm_nodupKeys perm).mpr all.nodupKeys
  rw [marshalMembers]
  generalize all.entries.insertionSort (fun a b => Text.le a.1 b.1) = entries at perm distinct
  refine ⟨entries.foldl (fun all entry => all.insert entry.1 entry.2) ∅, ?_, fun key => ?_⟩
  · rw [goValue, storeMap, goMembers_map, Option.getD_some,
      stored_entries entries fun entry held => read entry (perm.subset held)]
    rfl
  · rw [lookup_inserted _ distinct, AList.lookup_empty, Option.or_none]
    exact List.perm_dlookup key distinct perm

end Library.GoJson
