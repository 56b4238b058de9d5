import HermesHey.Library.JsonRoundTrip
import HermesHey.Library.Outcome

/-! What a pairs hook makes of a document. Scanning with a hook is scanning the
plain tree of pairs and then applying the hook to every object of it, innermost
first, so a hook can be judged on trees and never on text. -/
namespace Library.Json

/-- The hook that keeps every pair of every object, in order. -/
def keepPairs (pairs : Members) : Except ScanError Value := .ok (.obj pairs)

section
variable (hook : Members → Except ScanError Value)

mutual
/-- The hook on every object of a tree, innermost first and in the order of the text. -/
def foldHook : Value → Except ScanError Value
  | .arr elements => do return .arr (← foldElements elements)
  | .obj members => do hook (← foldMembers members)
  | value => .ok value

def foldElements : List Value → Except ScanError (List Value)
  | [] => .ok []
  | first :: rest => do return (← foldHook first) :: (← foldElements rest)

def foldMembers : Members → Except ScanError Members
  | [] => .ok []
  | (key, first) :: rest => do return (key, ← foldHook first) :: (← foldMembers rest)
end

end

/-! ## Scanning -/

section
variable {hook : Members → Except ScanError Value}

/-- A scan with the hook against the scan of the tree: the same text is left, and
the value is the folded tree. -/
private def Folded (hook : Members → Except ScanError Value) (kept result : Except ScanError (Value × Text)) : Prop :=
  match kept with
  | .ok (raw, after) => result = (foldHook hook raw).map (·, after)
  | .error _ => ∃ e, result = .error e

/-- The same from inside an object, of which `collected` is behind and was folded to `done`. -/
private def FoldedMembers (hook : Members → Except ScanError Value) (collected done : Members)
    (kept result : Except ScanError (Value × Text)) : Prop :=
  match kept with
  | .ok (raw, after) => ∃ more, raw = .obj (collected ++ more) ∧
      result = (foldMembers hook more >>= fun folded => hook (done ++ folded)).map (·, after)
  | .error _ => ∃ e, result = .error e

private def FoldedElements (hook : Members → Except ScanError Value) (collected done : List Value)
    (kept result : Except ScanError (Value × Text)) : Prop :=
  match kept with
  | .ok (raw, after) => ∃ more, raw = .arr (collected ++ more) ∧
      result = (foldElements hook more).map fun folded => (.arr (done ++ folded), after)
  | .error _ => ∃ e, result = .error e

private theorem folded_members (inner : FoldedMembers hook [] [] kept result) : Folded hook kept result := by
  cases kept with
  | error e => exact inner
  | ok scanned =>
    obtain ⟨more, same, folded⟩ := inner
    change _ = _
    rw [folded, same, foldHook]
    rfl

private theorem folded_elements (inner : FoldedElements hook [] [] kept result) : Folded hook kept result := by
  cases kept with
  | error e => exact inner
  | ok scanned =>
    obtain ⟨more, same, folded⟩ := inner
    change _ = _
    rw [folded, same, foldHook, List.nil_append]
    cases foldElements hook more <;> rfl

private theorem foldedMembers_close (collected done : Members) (after : Text) :
    FoldedMembers hook collected done (do return (← keepPairs collected, after)) (do return (← hook done, after)) := by
  refine ⟨[], by rw [List.append_nil], ?_⟩
  change _ = Except.map _ (hook (done ++ []))
  rw [List.append_nil]
  cases hook done <;> rfl

private theorem foldedElements_close (collected done : List Value) (after : Text) :
    FoldedElements hook collected done (.ok (.arr collected, after)) (.ok (.arr done, after)) := by
  refine ⟨[], by rw [List.append_nil], ?_⟩
  rw [foldElements, Except.map, List.append_nil]

private theorem foldedMembers_value {keptNext next : Value × Text → Except ScanError (Value × Text)}
    (key : Text) (inner : Folded hook kept result)
    (later : ∀ raw value after, FoldedMembers hook (collected ++ [(key, raw)]) (done ++ [(key, value)])
      (keptNext (raw, after)) (next (value, after))) :
    FoldedMembers hook collected done (kept >>= keptNext) (result >>= next) := by
  cases kept with
  | error e =>
    obtain ⟨e', failed⟩ := inner
    exact ⟨e', by rw [failed]; rfl⟩
  | ok scanned =>
    obtain ⟨raw, after⟩ := scanned
    have same : result = (foldHook hook raw).map (·, after) := inner
    rw [same, ok_bind]
    cases whole : keptNext (raw, after) with
    | error e =>
      cases foldHook hook raw with
      | error e' => exact ⟨e', rfl⟩
      | ok value =>
        have failed := later raw value after
        rwa [whole] at failed
    | ok tree =>
      have shape := later raw .null after
      rw [whole] at shape
      obtain ⟨more, spelled, _⟩ := shape
      refine ⟨(key, raw) :: more, by simpa using spelled, ?_⟩
      rw [foldMembers]
      cases foldHook hook raw with
      | error e => rfl
      | ok value =>
        have held := later raw value after
        rw [whole] at held
        obtain ⟨more', respelled, rest⟩ := held
        have agree : more' = more := by simpa [spelled] using respelled.symm
        change next (value, after) = _
        rw [rest, agree]
        cases foldMembers hook more with
        | error e => rfl
        | ok folded => simp [bind, Except.bind, pure, Except.pure]

private theorem foldedElements_value {keptNext next : Value × Text → Except ScanError (Value × Text)}
    (inner : Folded hook kept result)
    (later : ∀ raw value after, FoldedElements hook (collected ++ [raw]) (done ++ [value])
      (keptNext (raw, after)) (next (value, after))) :
    FoldedElements hook collected done (kept >>= keptNext) (result >>= next) := by
  cases kept with
  | error e =>
    obtain ⟨e', failed⟩ := inner
    exact ⟨e', by rw [failed]; rfl⟩
  | ok scanned =>
    obtain ⟨raw, after⟩ := scanned
    have same : result = (foldHook hook raw).map (·, after) := inner
    rw [same, ok_bind]
    cases whole : keptNext (raw, after) with
    | error e =>
      cases foldHook hook raw with
      | error e' => exact ⟨e', rfl⟩
      | ok value =>
        have failed := later raw value after
        rwa [whole] at failed
    | ok tree =>
      have shape := later raw .null after
      rw [whole] at shape
      obtain ⟨more, spelled, _⟩ := shape
      refine ⟨raw :: more, by simpa using spelled, ?_⟩
      rw [foldElements]
      cases foldHook hook raw with
      | error e => rfl
      | ok value =>
        have held := later raw value after
        rw [whole] at held
        obtain ⟨more', respelled, rest⟩ := held
        have agree : more' = more := by simpa [spelled] using respelled.symm
        change next (value, after) = _
        rw [rest, agree]
        cases foldElements hook more with
        | error e => rfl
        | ok folded => simp [bind, Except.bind, pure, Except.pure, Except.map]

private theorem scanMagnitude_leaf (negative : Bool) (read : scanMagnitude negative t = .ok found) :
    foldHook hook found.1 = .ok found.1 := by
  rw [scanMagnitude] at read
  split at read
  · cases read
  · simp only at read
    split at read
    · split at read
      · cases read
        rw [foldHook] <;> simp
      · cases read
    · cases read
      rw [foldHook] <;> simp

private theorem scanAtom_leaf (read : scanAtom t = .ok found) : foldHook hook found.1 = .ok found.1 := by
  rw [scanAtom.eq_def] at read
  split at read
  case h_7 => exact scanMagnitude_leaf _ read
  case h_6 =>
    split at read
    · cases read
      rw [foldHook] <;> simp
    · exact scanMagnitude_leaf _ read
  case h_5 =>
    split at read
    · cases read
      rw [foldHook] <;> simp
    · cases read
  all_goals
    cases read
    rw [foldHook] <;> simp

private theorem scanAtom_folded (t : Text) : Folded hook (scanAtom t) (scanAtom t) := by
  cases read : scanAtom t with
  | error e => exact ⟨e, rfl⟩
  | ok found =>
    change _ = _
    rw [scanAtom_leaf read]
    rfl

private theorem scan_folded (hook : Members → Except ScanError Value) (depth : Nat) :
    (∀ t, Folded hook (scanValue keepPairs depth t) (scanValue hook depth t)) ∧
    (∀ t collected done, FoldedMembers hook collected done (scanMembers keepPairs depth t collected)
      (scanMembers hook depth t done)) ∧
    (∀ t collected done, FoldedElements hook collected done (scanElements keepPairs depth t collected)
      (scanElements hook depth t done)) := by
  -- induction on the depth; the tree is scanned the same way whatever was collected before
  induction depth with
  | zero =>
    refine ⟨fun t => ?_, fun t collected done => ?_, fun t collected done => ?_⟩
    · exact ⟨.depth, by rw [scanValue]⟩
    · exact ⟨.depth, by rw [scanMembers]⟩
    · exact ⟨.depth, by rw [scanElements]⟩
  | succ depth ih =>
    obtain ⟨values, members, elements⟩ := ih
    refine ⟨fun t => ?_, fun t collected done => ?_, fun t collected done => ?_⟩
    · rw [scanValue.eq_def keepPairs]
      split
      · rename_i impossible
        exact absurd impossible (Nat.succ_ne_zero depth)
      · rename_i rest _
        rw [scanValue]
        cases scanString rest with
        | error e => exact ⟨e, rfl⟩
        | ok found =>
          change _ = _
          rw [foldHook] <;> simp [Except.map, bind, Except.bind, pure, Except.pure]
      · rename_i rest same
        cases same
        rw [scanValue]
        split
        · exact folded_members (foldedMembers_close [] [] _)
        · exact folded_members (members _ [] [])
        · exact ⟨_, rfl⟩
      · rename_i rest same
        cases same
        rw [scanValue]
        split
        · exact folded_elements (foldedElements_close [] [] _)
        · exact folded_elements (elements _ [] [])
      · rename_i quoted braced bracketed
        rw [scanValue.eq_5 _ _ _ quoted braced bracketed]
        exact scanAtom_folded _
    · rw [scanMembers, scanMembers]
      cases scanString t with
      | error e => exact ⟨e, rfl⟩
      | ok named =>
        obtain ⟨key, afterKey⟩ := named
        simp only [ok_bind]
        split
        · rename_i afterColon _
          refine foldedMembers_value key (values (skipSpace afterColon)) fun raw value afterValue => ?_
          dsimp only
          split
          · exact foldedMembers_close _ _ _
          · split
            · exact members _ _ _
            · exact ⟨_, rfl⟩
          · exact ⟨_, rfl⟩
        · exact ⟨_, rfl⟩
    · rw [scanElements, scanElements]
      refine foldedElements_value (values t) fun raw value afterValue => ?_
      dsimp only
      split
      · exact foldedElements_close _ _ _
      · exact elements _ _ _
      · exact ⟨_, rfl⟩

/-- A document is accepted with a hook if its tree is scanned and the hook takes every object of it. -/
theorem loads_eq_ok : loads hook t = .ok value ↔ ∃ raw, loads keepPairs t = .ok raw ∧ foldHook hook raw = .ok value := by
  rw [loads.eq_def hook, loads.eq_def keepPairs]
  split
  · simp
  · have folded := (scan_folded hook (2 * t.length + 2)).1 (skipSpace t)
    cases kept : scanValue keepPairs (2 * t.length + 2) (skipSpace t) with
    | error e =>
      rw [kept] at folded
      obtain ⟨e', failed⟩ := folded
      rw [failed]
      simp [bind, Except.bind]
    | ok scanned =>
      obtain ⟨raw, after⟩ := scanned
      rw [kept] at folded
      have same : scanValue hook (2 * t.length + 2) (skipSpace t) = (foldHook hook raw).map (·, after) := folded
      rw [same]
      simp only [ok_bind]
      by_cases ended : skipSpace after = []
      · simp only [if_pos ended, pure_eq_ok, exists_eq_left']
        cases foldHook hook raw <;> simp [Except.map, bind, Except.bind, ended, pure, Except.pure]
      · simp only [if_neg ended]
        cases foldHook hook raw <;> simp [Except.map, bind, Except.bind, ended]

end

/-! ## Equal keys -/

mutual
/-- No object of the tree has two members with one key. -/
def Unambiguous : Value → Prop
  | .arr elements => UnambiguousElements elements
  | .obj members => (members.map Prod.fst).Nodup ∧ UnambiguousMembers members
  | _ => True

def UnambiguousElements : List Value → Prop
  | [] => True
  | first :: rest => Unambiguous first ∧ UnambiguousElements rest

def UnambiguousMembers : Members → Prop
  | [] => True
  | (_, first) :: rest => Unambiguous first ∧ UnambiguousMembers rest
end

section
variable {hook : Members → Except ScanError Value}

mutual
/-- A hook that leaves objects with distinct keys alone leaves an unambiguous tree alone. -/
theorem foldHook_unambiguous (keeps : ∀ members : Members, (members.map Prod.fst).Nodup → hook members = .ok (.obj members)) :
    ∀ raw, Unambiguous raw → foldHook hook raw = .ok raw
  | .null, _ | .bool _, _ | .int _, _ | .float _, _ | .str _, _ => by rw [foldHook] <;> simp
  | .arr elements, clear => by
    rw [Unambiguous] at clear
    rw [foldHook, foldElements_unambiguous keeps elements clear]
    rfl
  | .obj members, clear => by
    rw [Unambiguous] at clear
    rw [foldHook, foldMembers_unambiguous keeps members clear.2, ok_bind, keeps members clear.1]

/-- A hook that keeps distinct keys changes none of the elements. -/
theorem foldElements_unambiguous (keeps : ∀ members : Members, (members.map Prod.fst).Nodup → hook members = .ok (.obj members)) :
    ∀ elements, UnambiguousElements elements → foldElements hook elements = .ok elements
  | [], _ => by rw [foldElements]
  | first :: rest, clear => by
    rw [UnambiguousElements] at clear
    rw [foldElements, foldHook_unambiguous keeps first clear.1, foldElements_unambiguous keeps rest clear.2]
    rfl

/-- Nor any of the members. -/
theorem foldMembers_unambiguous (keeps : ∀ members : Members, (members.map Prod.fst).Nodup → hook members = .ok (.obj members)) :
    ∀ members, UnambiguousMembers members → foldMembers hook members = .ok members
  | [], _ => by rw [foldMembers]
  | (_, first) :: rest, clear => by
    rw [UnambiguousMembers] at clear
    rw [foldMembers, foldHook_unambiguous keeps first clear.1, foldMembers_unambiguous keeps rest clear.2]
    rfl
end

mutual
/-- A hook that takes objects with distinct keys only, and leaves them alone, takes unambiguous trees only. -/
theorem unambiguous_of_foldHook
    (strict : ∀ members value, hook members = .ok value → (members.map Prod.fst).Nodup ∧ value = .obj members) :
    ∀ raw value, foldHook hook raw = .ok value → Unambiguous raw ∧ value = raw
  | .null, _, folded | .bool _, _, folded | .int _, _, folded | .float _, _, folded | .str _, _, folded => by
    rw [foldHook] at folded <;> simp_all [Unambiguous]
  | .arr elements, value, folded => by
    rw [foldHook, bind_eq_ok] at folded
    obtain ⟨found, inner, same⟩ := folded
    obtain ⟨clear, rfl⟩ := unambiguous_of_foldElements strict elements found inner
    cases same
    exact ⟨by rwa [Unambiguous], rfl⟩
  | .obj members, value, folded => by
    rw [foldHook, bind_eq_ok] at folded
    obtain ⟨found, inner, taken⟩ := folded
    obtain ⟨clear, rfl⟩ := unambiguous_of_foldMembers strict members found inner
    obtain ⟨distinct, same⟩ := strict _ _ taken
    exact ⟨by rw [Unambiguous]; exact ⟨distinct, clear⟩, same⟩

/-- A hook that only passes distinct keys finds no others in the elements. -/
theorem unambiguous_of_foldElements
    (strict : ∀ members value, hook members = .ok value → (members.map Prod.fst).Nodup ∧ value = .obj members) :
    ∀ elements found, foldElements hook elements = .ok found → UnambiguousElements elements ∧ found = elements
  | [], found, folded => by
    rw [foldElements] at folded
    cases folded
    exact ⟨by rw [UnambiguousElements]; trivial, rfl⟩
  | first :: rest, found, folded => by
    simp only [foldElements, bind_eq_ok, pure_eq_ok] at folded
    obtain ⟨value, one, others, inner, rfl⟩ := folded
    obtain ⟨clear, rfl⟩ := unambiguous_of_foldHook strict first value one
    obtain ⟨later, rfl⟩ := unambiguous_of_foldElements strict rest others inner
    exact ⟨by rw [UnambiguousElements]; exact ⟨clear, later⟩, rfl⟩

/-- Nor in the members. -/
theorem unambiguous_of_foldMembers
    (strict : ∀ members value, hook members = .ok value → (members.map Prod.fst).Nodup ∧ value = .obj members) :
    ∀ members found, foldMembers hook members = .ok found → UnambiguousMembers members ∧ found = members
  | [], found, folded => by
    rw [foldMembers] at folded
    cases folded
    exact ⟨by rw [UnambiguousMembers]; trivial, rfl⟩
  | (key, first) :: rest, found, folded => by
    simp only [foldMembers, bind_eq_ok, pure_eq_ok] at folded
    obtain ⟨value, one, others, inner, rfl⟩ := folded
    obtain ⟨clear, rfl⟩ := unambiguous_of_foldHook strict first value one
    obtain ⟨later, rfl⟩ := unambiguous_of_foldMembers strict rest others inner
    exact ⟨by rw [UnambiguousMembers]; exact ⟨clear, later⟩, rfl⟩
end

/-- A strict hook accepts the documents without ambiguous objects, and gives their trees. -/
theorem loads_strict
    (strict : ∀ members value, hook members = .ok value ↔ (members.map Prod.fst).Nodup ∧ value = .obj members) :
    loads hook t = .ok value ↔ loads keepPairs t = .ok value ∧ Unambiguous value := by
  rw [loads_eq_ok]
  constructor
  · rintro ⟨raw, kept, folded⟩
    obtain ⟨clear, rfl⟩ := unambiguous_of_foldHook (fun members value => (strict members value).mp) raw value folded
    exact ⟨kept, clear⟩
  · rintro ⟨kept, clear⟩
    exact ⟨value, kept, foldHook_unambiguous (fun members distinct => (strict members _).mpr ⟨distinct, rfl⟩) value clear⟩

end

/-- On an unambiguous document the plain decoder gives the tree. -/
theorem loads_plain (kept : loads keepPairs t = .ok raw) (clear : Unambiguous raw) : loads plainHook t = .ok raw :=
  loads_eq_ok.mpr ⟨raw, kept, foldHook_unambiguous
    (fun members distinct => by rw [plainHook, dictOfPairs_distinct distinct]) raw clear⟩

end Library.Json
