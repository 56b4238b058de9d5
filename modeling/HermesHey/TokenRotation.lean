import HermesHey.CredentialLock

/-! A request is never made twice of one token: once it is answered, the tokens
of its credential do not come back to the disk. -/
namespace HermesHey.Credentials
open Library
variable {setup : Setup} {among : Text → Prop}

/-- The requests so far: the call, and the credential that the request is made of. -/
def requests (labels : List Event) : List (Nat × Credential) :=
  labels.filterMap fun
    | .sends c credential => some (c, credential)
    | _ => none

/-- The requests of a history are its sends. -/
theorem mem_requests : (c, old) ∈ requests labels ↔ .sends c old ∈ labels := by
  unfold requests
  rw [List.mem_filterMap]
  constructor
  · rintro ⟨e, past, same⟩
    cases e <;> simp at same
    obtain ⟨rfl, rfl⟩ := same
    exact past
  · intro past
    exact ⟨_, past, rfl⟩

/-! ## No token is refreshed twice -/

/-- A call has sent a refresh token and has not stored what was answered. -/
def InFlight (setup : Setup) (s : State) (c : Nat) (old : Credential) : Prop :=
  (∃ observed all, s.phase c = .sent observed old all) ∨
    ∃ observed credential all, s.phase c = .saving observed credential all ∧ s.file (setup.origin c) = some old

/-- A request is in flight under the lock only. -/
theorem InFlight.locked (flying : InFlight setup s c old) : (s.phase c).locked := by
  rcases flying with ⟨_, _, here⟩ | ⟨_, _, _, here, _⟩
  · rw [here]
    rfl
  · rw [here]
    rfl

/-- A call with a request in flight has not begun to unlock. -/
theorem InFlight.rank (flying : InFlight setup s c old) : (s.phase c).rank ≤ 7 := by
  rcases flying with ⟨_, _, here⟩ | ⟨_, _, _, here, _⟩ <;> simp [here, Phase.rank]

/-- The access token is no longer its origin's, and the refresh token is no
longer any of these origins'. -/
def Settled (setup : Setup) (among : Text → Prop) (file : File) (c : Nat) (old : Credential) : Prop :=
  (∀ stored, file (setup.origin c) = some stored → stored.accessToken ≠ old.accessToken) ∧
    (among (setup.origin c) → ∀ origin stored, among origin → file origin = some stored →
      stored.refreshToken ≠ old.refreshToken)

/-- These origins do not share a refresh token. -/
def Apart (among : Text → Prop) (file : File) : Prop :=
  ∀ origin other a b, among origin → among other → origin ≠ other →
    file origin = some a → file other = some b → a.refreshToken ≠ [] → a.refreshToken ≠ b.refreshToken

structure Rotated (setup : Setup) (among : Text → Prop) (labels : List Event) (s : State) : Prop where
  apart : Apart among s.file
  sent : ∀ c old, .sends c old ∈ labels → InFlight setup s c old ∨ Settled setup among s.file c old
  distinct : (requests labels).Pairwise fun r r' =>
    (setup.origin r.1 = setup.origin r'.1 → r.2.accessToken ≠ r'.2.accessToken) ∧
      (among (setup.origin r.1) → among (setup.origin r'.1) → r.2.refreshToken ≠ r'.2.refreshToken)

/-- What is stored differs from every other entry. -/
theorem apart_stored (apart : Apart among file)
    (new : ∀ origin old, file origin = some old → old.refreshToken ≠ credential.refreshToken) :
    Apart among (Function.update file origin (some credential)) := by
  intro o o' a b here there other found found' given
  by_cases first : o = origin
  · subst first
    rw [Function.update_self] at found
    rw [Function.update_of_ne (Ne.symm other)] at found'
    cases found
    exact Ne.symm (new o' b found')
  rw [Function.update_of_ne first] at found
  by_cases second : o' = origin
  · subst second
    rw [Function.update_self] at found'
    cases found'
    exact new o a found
  · rw [Function.update_of_ne second] at found'
    exact apart o o' a b here there other found found' given

/-- A new credential has none of the old tokens. -/
theorem Settled.stored (settled : Settled setup among file c old)
    (access : old.accessToken ≠ credential.accessToken) (refresh : old.refreshToken ≠ credential.refreshToken) :
    Settled setup among (Function.update file origin (some credential)) c old := by
  constructor
  · intro x found
    by_cases there : setup.origin c = origin
    · rw [there, Function.update_self] at found
      cases found
      exact Ne.symm access
    · rw [Function.update_of_ne there] at found
      exact settled.1 x found
  · intro mine o x inside found
    by_cases there : o = origin
    · rw [there, Function.update_self] at found
      cases found
      exact Ne.symm refresh
    · rw [Function.update_of_ne there] at found
      exact settled.2 mine o x inside found

/-- The tokens of a credential are gone from the disk when another one replaces it. -/
theorem replaced_settled (apart : Apart among file) (found : file (setup.origin c) = some old)
    (given : old.refreshToken ≠ []) (access : old.accessToken ≠ credential.accessToken)
    (refresh : old.refreshToken ≠ credential.refreshToken) :
    Settled setup among (Function.update file (setup.origin c) (some credential)) c old := by
  constructor
  · intro x found'
    rw [Function.update_self] at found'
    cases found'
    exact Ne.symm access
  · intro mine o x inside found'
    by_cases there : o = setup.origin c
    · rw [there, Function.update_self] at found'
      cases found'
      exact Ne.symm refresh
    · rw [Function.update_of_ne there] at found'
      exact Ne.symm (apart _ _ old x mine inside (Ne.symm there) found found' given)

/-- A request stays in flight until its token is settled in the file. -/
theorem InFlight.step (locking : Locking setup file labels s) (served : Served file (labels ++ [e]))
    (rotated : Rotated setup among labels s) (taken : Step setup s e t) (flying : InFlight setup s c old) :
    InFlight setup t c old ∨ Settled setup among t.file c old := by
  by_cases other : c = e.call
  · subst other
    rcases flying with ⟨observed, all, here⟩ | ⟨observed, credential, all, here, found⟩
    · obtain ⟨_, found, _⟩ := locking.asking _ _ _ _ (.inr here)
      rcases leaves_sent taken here with ⟨token, now, _, same, next⟩ | ⟨fault, failed⟩
      · exact .inl (.inr ⟨observed, _, all, next, by rw [same, found]⟩)
      · exact absurd failed served.answering
    · obtain ⟨rfl, ⟨stored, found', due, _⟩, _, new⟩ := locking.renewing _ _ _ _ here
      cases found.symm.trans found'
      obtain ⟨access, refresh⟩ := new old (.inl ⟨_, found⟩)
      rcases leaves_saving taken here with ⟨_, replaced⟩ | ⟨reason, failed⟩
      · rw [replaced]
        exact .inr (replaced_settled rotated.apart found due.1 access refresh)
      · exact absurd failed served.saving
  · have same := file_kept locking.holding taken other flying.locked
    rw [InFlight, step_others taken other, same]
    exact .inl flying

/-- A request is sent while no other one is in flight. -/
theorem Locking.alone (locking : Locking setup file labels s) (taken : Step setup s (.sends c credential) t) :
    ¬ InFlight setup s c' old := by
  intro flying
  obtain ⟨observed, all, here⟩ := sends_inv taken
  have mine := locking.holding c (by rw [here]; rfl)
  cases mine.symm.trans (locking.holding c' flying.locked)
  rcases flying with ⟨_, _, there⟩ | ⟨_, _, _, there, _⟩ <;> cases here.symm.trans there

/-- The tokens of a new request differ from those of every earlier one. -/
theorem Rotated.fresh (rotated : Rotated setup among labels s) (locking : Locking setup file labels s)
    (taken : Step setup s (.sends c credential) t) (past : .sends c' old ∈ labels) :
    (setup.origin c' = setup.origin c → old.accessToken ≠ credential.accessToken) ∧
      (among (setup.origin c') → among (setup.origin c) → old.refreshToken ≠ credential.refreshToken) := by
  have found := locking.sent taken
  rcases rotated.sent c' old past with flying | ⟨access, refresh⟩
  · exact absurd flying (locking.alone taken)
  · constructor
    · intro same
      exact Ne.symm (access credential (by rw [same, found]))
    · intro theirs mine
      exact Ne.symm (refresh theirs _ credential mine found)

private theorem requests_later : requests (labels ++ [e]) = requests labels ++ requests [e] := by
  unfold requests
  rw [List.filterMap_append]

private theorem distinct_step (rotated : Rotated setup among labels s) (locking : Locking setup file labels s)
    (taken : Step setup s e t) : (requests (labels ++ [e])).Pairwise fun r r' =>
      (setup.origin r.1 = setup.origin r'.1 → r.2.accessToken ≠ r'.2.accessToken) ∧
        (among (setup.origin r.1) → among (setup.origin r'.1) → r.2.refreshToken ≠ r'.2.refreshToken) := by
  rw [requests_later, List.pairwise_append]
  refine ⟨rotated.distinct, ?_, ?_⟩
  · cases e <;> simp [requests]
  · rintro ⟨c', old⟩ past ⟨c, credential⟩ now
    have event : e = .sends c credential := (List.mem_singleton.mp (mem_requests.mp now)).symm
    rw [event] at taken
    exact rotated.fresh locking taken (mem_requests.mp past)

/-- Each step keeps the rotation. -/
theorem rotated_step (rotated : Rotated setup among labels s) (locking : Locking setup file labels s)
    (served : Served file (labels ++ [e])) (taken : Step setup s e t) :
    Rotated setup among (labels ++ [e]) t where
  distinct := distinct_step rotated locking taken
  apart := by
    rcases step_file taken with same | ⟨_, credential, _, _, here, _, stored⟩ | ⟨_, failed, _⟩
    · rw [same]
      exact rotated.apart
    · obtain ⟨rfl, _, _, new⟩ := locking.renewing _ _ _ _ here
      rw [stored]
      exact apart_stored rotated.apart fun o old found => (new old (.inl ⟨o, found⟩)).2
    · exact absurd failed served.saving
  sent c old past := by
    rcases sends_past past with earlier | rfl
    · rcases rotated.sent c old earlier with flying | settled
      · exact flying.step locking served rotated taken
      · rcases step_file taken with same | ⟨_, credential, _, _, here, _, stored⟩ | ⟨_, failed, _⟩
        · rw [same]
          exact .inr settled
        · obtain ⟨rfl, _, _, new⟩ := locking.renewing _ _ _ _ here
          obtain ⟨access, refresh⟩ := new old (.inr ⟨c, earlier⟩)
          rw [stored]
          exact .inr (settled.stored access refresh)
        · exact absurd failed served.saving
    · cases taken with
      | sends here => exact .inl (.inl ⟨_, _, Function.update_self _ _ _⟩)

end HermesHey.Credentials
