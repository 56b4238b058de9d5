import HermesHey.AccessTokens

/-! The arithmetic of token expiry. `refreshLocked` adds the clock and the lifetime
that the server gave as 64-bit integers, and `AccessToken` judges the sum by its
sign: zero and below never expires. -/
namespace HermesHey.Credentials
open Library

/-! ## On machine integers -/

/-- `credential.ExpiresAt` after the response. -/
def newExpiry (now expiresIn : Int64) : Int64 := if 0 < expiresIn then now + expiresIn else 0

/-- The condition of the refresh in `AccessToken`. -/
def refreshDue (expiresAt now : Int64) : Bool := 0 < expiresAt && expiresAt - 300 ≤ now

/-- The values of an `int64`. -/
def Machine (n : Int) : Prop := -2 ^ 63 ≤ n ∧ n < 2 ^ 63

private theorem toInt_ofInt (fits : Machine n) : (Int64.ofInt n).toInt = n :=
  Int64.toInt_ofInt_of_le fits.1 fits.2

/-- The sum is stored as `int64` has it. -/
theorem refreshed_expiresAt (clock : Machine now) (decoded : Machine token.expiresIn) :
    (Credential.refreshed credential token now).expiresAt = (newExpiry (.ofInt now) (.ofInt token.expiresIn)).toInt := by
  have positive : 0 < Int64.ofInt token.expiresIn ↔ 0 < token.expiresIn := by
    rw [Int64.lt_iff_toInt_lt, toInt_ofInt decoded]
    rfl
  rw [newExpiry, Credential.refreshed]
  dsimp only
  split
  · rw [if_pos (positive.mpr ‹_›), Int64.toInt_add, toInt_ofInt clock, toInt_ofInt decoded]
  · rw [if_neg (mt positive.mp ‹_›)]
    rfl

/-- The subtraction does not wrap around, as it is only made of a positive number. -/
theorem refreshDue_iff {expiresAt now : Int64} :
    refreshDue expiresAt now = true ↔ 0 < expiresAt.toInt ∧ expiresAt.toInt - 300 ≤ now.toInt := by
  rw [refreshDue, Bool.and_eq_true, decide_eq_true_iff, decide_eq_true_iff, Int64.lt_iff_toInt_lt, Int64.le_iff_toInt_le]
  refine and_congr_right fun positive => ?_
  have top := expiresAt.toInt_lt
  have zero : (0 : Int64).toInt = 0 := rfl
  have margin : (300 : Int64).toInt = 300 := rfl
  rw [zero] at positive
  rw [Int64.toInt_sub, margin, Int.bmod_eq_of_le (by omega) (by omega)]

private theorem expired_eq {expiresAt now : Int64} (same : credential.expiresAt = expiresAt.toInt) :
    Credential.expired credential now.toInt = refreshDue expiresAt now := by
  rw [Bool.eq_iff_iff, refreshDue_iff, Credential.expired, decide_eq_true_iff, same]

/-! ## What is stored -/

/-- Call `c` is answered `token` when the clock shows `now`, and has stored its credential at the end. -/
def Refreshes (setup : Setup) (s : State) (c : Nat) (token : TokenResponse) (now : Int) (t : State) : Prop :=
  ∃ between credential, (∀ e ∈ between, Event.call e ≠ c) ∧
    Run (Step setup) s (.answers c token now :: between ++ [.saves c credential]) t

private theorem run_others {between : List Event} (ran : Run (Step setup) s between t)
    (others : ∀ e ∈ between, e.call ≠ c) : t.phase c = s.phase c := by
  induction ran with
  | nil => rfl
  | cons taken _ ih =>
    obtain ⟨first, rest⟩ := List.forall_mem_cons.mp others
    exact (ih rest).trans (step_others taken first.symm)

/-- What is stored is the credential that was loaded, refreshed. -/
theorem Refreshes.stored (refreshes : Refreshes setup s c token now t) :
    ∃ credential, t.file (setup.origin c) = some (Credential.refreshed credential token now) := by
  obtain ⟨between, credential, others, ran⟩ := refreshes
  cases ran with
  | cons answered rest =>
    obtain ⟨u, middle, last⟩ := rest.split
    have unmoved := run_others middle others
    cases last with
    | cons saves ended =>
      cases ended
      cases answered with
      | answers here valid =>
        rw [State.goes_phase, Function.update_self] at unmoved
        cases saves with
        | saves waiting saved =>
          cases waiting.symm.trans unmoved
          obtain ⟨_, written⟩ := save_saved saved
          have found := congrFun written (setup.origin c)
          rw [Function.update_self] at found
          exact ⟨_, found⟩

/-- The expiry of a token with this lifetime: after the present, or never. -/
def Lasts (now expiresIn expiresAt : Int) : Prop :=
  (0 < expiresIn → now < expiresAt) ∧ (expiresIn ≤ 0 → expiresAt = 0)

private theorem refreshed_lasts (credential : Credential) (clock : 0 ≤ now ∧ now ≤ 2 ^ 62)
    (decoded : Machine token.expiresIn) :
    Lasts now token.expiresIn (credential.refreshed token now).expiresAt ↔
      token.expiresIn ≤ 0 ∨ now + token.expiresIn < 2 ^ 63 := by
  obtain ⟨_, top⟩ := decoded
  rw [Lasts, Credential.refreshed]
  dsimp only
  by_cases lasting : 0 < token.expiresIn
  · rw [if_pos lasting]
    by_cases fits : now + token.expiresIn < 2 ^ 63
    · rw [Int.bmod_eq_of_le (by omega) (by omega)]
      omega
    · have wrapped : (now + token.expiresIn).bmod (2 ^ 64) = now + token.expiresIn - 2 ^ 64 := by
        rw [← Int.sub_bmod_right]
        exact Int.bmod_eq_of_le (by omega) (by omega)
      rw [wrapped]
      omega
  · rw [if_neg lasting]
    omega

private theorem observes_locking (taken : Step setup s (.observes c credential now) t) :
    (∃ observed, t.phase c = .locking observed) ↔ credential.expired now = true := by
  cases taken
  rw [State.goes_phase, Function.update_self, afterLoad]
  split
  · rename_i due
    exact ⟨fun _ => due, fun _ => ⟨_, rfl⟩⟩
  · rename_i early
    refine ⟨?_, fun due => absurd due early⟩
    rintro ⟨observed, same⟩
    rw [concluded] at same
    split at same <;> cases same

/-- **Expiry arithmetic is sound unless the clock and the lifetime overflow.** A
stored lifetime ends after the present, or is zero for a token without one, and
`AccessToken` refreshes exactly from 300 seconds before a positive expiry on, if
and only if the lifetime is not positive or its end is below 2⁶³. -/
theorem expiry_sound_iff (clock : 0 ≤ now ∧ now ≤ 2 ^ 62) (decoded : Machine token.expiresIn)
    (refreshes : Refreshes setup s c token now t) :
    ((∃ stored, t.file (setup.origin c) = some stored ∧ Lasts now token.expiresIn stored.expiresAt) ∧
      ∀ c' (stored : Credential) (expiresAt present : Int64) u u', stored.expiresAt = expiresAt.toInt →
        Step setup u (.observes c' stored present.toInt) u' →
          ((∃ observed, u'.phase c' = .locking observed) ↔ refreshDue expiresAt present = true) ∧
            (refreshDue expiresAt present = true ↔ 0 < expiresAt.toInt ∧ expiresAt.toInt - 300 ≤ present.toInt)) ↔
      token.expiresIn ≤ 0 ∨ now + token.expiresIn < 2 ^ 63 := by
  obtain ⟨credential, found⟩ := refreshes.stored
  rw [← refreshed_lasts credential clock decoded]
  constructor
  · rintro ⟨⟨stored, held, lasts⟩, _⟩
    cases found.symm.trans held
    exact lasts
  · intro lasts
    refine ⟨⟨_, found, lasts⟩, fun c' stored expiresAt present u u' same taken => ⟨?_, refreshDue_iff⟩⟩
    rw [observes_locking taken, expired_eq same]

/-! ## Runs of one refresh -/

abbrev sampleRefresh : Setup := sampleSetup .refresh .refresh [sampleOrigin]

/-- A refresh up to its request. -/
def sampleRequest : List Event := [.starts 0, .enters 0] ++ sampleAsks 0 sampleOld

private theorem sampleRequest_runs : ∃ s observed credential all,
    Run (Step sampleRefresh) (.initial (sampleFile [sampleOrigin] sampleOld)) sampleRequest s ∧
      s.phase 0 = .sent observed credential all := by
  refine ⟨_, [], sampleOld, sampleFile [sampleOrigin] sampleOld, .cons (.starts rfl) <| .cons (.enters rfl rfl) <|
    .cons (.locks rfl rfl) <| .cons (reloads_sending rfl rfl rfl) <| .cons (.sends rfl) .nil, rfl⟩

private theorem refreshes_of_sent (setup : Setup) (here : State.phase s c = .sent observed credential all)
    (valid : TokenResponse.accessToken token ≠ []) (now : Int) : ∃ t, Refreshes setup s c token now t := by
  have saving : (s.goes c (.saving observed (credential.refreshed token now) all)).phase c =
      .saving observed (credential.refreshed token now) all := Function.update_self ..
  exact ⟨_, [], _, by simp, .cons (.answers here valid) <| .cons (.saves saving (save_ok valid)) .nil⟩

theorem expiry_sound_iff_sample : ∃ t stored, State.file t sampleOrigin = some stored ∧
    Lasts 1 3600 stored.expiresAt := by
  have valid : (⟨[ch 'b'], [], 3600, []⟩ : TokenResponse).accessToken ≠ [] := by simp
  obtain ⟨s, _, _, _, _, here⟩ := sampleRequest_runs
  obtain ⟨t, refreshes⟩ := refreshes_of_sent sampleRefresh here valid 1
  have sound := (expiry_sound_iff (by decide) ⟨by decide, by decide⟩ refreshes).mpr (.inr (by decide))
  exact ⟨t, sound.1⟩

/-- The longest lifetime that a server can give. -/
def longestToken : TokenResponse := ⟨[ch 'b'], [], 2 ^ 63 - 1, []⟩

/-- A token with the longest lifetime is stored with a negative expiry, and so is never refreshed. -/
theorem longest_lifetime_lost : ∃ s t stored,
    Run (Step sampleRefresh) (.initial (sampleFile [sampleOrigin] sampleOld)) sampleRequest s ∧
      Refreshes sampleRefresh s 0 longestToken 1 t ∧ t.file sampleOrigin = some stored ∧
        ¬ Lasts 1 longestToken.expiresIn stored.expiresAt ∧ ∀ now, stored.expired now = false := by
  obtain ⟨s, _, _, _, ran, here⟩ := sampleRequest_runs
  have valid : longestToken.accessToken ≠ [] := by simp [longestToken]
  obtain ⟨t, refreshes⟩ := refreshes_of_sent sampleRefresh here valid 1
  obtain ⟨credential, found⟩ := refreshes.stored
  have wrapped : (Credential.refreshed credential longestToken 1).expiresAt = -2 ^ 63 :=
    (refreshed_expiresAt ⟨by decide, by decide⟩ ⟨by decide, by decide⟩).trans (by decide)
  refine ⟨s, t, _, ran, refreshes, found, ?_, fun now => ?_⟩
  · rw [wrapped]
    rintro ⟨lasting, _⟩
    exact absurd (lasting (by decide)) (by decide)
  · rw [Credential.expired, wrapped]
    simp

end HermesHey.Credentials
