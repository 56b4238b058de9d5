import HermesHey.TokenRotation

/-! Rotation of the tokens over a whole run: the `AccessToken` calls that have
loaded one expired token, and what they return. -/
namespace HermesHey.Credentials
open Library
variable {setup : Setup} {among : Text → Prop}

/-! ## The calls that have loaded one expired access token -/

/-- `AccessToken` has loaded this token first, and has found it expired. -/
def Observed (labels : List Event) (c : Nat) (token : Text) : Prop :=
  ∃ credential now, .observes c credential now ∈ labels ∧ credential.expired now ∧ credential.accessToken = token

/-- A request has been made with this access token on disk. -/
def Asked (setup : Setup) (labels : List Event) (origin token : Text) : Prop :=
  ∃ c old, .sends c old ∈ labels ∧ setup.origin c = origin ∧ old.accessToken = token

/-- A call that has asked with a token has asked with it ever after. -/
theorem Asked.later (asked : Asked setup labels origin token) : Asked setup (labels ++ [e]) origin token := by
  obtain ⟨c, old, past, same⟩ := asked
  exact ⟨c, old, List.mem_append_left _ past, same⟩

/-- The local `observedToken` of `refreshLocked`. -/
def Phase.observed? : Phase → Option Text
  | .locking observed | .reloading observed | .sending observed _ _ | .sent observed _ _
  | .saving observed _ _ => some observed
  | _ => none

private theorem loadFailure_failed (fails : loadFailure reason phase = some next) :
    ∃ error, next = .leaving (.failed error) ∨ next = .unlocking (some error) := by
  cases phase <;> cases fails <;> simp

private theorem to_locking (taken : Step setup s e t) (after : t.phase e.call = .locking observed) :
    (s.phase e.call).rank ≤ 2 ∧ (setup.operation e.call = .refresh ∨
      ∃ credential now, e = .observes e.call credential now ∧ credential.expired now ∧
        credential.accessToken = observed) := by
  have later := (step_rank taken).2
  rw [after] at later
  refine ⟨Nat.lt_succ_iff.mp later, ?_⟩
  cases taken with
  | enters =>
    simp only [Event.call, State.goes_phase, Function.update_self, State.entered] at after
    split at after
    · cases after
    · exact .inl ‹_›
  | observes =>
    simp only [Event.call, State.goes_phase, Function.update_self, afterLoad] at after
    split at after
    · cases after
      exact .inr ⟨_, _, rfl, ‹_›, rfl⟩
    · have leaves := concluded_rank ‹Credential›
      rw [after] at leaves
      simp [Phase.rank] at leaves
  | starts => simp [Event.call] at after
  | lockFails here => simp [Event.call] at after
  | loadFails failed fails =>
    simp only [Event.call, State.goes_phase, Function.update_self] at after
    obtain ⟨error, rfl | rfl⟩ := loadFailure_failed fails <;> cases after
  | _ here => simp [Event.call, here, Phase.rank] at later

/-- `refreshLocked` never changes its argument. -/
theorem to_observed (taken : Step setup s e t) (after : (t.phase e.call).observed? = some observed) :
    (s.phase e.call).observed? = some observed ∨
      ((s.phase e.call).rank ≤ 2 ∧ (setup.operation e.call = .refresh ∨
        ∃ credential now, e = .observes e.call credential now ∧ credential.expired now ∧
          credential.accessToken = observed)) := by
  by_cases locked : (t.phase e.call).locked
  · have work := to_locked taken locked
    generalize t.phase e.call = next at work after
    cases work with
    | skips | saves | fails => cases after
    | _ _ here =>
      rw [here]
      exact .inl after
  · cases next : t.phase e.call with
    | locking token =>
      rw [next] at after
      cases after
      exact .inr (to_locking taken next)
    | _ =>
      rw [next] at after locked
      first | exact absurd rfl locked | cases after

private theorem observes_inv (taken : Step setup s (.observes c credential now) t) :
    s.phase c = .loading ∧ s.file (setup.origin c) = some credential ∧
      t.phase c = afterLoad credential now := by
  cases taken with
  | observes here loaded => exact ⟨here, (load_ok.mp loaded).2.1, Function.update_self _ _ _⟩

/-- A token that was observed was observed before, or is the expired one that the call just found. -/
theorem Observed.split (observed : Observed (labels ++ [e]) c token) :
    Observed labels c token ∨
      ∃ credential now, e = .observes c credential now ∧ credential.expired now ∧ credential.accessToken = token := by
  obtain ⟨credential, now, past, expired, same⟩ := observed
  rcases List.mem_append.mp past with earlier | last
  · exact .inl ⟨credential, now, earlier, expired, same⟩
  · exact .inr ⟨credential, now, (List.mem_singleton.mp last).symm, expired, same⟩

/-- The token a call has observed, and what has become of it. -/
structure Watching (setup : Setup) (labels : List Event) (s : State) : Prop where
  passed : ∀ e ∈ labels, e.rank < (s.phase e.call).rank
  keeps : ∀ c token observed, Observed labels c token → (s.phase c).observed? = some observed → observed = token
  source : ∀ c observed, (s.phase c).observed? = some observed →
    setup.operation c = .refresh ∨ Observed labels c observed
  asker : ∀ c old, .sends c old ∈ labels → old.accessToken ≠ [] →
    setup.operation c = .refresh ∨ Observed labels c old.accessToken ∨ Observed labels c []
  asked : ∀ c token old, Observed labels c token → token ≠ [] → .sends c old ∈ labels → old.accessToken = token
  reached : ∀ c token, Observed labels c token → token ≠ [] → ∃ stored, s.file (setup.origin c) = some stored ∧
    stored.accessToken ≠ [] ∧ (stored.accessToken = token ∨ Asked setup labels (setup.origin c) token)
  finished : ∀ c token, Observed labels c token → token ≠ [] →
    s.phase c = .unlocking none ∨ .unlocks c none ∈ labels → Asked setup labels (setup.origin c) token

private theorem passed_step (watching : Watching setup labels s) (taken : Step setup s e t) :
    ∀ e' ∈ labels ++ [e], e'.rank < (t.phase e'.call).rank := by
  intro e' past
  have moved := step_rank taken
  rcases List.mem_append.mp past with earlier | last
  · have before := watching.passed e' earlier
    by_cases same : e'.call = e.call
    · rw [same] at before ⊢
      omega
    · rw [step_others taken same]
      exact before
  · cases List.mem_singleton.mp last
    omega

/-- A call that has observed a token is past its first load. -/
theorem Watching.past (watching : Watching setup labels s) (observed : Observed labels c token) :
    2 < (s.phase c).rank := by
  obtain ⟨credential, now, past, _⟩ := observed
  exact watching.passed _ past

private theorem Watching.unpassed (watching : Watching setup labels s)
    (taken : Step setup s (.observes c credential now) t)
    (later : 1 < e.rank) (mine : e.call = c) : e ∉ labels := by
  intro past
  have here := (observes_inv taken).1
  have before := watching.passed e past
  rw [mine, here] at before
  exact absurd before (by simp only [Phase.rank]; omega)

private theorem keeps_step (watching : Watching setup labels s) (taken : Step setup s e t)
    (before : Observed (labels ++ [e]) c token) (after : (t.phase c).observed? = some observed) :
    observed = token := by
  rcases before.split with earlier | ⟨credential, now, rfl, expired, rfl⟩
  · by_cases other : c = e.call
    · subst other
      rcases to_observed taken after with same | ⟨early, _⟩
      · exact watching.keeps _ _ _ earlier same
      · exact absurd (watching.past earlier) (by omega)
    · rw [step_others taken other] at after
      exact watching.keeps _ _ _ earlier after
  · rw [(observes_inv taken).2.2, afterLoad, if_pos expired] at after
    cases after
    rfl

/-- An observation is not taken back. -/
theorem Observed.later (observed : Observed labels c token) : Observed (labels ++ [e]) c token := by
  obtain ⟨credential, now, past, rest⟩ := observed
  exact ⟨credential, now, List.mem_append_left _ past, rest⟩

private theorem source_step (watching : Watching setup labels s) (taken : Step setup s e t)
    (after : (t.phase c).observed? = some observed) :
    setup.operation c = .refresh ∨ Observed (labels ++ [e]) c observed := by
  by_cases other : c = e.call
  · subst other
    rcases to_observed taken after with same | ⟨_, refreshing | ⟨credential, now, event, expired, same⟩⟩
    · exact (watching.source _ _ same).imp_right Observed.later
    · exact .inl refreshing
    · exact .inr ⟨credential, now, List.mem_append_right _ (List.mem_singleton.mpr event.symm), expired, same⟩
  · rw [step_others taken other] at after
    exact (watching.source _ _ after).imp_right Observed.later

private theorem asker_step (watching : Watching setup labels s) (locking : Locking setup file labels s)
    (taken : Step setup s e t) (past : .sends c old ∈ labels ++ [e]) (present : old.accessToken ≠ []) :
    setup.operation c = .refresh ∨ Observed (labels ++ [e]) c old.accessToken ∨ Observed (labels ++ [e]) c [] := by
  rcases sends_past past with sent | rfl
  · exact (watching.asker c old sent present).imp_right (Or.imp Observed.later Observed.later)
  · obtain ⟨observed, all, here⟩ := sends_inv taken
    obtain ⟨_, _, _, due⟩ := locking.asking _ _ _ _ (.inl here)
    have source := watching.source c observed (by rw [here]; rfl)
    rcases due with rfl | missing | rfl
    · exact source.imp_right fun mine => .inr mine.later
    · exact absurd missing present
    · exact source.imp_right fun mine => .inl mine.later

private theorem asked_step (watching : Watching setup labels s) (locking : Locking setup file labels s)
    (taken : Step setup s e t) (before : Observed (labels ++ [e]) c token) (given : token ≠ [])
    (past : .sends c old ∈ labels ++ [e]) : old.accessToken = token := by
  rcases before.split with earlier | ⟨credential, now, rfl, expired, rfl⟩
  · rcases sends_past past with sent | rfl
    · exact watching.asked c token old earlier given sent
    · obtain ⟨observed, all, here⟩ := sends_inv taken
      obtain ⟨_, found, _, due⟩ := locking.asking _ _ _ _ (.inl here)
      obtain ⟨stored, found', present, _⟩ := watching.reached c token earlier given
      cases found.symm.trans found'
      have same : observed = token := watching.keeps c token observed earlier (by rw [here]; rfl)
      rcases due with missing | missing | due
      · exact absurd (same ▸ missing) given
      · exact absurd missing present
      · rw [due, same]
  · rcases sends_past past with sent | now
    · exact absurd sent (watching.unpassed taken (by simp [Event.rank]) rfl)
    · cases now

private theorem reached_step (watching : Watching setup labels s) (locking : Locking setup file labels s)
    (served : Served file (labels ++ [e])) (taken : Step setup s e t)
    (before : Observed (labels ++ [e]) c token) (given : token ≠ []) :
    ∃ stored, t.file (setup.origin c) = some stored ∧ stored.accessToken ≠ [] ∧
      (stored.accessToken = token ∨ Asked setup (labels ++ [e]) (setup.origin c) token) := by
  rcases before.split with earlier | ⟨credential, now, rfl, expired, rfl⟩
  · obtain ⟨stored, found, present, past⟩ := watching.reached c token earlier given
    rcases step_file taken with same | ⟨_, credential, _, _, here, present', replaced⟩ | ⟨_, failed, _⟩
    · rw [same]
      exact ⟨stored, found, present, past.imp_right Asked.later⟩
    · obtain ⟨rfl, ⟨old, found', _, sent⟩, _⟩ := locking.renewing _ _ _ _ here
      rw [replaced]
      by_cases there : setup.origin c = setup.origin e.call
      · rw [there, Function.update_self]
        refine ⟨credential, rfl, present', .inr ?_⟩
        rcases past with same | asked
        · rw [there] at found
          cases found.symm.trans found'
          exact ⟨e.call, stored, List.mem_append_left _ sent, rfl, same⟩
        · exact there ▸ asked.later
      · rw [Function.update_of_ne there]
        exact ⟨stored, found, present, past.imp_right Asked.later⟩
    · exact absurd failed served.saving
  · rw [file_same taken rfl]
    exact ⟨credential, (observes_inv taken).2.1, given, .inl rfl⟩

private theorem finished_step (watching : Watching setup labels s) (locking : Locking setup file labels s)
    (taken : Step setup s e t) (before : Observed (labels ++ [e]) c token) (given : token ≠ [])
    (done : t.phase c = .unlocking none ∨ .unlocks c none ∈ labels ++ [e]) :
    Asked setup (labels ++ [e]) (setup.origin c) token := by
  rcases before.split with earlier | ⟨credential, now, rfl, expired, rfl⟩
  · rcases done with here | past
    · by_cases other : c = e.call
      · subst other
        have work := to_locked taken (by rw [here]; rfl)
        rw [here] at work
        cases work with
        | @skips credential observed event there found present differs =>
          obtain ⟨stored, found', _, past⟩ := watching.reached _ token earlier given
          cases found.symm.trans found'
          have same : observed = token := watching.keeps _ token observed earlier (by rw [there]; rfl)
          exact (past.resolve_left (same ▸ differs)).later
        | saves event there =>
          obtain ⟨_, ⟨old, _, _, sent⟩, _⟩ := locking.renewing _ _ _ _ there
          exact ⟨_, old, List.mem_append_left _ sent, rfl, watching.asked _ token old earlier given sent⟩
      · rw [step_others taken other] at here
        exact (watching.finished c token earlier given (.inl here)).later
    · rcases List.mem_append.mp past with unlocked | last
      · exact (watching.finished c token earlier given (.inr unlocked)).later
      · cases List.mem_singleton.mp last
        cases taken with
        | unlocks here => exact (watching.finished c token earlier given (.inl here)).later
  · rcases done with here | past
    · rw [(observes_inv taken).2.2, afterLoad, if_pos expired] at here
      cases here
    · rcases List.mem_append.mp past with unlocked | last
      · exact absurd unlocked (watching.unpassed taken (by simp [Event.rank]) rfl)
      · cases List.mem_singleton.mp last

private theorem watching_step (watching : Watching setup labels s) (locking : Locking setup file labels s)
    (served : Served file (labels ++ [e])) (taken : Step setup s e t) : Watching setup (labels ++ [e]) t where
  passed := passed_step watching taken
  keeps _ _ _ before after := keeps_step watching taken before after
  source _ _ after := source_step watching taken after
  asker _ _ past present := asker_step watching locking taken past present
  asked _ _ _ before given past := asked_step watching locking taken before given past
  reached _ _ before given := reached_step watching locking served taken before given
  finished _ _ before given done := finished_step watching locking taken before given done

/-! ## What `AccessToken` returns -/

/-- The call has loaded this credential. -/
def Event.Loads (c : Nat) (credential : Credential) : Event → Prop
  | .observes c' credential' _ | .reloads c' credential' | .concludes c' credential' =>
    c' = c ∧ credential' = credential
  | _ => False

/-- The token of the last credential that the call has loaded, which was on disk
then, and no token whose refresh had been saved before. -/
def LastLoaded (setup : Setup) (file : File) (labels : List Event) (c : Nat) (token : Text) : Prop :=
  ∃ before load after credential s, labels = before ++ load :: after ∧
    .starts c ∈ before ∧ load.Loads c credential ∧ (∀ e ∈ after, ∀ other, ¬ e.Loads c other) ∧
      Run (Step setup) (.initial file) before s ∧ s.file (setup.origin c) = some credential ∧
        credential.accessToken = token ∧
          ∀ c' old saved, .sends c' old ∈ before → .saves c' saved ∈ before →
            setup.origin c' = setup.origin c → token ≠ old.accessToken

structure Returning (setup : Setup) (file : File) (labels : List Event) (s : State) : Prop where
  started : ∀ c, s.phase c = .idle ∨ .starts c ∈ labels
  loaded : ∀ c token, s.phase c = .leaving (.token token) → LastLoaded setup file labels c token

/-- A load is an event of its call. -/
theorem Event.Loads.call (loads : Event.Loads c credential e) : e.call = c := by
  cases e <;> first | exact loads.1 | cases loads

private theorem concluded_token (leaves : concluded credential = .leaving (.token token)) :
    credential.accessToken = token := by
  unfold concluded at leaves
  split at leaves <;> cases leaves
  rfl

private theorem after_token : Operation.after operation error ≠ .leaving (.token token) := by
  cases error with
  | some => cases operation <;> simp [Operation.after]
  | none => cases operation <;> simp [Operation.after]

/-- A token is only returned where it has been loaded just before. -/
theorem to_leaving (taken : Step setup s e t) (after : t.phase e.call = .leaving (.token token)) :
    ∃ credential, e.Loads e.call credential ∧ s.file (setup.origin e.call) = some credential ∧
      credential.accessToken = token ∧ s.phase e.call ≠ .idle := by
  cases taken with
  | observes here loaded =>
    simp only [Event.call, State.goes_phase, Function.update_self, afterLoad] at after
    split at after
    · cases after
    · exact ⟨_, ⟨rfl, rfl⟩, (load_ok.mp loaded).2.1, concluded_token after, by simp [Event.call, here]⟩
  | concludes here loaded =>
    simp only [Event.call, State.goes_phase, Function.update_self] at after
    exact ⟨_, ⟨rfl, rfl⟩, (load_ok.mp loaded).2.1, concluded_token after, by simp [Event.call, here]⟩
  | enters =>
    simp only [Event.call, State.goes_phase, Function.update_self, State.entered] at after
    split at after <;> cases after
  | unlocks =>
    simp only [Event.call, State.goes_phase, Function.update_self] at after
    exact absurd after after_token
  | reloads here loaded judged asked =>
    simp only [Event.call, State.goes_phase, Function.update_self] at after
    rcases judged_cases setup _ _ _ with ⟨same, _⟩ | ⟨error, same⟩ | ⟨same, _⟩ <;>
      cases (same.symm.trans judged).trans after
  | loadFails failed fails =>
    simp only [Event.call, State.goes_phase, Function.update_self] at after
    obtain ⟨error, rfl | rfl⟩ := loadFailure_failed fails <;> cases after
  | _ => simp [Event.call, State.goes] at after

/-- The events of other calls leave what a call has loaded last. -/
theorem LastLoaded.later (loaded : LastLoaded setup file labels c token) (other : c ≠ e.call) :
    LastLoaded setup file (labels ++ [e]) c token := by
  obtain ⟨before, load, after, credential, s, rfl, started, loads, last, rest⟩ := loaded
  refine ⟨before, load, after ++ [e], credential, s, by simp, started, loads, ?_, rest⟩
  intro e' past credential' loads'
  rcases List.mem_append.mp past with earlier | now
  · exact last e' earlier credential' loads'
  · cases List.mem_singleton.mp now
    exact other loads'.call.symm

private theorem returning_step (returning : Returning setup file labels s) (watching : Watching setup labels s)
    (rotated : Rotated setup among labels s) (ran : Run (Step setup) (.initial file) labels s)
    (taken : Step setup s e t) : Returning setup file (labels ++ [e]) t where
  started c := by
    by_cases other : c = e.call
    · subst other
      rcases returning.started e.call with idle | past
      · cases taken with
        | starts => exact .inr (by simp [Event.call])
        | loadFails failed fails =>
          simp only [Event.call] at idle
          rw [idle] at fails
          cases fails
        | _ here => cases idle.symm.trans here
      · exact .inr (List.mem_append_left _ past)
    · rw [step_others taken other]
      exact (returning.started c).imp_right (List.mem_append_left _)
  loaded c token after := by
    by_cases other : c = e.call
    · subst other
      obtain ⟨credential, loads, found, same, begun⟩ := to_leaving taken after
      refine ⟨labels, e, [], credential, s, rfl, (returning.started _).resolve_left begun, loads, by simp, ran,
        found, same, ?_⟩
      intro c' old saved sent past origin
      rcases rotated.sent c' old sent with flying | ⟨access, _⟩
      · have beyond : 7 < (s.phase c').rank := watching.passed _ past
        exact absurd flying.rank (by omega)
      · rw [← same]
        exact access credential (by rw [origin, found])
    · rw [step_others taken other] at after
      exact (returning.loaded c token after).later other

/-! ## Every run -/

structure Rotation (setup : Setup) (among : Text → Prop) (file : File) (labels : List Event) (s : State) : Prop where
  locking : Locking setup file labels s
  rotated : Rotated setup among labels s
  watching : Watching setup labels s
  returning : Returning setup file labels s

private theorem rotation_initial (apart : Apart among file) : Rotation setup among file [] (.initial file) where
  locking := {
    holding := by
      intro c locked
      cases locked
    asking := by
      rintro c observed credential all (here | here) <;> cases here
    posted := by
      intro c observed credential all here
      cases here
    renewing := by
      intro c observed credential all here
      cases here
    known := by
      rintro credential (⟨origin, found⟩ | ⟨c, past⟩)
      · exact ⟨.inl ⟨origin, credential, found, rfl⟩, .inl ⟨origin, credential, found, rfl⟩⟩
      · cases past }
  rotated := {
    apart
    sent := by
      intro c old past
      cases past
    distinct := .nil }
  watching := {
    passed := by
      intro e past
      cases past
    keeps := by
      rintro c token observed ⟨_, _, past, _⟩
      cases past
    source := by
      intro c observed here
      cases here
    asker := by
      intro c old past
      cases past
    asked := by
      rintro c token old ⟨_, _, past, _⟩
      cases past
    reached := by
      rintro c token ⟨_, _, past, _⟩
      cases past
    finished := by
      rintro c token ⟨_, _, past, _⟩
      cases past }
  returning := {
    started := fun _ => .inl rfl
    loaded := by
      intro c token here
      cases here }

private theorem rotation_run (apart : Apart among file) (ran : Run (Step setup) (.initial file) labels s)
    (served : Served file labels) : Rotation setup among file labels s := by
  refine ran.trace_invariant (P := fun labels s => Served file labels → Rotation setup among file labels s)
    (fun _ => rotation_initial apart) ?_ served
  intro labels e s t ran before taken served
  obtain ⟨locking, rotated, watching, returning⟩ := before served.before
  exact ⟨locking_step locking served taken, rotated_step rotated locking served taken,
    watching_step watching locking served taken, returning_step returning watching rotated ran taken⟩

/-- The refresh token in the form of a request. -/
def tokenSent (request : Nat × Credential) : Option Text := (refreshForm request.2).lookup refreshField

/-- The requests made for an origin with this access token on disk. -/
def askedWith (setup : Setup) (labels : List Event) (origin token : Text) : List (Nat × Credential) :=
  (requests labels).filter fun r => setup.origin r.1 = origin ∧ r.2.accessToken = token

private theorem mem_askedWith : r ∈ askedWith setup labels origin token ↔
    r ∈ requests labels ∧ setup.origin r.1 = origin ∧ r.2.accessToken = token := by
  rw [askedWith, List.mem_filter, decide_eq_true_iff]

private theorem askedWith_length (rotated : Rotated setup among labels s) :
    (askedWith setup labels origin token).length ≤ 1 := by
  have distinct := rotated.distinct.filter fun r => setup.origin r.1 = origin ∧ r.2.accessToken = token
  rw [← askedWith] at distinct
  cases split : askedWith setup labels origin token with
  | nil => exact Nat.zero_le _
  | cons r rest =>
    cases rest with
    | nil => exact le_rfl
    | cons r' rest =>
      obtain ⟨_, here, same⟩ := mem_askedWith.mp (split ▸ List.mem_cons_self)
      obtain ⟨_, here', same'⟩ := mem_askedWith.mp (split ▸ List.mem_cons_of_mem r List.mem_cons_self)
      rw [split, List.pairwise_cons] at distinct
      exact absurd (same.trans same'.symm) ((distinct.1 r' List.mem_cons_self).1 (here.trans here'.symm))

/-! ## Runs of two calls -/

/-- A usable credential is saved, when nothing fails. -/
theorem save_ok (present : credential.accessToken ≠ []) :
    save file all origin credential none = (Function.update all origin (some credential), none) := if_neg present

/-- A call that finds its credential still due goes on to refresh it. -/
theorem reloads_sending (here : s.phase c = .reloading observed)
    (found : s.file (setup.origin c) = some credential)
    (judged : setup.judged observed credential s.file = .sending observed credential s.file) :
    Step setup s (.reloads c credential) (s.goes c (.sending observed credential s.file)) :=
  .reloads here (load_ok.mpr ⟨rfl, found, rfl⟩) judged (by simp)

/-- Neither an answer nor a failure. -/
def Event.quiet : Event → Bool
  | .answers _ _ _ | .requestFails _ _ | .saveFails _ _ => false
  | _ => true

private theorem served_once (quiet : (before ++ after).all Event.quiet) (given : token.refreshToken ≠ [])
    (new : ∀ origin old, file origin = some old →
      old.accessToken ≠ token.accessToken ∧ old.refreshToken ≠ token.refreshToken) :
    Served file (before ++ .answers c token now :: after) where
  requests c' fault failed := by
    rcases List.mem_append.mp failed with past | past
    · cases List.all_eq_true.mp quiet _ (List.mem_append_left _ past)
    · cases past with
      | tail _ past => cases List.all_eq_true.mp quiet _ (List.mem_append_right _ past)
  saves c' reason failed := by
    rcases List.mem_append.mp failed with past | past
    · cases List.all_eq_true.mp quiet _ (List.mem_append_left _ past)
    · cases past with
      | tail _ past => cases List.all_eq_true.mp quiet _ (List.mem_append_right _ past)
  fresh xs c' token' now' ys split := by
    have unanswered (e : Event) (past : e ∈ before ++ after) : e ≠ .answers c' token' now' := by
      rintro rfl
      cases List.all_eq_true.mp quiet _ past
    obtain ⟨rfl, same, rfl⟩ := (List.append_cons_inj_of_notMem
      (fun past => unanswered _ (List.mem_append_left _ past) rfl)
      (fun past => unanswered _ (List.mem_append_right _ past) rfl)).mp split
    cases same
    refine ⟨given, ?_, ?_⟩
    · rintro (⟨origin, old, found, same⟩ | ⟨c', answer, now', past, _⟩)
      · exact (new origin old found).1 same
      · cases List.all_eq_true.mp quiet _ (List.mem_append_left _ past)
    · rintro (⟨origin, old, found, same⟩ | ⟨c', answer, now', past, _⟩)
      · exact (new origin old found).2 same
      · cases List.all_eq_true.mp quiet _ (List.mem_append_left _ past)

/-- Two calls, each on a manager of its own. -/
def sampleSetup (first second : Operation) (origins : List Text) : Setup where
  manager c := c
  operation c := if c = 0 then first else second
  originOf m := origins.getD m []
  secure _ := true
  uncreatable _ := none

def sampleOrigin : Text := [ch 'o']

/-- An expired credential. -/
def sampleCredential (accessToken : Text) : Credential := ⟨accessToken, [ch 'r'], 1, [], [ch 'e'], [], [], []⟩

abbrev sampleOld : Credential := sampleCredential [ch 'a']

def sampleToken : TokenResponse := ⟨[ch 'b'], [ch 's'], 0, []⟩

/-- The same credential for these origins. -/
def sampleFile (origins : List Text) (credential : Credential) : File := fun origin =>
  if origin ∈ origins then some credential else none

def sampleLoads (c : Nat) (old : Credential) : List Event := [.starts c, .enters c, .observes c old 1]

def sampleAsks (c : Nat) (old : Credential) : List Event := [.locks c, .reloads c old, .sends c old]

def sampleSaves (c : Nat) (old : Credential) : List Event :=
  [.saves c (old.refreshed sampleToken 1), .unlocks c none]

def sampleSkips (c : Nat) (old : Credential) : List Event :=
  [.locks c, .reloads c (old.refreshed sampleToken 1), .unlocks c none]

private theorem sample_served (quiet : (before ++ after).all Event.quiet) (other : credential.accessToken ≠ [ch 'b'])
    (same : credential.refreshToken = [ch 'r']) :
    Served (sampleFile origins credential) (before ++ .answers c sampleToken 1 :: after) := by
  refine served_once quiet (by simp [sampleToken]) ?_
  intro origin old found
  unfold sampleFile at found
  split at found <;> cases found
  exact ⟨other, by rw [same]; decide⟩

/-- Both calls load the same token, and the first one refreshes it. -/
def sampleRun : List Event :=
  sampleLoads 0 sampleOld ++ sampleLoads 1 sampleOld ++ sampleAsks 0 sampleOld ++
    .answers 0 sampleToken 1 :: (sampleSaves 0 sampleOld ++ sampleSkips 1 sampleOld)

private theorem sampleRun_runs : ∃ s, Run (Step (sampleSetup .accessToken .accessToken [sampleOrigin, sampleOrigin]))
    (.initial (sampleFile [sampleOrigin] sampleOld)) sampleRun s := by
  refine ⟨_, .cons (.starts rfl) <| .cons (.enters rfl rfl) <|
    .cons (.observes rfl (load_ok.mpr ⟨rfl, rfl, rfl⟩)) <|
    .cons (.starts rfl) <| .cons (.enters rfl rfl) <| .cons (.observes rfl (load_ok.mpr ⟨rfl, rfl, rfl⟩)) <|
    .cons (.locks rfl rfl) <| .cons (reloads_sending rfl rfl rfl) <| .cons (.sends rfl) <|
    .cons (.answers rfl (by simp [sampleToken])) <|
    .cons (.saves rfl (save_ok (by simp [Credential.refreshed, sampleToken]))) <| .cons (.unlocks rfl) <|
    .cons (.locks rfl rfl) <| .cons (.reloadsOther rfl (load_ok.mpr ⟨rfl, rfl, rfl⟩) rfl) <|
    .cons (.unlocks rfl) .nil⟩

/-- A `Refresh` refreshes the token that `AccessToken` has loaded. -/
def overtaken : List Event :=
  sampleLoads 0 sampleOld ++ [.starts 1, .enters 1] ++ sampleAsks 1 sampleOld ++
    .answers 1 sampleToken 1 :: (sampleSaves 1 sampleOld ++ sampleSkips 0 sampleOld)

private theorem overtaken_runs : ∃ s, Run (Step (sampleSetup .accessToken .refresh [sampleOrigin, sampleOrigin]))
    (.initial (sampleFile [sampleOrigin] sampleOld)) overtaken s := by
  refine ⟨_, .cons (.starts rfl) <| .cons (.enters rfl rfl) <|
    .cons (.observes rfl (load_ok.mpr ⟨rfl, rfl, rfl⟩)) <|
    .cons (.starts rfl) <| .cons (.enters rfl rfl) <|
    .cons (.locks rfl rfl) <| .cons (reloads_sending rfl rfl rfl) <| .cons (.sends rfl) <|
    .cons (.answers rfl (by simp [sampleToken])) <|
    .cons (.saves rfl (save_ok (by simp [Credential.refreshed, sampleToken]))) <| .cons (.unlocks rfl) <|
    .cons (.locks rfl rfl) <| .cons (.reloadsOther rfl (load_ok.mpr ⟨rfl, rfl, rfl⟩) rfl) <|
    .cons (.unlocks rfl) .nil⟩

/-- Both calls have loaded an empty access token. -/
def unnamed : List Event :=
  sampleLoads 0 (sampleCredential []) ++ sampleLoads 1 (sampleCredential []) ++ sampleAsks 0 (sampleCredential []) ++
    .answers 0 sampleToken 1 :: (sampleSaves 0 (sampleCredential []) ++
      sampleAsks 1 ((sampleCredential []).refreshed sampleToken 1))

private theorem unnamed_runs : ∃ s, Run (Step (sampleSetup .accessToken .accessToken [sampleOrigin, sampleOrigin]))
    (.initial (sampleFile [sampleOrigin] (sampleCredential []))) unnamed s := by
  refine ⟨_, .cons (.starts rfl) <| .cons (.enters rfl rfl) <|
    .cons (.observes rfl (load_ok.mpr ⟨rfl, rfl, rfl⟩)) <|
    .cons (.starts rfl) <| .cons (.enters rfl rfl) <| .cons (.observes rfl (load_ok.mpr ⟨rfl, rfl, rfl⟩)) <|
    .cons (.locks rfl rfl) <| .cons (reloads_sending rfl rfl rfl) <| .cons (.sends rfl) <|
    .cons (.answers rfl (by simp [sampleToken])) <|
    .cons (.saves rfl (save_ok (by simp [Credential.refreshed, sampleToken]))) <| .cons (.unlocks rfl) <|
    .cons (.locks rfl rfl) <| .cons (reloads_sending rfl rfl rfl) <| .cons (.sends rfl) .nil⟩

/-- Calls for two origins with one refresh token. -/
def shared : List Event :=
  [.starts 0, .enters 0] ++ sampleAsks 0 sampleOld ++
    .answers 0 sampleToken 1 :: (sampleSaves 0 sampleOld ++ [.starts 1, .enters 1] ++ sampleAsks 1 sampleOld)

private theorem shared_runs : ∃ s, Run (Step (sampleSetup .refresh .refresh [sampleOrigin, [ch 'p']]))
    (.initial (sampleFile [sampleOrigin, [ch 'p']] sampleOld)) shared s := by
  refine ⟨_, .cons (.starts rfl) <| .cons (.enters rfl rfl) <|
    .cons (.locks rfl rfl) <| .cons (reloads_sending rfl rfl rfl) <| .cons (.sends rfl) <|
    .cons (.answers rfl (by simp [sampleToken])) <|
    .cons (.saves rfl (save_ok (by simp [Credential.refreshed, sampleToken]))) <| .cons (.unlocks rfl) <|
    .cons (.starts rfl) <| .cons (.enters rfl rfl) <|
    .cons (.locks rfl rfl) <| .cons (reloads_sending rfl rfl rfl) <| .cons (.sends rfl) .nil⟩

/-! ## The result -/

/-- Rotation is serialized: a request sends the refresh token on disk; no refresh
token is sent twice for origins that did not share one; the `AccessToken` calls
that have loaded one expired access token are served by the one request made with
it on disk; and what `AccessToken` returns was on disk at its last load, and had
not been refreshed before. -/
theorem rotation_serialized (ran : Run (Step setup) (.initial file) labels s) (served : Served file labels) :
    (∀ c credential t, Step setup s (.sends c credential) t → ∃ stored,
      s.file (setup.origin c) = some stored ∧ tokenSent (c, credential) = some stored.refreshToken) ∧
    (∀ among, Apart among file → (requests labels).Pairwise fun r r' =>
      among (setup.origin r.1) → among (setup.origin r'.1) → tokenSent r ≠ tokenSent r') ∧
    (∀ origin token, token ≠ [] →
      (askedWith setup labels origin token).length ≤ 1 ∧
      (∀ r ∈ requests labels, setup.origin r.1 = origin → Observed labels r.1 token →
        r ∈ askedWith setup labels origin token) ∧
      (∀ c, setup.origin c = origin → Observed labels c token → .unlocks c none ∈ labels →
        (askedWith setup labels origin token).length = 1) ∧
      ∀ r ∈ askedWith setup labels origin token,
        setup.operation r.1 = .refresh ∨ Observed labels r.1 token ∨ Observed labels r.1 []) ∧
    ∀ c token t, Step setup s (.returns c (.token token)) t → LastLoaded setup file labels c token := by
  have one (origin : Text) : Apart (· = origin) file := by
    rintro o o' a b rfl rfl other
    exact absurd rfl other
  refine ⟨?_, ?_, ?_, ?_⟩
  · intro c credential t taken
    exact ⟨credential, (rotation_run (one []) ran served).locking.sent taken, refreshForm_token⟩
  · intro among apart
    refine (rotation_run apart ran served).rotated.distinct.imp ?_
    intro r r' differ mine theirs same
    rw [tokenSent, tokenSent, refreshForm_token, refreshForm_token, Option.some_inj] at same
    exact differ.2 mine theirs same
  · intro origin token given
    obtain ⟨_, rotated, watching, _⟩ := rotation_run (one origin) ran served
    refine ⟨askedWith_length rotated, ?_, ?_, ?_⟩
    · rintro ⟨c, old⟩ asked here observed
      exact mem_askedWith.mpr ⟨asked, here, watching.asked c token old observed given (mem_requests.mp asked)⟩
    · rintro c rfl observed unlocked
      obtain ⟨c', old, sent, here, same⟩ := watching.finished c token observed given (.inr unlocked)
      have asked := mem_askedWith.mpr ⟨mem_requests.mpr sent, here, same⟩
      exact le_antisymm (askedWith_length rotated) (List.length_pos_of_mem asked)
    · rintro ⟨c, old⟩ asked
      obtain ⟨past, _, rfl⟩ := mem_askedWith.mp asked
      exact watching.asker c old (mem_requests.mp past) given
  · intro c token t taken
    cases taken with
    | returns here => exact (rotation_run (one []) ran served).returning.loaded c token here

theorem rotation_serialized_sample : (askedWith (sampleSetup .accessToken .accessToken [sampleOrigin, sampleOrigin])
    sampleRun sampleOrigin sampleOld.accessToken).length = 1 := by
  obtain ⟨s, ran⟩ := sampleRun_runs
  have served : Served (sampleFile [sampleOrigin] sampleOld) sampleRun := sample_served rfl (by decide) rfl
  have calls := (rotation_serialized ran served).2.2.1 sampleOrigin sampleOld.accessToken (by decide)
  exact calls.2.2.1 1 rfl ⟨sampleOld, 1, by simp [sampleRun, sampleLoads], rfl, rfl⟩
    (by simp [sampleRun, sampleSkips])

/-- The calls that have loaded one access token may make no request, where a
`Refresh` comes first, and two where the token is empty; and two origins may
share a refresh token. -/
theorem rotation_exceptions :
    (∃ s, Run (Step (sampleSetup .accessToken .refresh [sampleOrigin, sampleOrigin]))
        (.initial (sampleFile [sampleOrigin] sampleOld)) overtaken s ∧
      Served (sampleFile [sampleOrigin] sampleOld) overtaken ∧
      Observed overtaken 0 sampleOld.accessToken ∧ .unlocks 0 none ∈ overtaken ∧
      ∀ r ∈ requests overtaken, ¬ Observed overtaken r.1 sampleOld.accessToken) ∧
    (∃ s, Run (Step (sampleSetup .accessToken .accessToken [sampleOrigin, sampleOrigin]))
        (.initial (sampleFile [sampleOrigin] (sampleCredential []))) unnamed s ∧
      Served (sampleFile [sampleOrigin] (sampleCredential [])) unnamed ∧
      Observed unnamed 0 [] ∧ Observed unnamed 1 [] ∧ (requests unnamed).map Prod.fst = [0, 1]) ∧
    ∃ s, Run (Step (sampleSetup .refresh .refresh [sampleOrigin, [ch 'p']]))
        (.initial (sampleFile [sampleOrigin, [ch 'p']] sampleOld)) shared s ∧
      Served (sampleFile [sampleOrigin, [ch 'p']] sampleOld) shared ∧
      (requests shared).map tokenSent = [some [ch 'r'], some [ch 'r']] := by
  obtain ⟨s, ranOvertaken⟩ := overtaken_runs
  obtain ⟨t, ranUnnamed⟩ := unnamed_runs
  obtain ⟨u, ranShared⟩ := shared_runs
  refine ⟨⟨s, ranOvertaken, sample_served rfl (by decide) rfl, ⟨sampleOld, 1, ?_, rfl, rfl⟩, ?_, ?_⟩,
    ⟨t, ranUnnamed, sample_served rfl (by decide) rfl, ⟨sampleCredential [], 1, ?_, rfl, rfl⟩,
      ⟨sampleCredential [], 1, ?_, rfl, rfl⟩, rfl⟩,
    ⟨u, ranShared, sample_served rfl (by decide) rfl, ?_⟩⟩
  · simp [overtaken, sampleLoads]
  · simp [overtaken, sampleSkips]
  · rintro r asked ⟨credential, now, past, _⟩
    have maker : requests overtaken = [(1, sampleOld)] := rfl
    rw [maker, List.mem_singleton] at asked
    rw [asked] at past
    simp [overtaken, sampleLoads, sampleAsks, sampleSaves, sampleSkips] at past
  · simp [unnamed, sampleLoads]
  · simp [unnamed, sampleLoads]
  · have both : requests shared = [(0, sampleOld), (1, sampleOld)] := rfl
    simp [both, tokenSent, refreshForm_token, sampleCredential]

end HermesHey.Credentials
