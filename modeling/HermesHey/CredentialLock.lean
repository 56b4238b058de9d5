import HermesHey.Credentials

/-! What the file lock protects: the credential that a call sends a refresh token
of stays on disk until the call has saved what was answered, and neither of its
tokens is stored again. -/
namespace HermesHey.Credentials
open Library
variable {setup : Setup}

/-! ## The work of a call under the lock -/

/-- In `refreshLocked`, with the file lock. -/
def Phase.locked : Phase → Bool
  | .reloading _ | .sending _ _ _ | .sent _ _ _ | .saving _ _ _ | .unlocking _ => true
  | _ => false

/-- The credential on disk may be refreshed by a call that has observed this token. -/
def Due (observed : Text) (credential : Credential) : Prop :=
  credential.refreshToken ≠ [] ∧
    (observed = [] ∨ credential.accessToken = [] ∨ credential.accessToken = observed)

/-- A call that has loaded a credential is done with it, fails, or refreshes it because it is due. -/
theorem judged_cases (setup : Setup) (observed : Text) (credential : Credential) (all : File) :
    (setup.judged observed credential all = .unlocking none ∧
      credential.accessToken ≠ [] ∧ credential.accessToken ≠ observed) ∨
    (∃ error, setup.judged observed credential all = .unlocking (some error)) ∨
    (setup.judged observed credential all = .sending observed credential all ∧ Due observed credential) := by
  unfold Setup.judged
  split
  · rename_i other
    exact .inl ⟨rfl, other.2⟩
  rename_i same
  split
  · exact .inr (.inl ⟨_, rfl⟩)
  rename_i complete
  split
  · exact .inr (.inl ⟨_, rfl⟩)
  split
  · exact .inr (.inl ⟨_, rfl⟩)
  · refine .inr (.inr ⟨rfl, fun missing => complete (.inl missing), ?_⟩)
    by_cases observing : observed = []
    · exact .inl observing
    by_cases present : credential.accessToken = []
    · exact .inr (.inl present)
    · exact .inr (.inr (not_not.mp fun other => same ⟨observing, present, other⟩))

/-- The steps into a phase under the lock. -/
inductive Work (setup : Setup) (s : State) (c : Nat) (e : Event) : Phase → Prop where
  | locks (event : e = .locks c) (here : s.phase c = .locking observed) (free : s.lock = none) :
      Work setup s c e (.reloading observed)
  | asks (event : e = .reloads c credential) (here : s.phase c = .reloading observed)
      (found : s.file (setup.origin c) = some credential) (due : Due observed credential) :
      Work setup s c e (.sending observed credential s.file)
  | skips (event : e = .reloads c credential) (here : s.phase c = .reloading observed)
      (found : s.file (setup.origin c) = some credential) (present : credential.accessToken ≠ [])
      (other : credential.accessToken ≠ observed) : Work setup s c e (.unlocking none)
  | sends (event : e = .sends c credential) (here : s.phase c = .sending observed credential all) :
      Work setup s c e (.sent observed credential all)
  | answers (event : e = .answers c token now) (here : s.phase c = .sent observed credential all) :
      Work setup s c e (.saving observed (credential.refreshed token now) all)
  | saves (event : e = .saves c credential) (here : s.phase c = .saving observed credential all) :
      Work setup s c e (.unlocking none)
  | fails (held : (s.phase c).locked) : Work setup s c e (.unlocking (some error))

private theorem concluded_locked (credential : Credential) : (concluded credential).locked = false := by
  unfold concluded
  split <;> rfl

private theorem afterLoad_locked (credential : Credential) (now : Int) :
    (afterLoad credential now).locked = false := by
  unfold afterLoad
  split
  · rfl
  · exact concluded_locked credential

private theorem after_locked (operation : Operation) (error : Option Text) :
    (operation.after error).locked = false := by
  cases error with
  | some => cases operation <;> rfl
  | none => cases operation <;> rfl

private theorem entered_locked (s : State) (c : Nat) : (s.entered setup c).locked = false := by
  unfold State.entered
  split <;> rfl

/-- Whoever is under the lock after a step did some of its work in that step. -/
theorem to_locked (taken : Step setup s e t) (locked : (t.phase e.call).locked) :
    Work setup s e.call e (t.phase e.call) := by
  cases taken with
  | starts | returns | lockFails => simp [Event.call, Phase.locked] at locked
  | enters => simp [Event.call, entered_locked] at locked
  | observes => simp [Event.call, afterLoad_locked] at locked
  | unlocks => simp [Event.call, after_locked] at locked
  | concludes => simp [Event.call, concluded_locked] at locked
  | locks here free => simpa [Event.call, State.goes] using Work.locks rfl here free
  | sends here => simpa [Event.call] using Work.sends rfl here
  | answers here => simpa [Event.call] using Work.answers rfl here
  | saves here => simpa [Event.call] using Work.saves rfl here
  | requestFails here => simpa [Event.call] using Work.fails (by simp [here, Phase.locked])
  | saveFails here => simpa [Event.call, State.goes] using Work.fails (by simp [here, Phase.locked])
  | reloadsOther here loaded judged =>
    obtain ⟨-, found, rfl⟩ := load_ok.mp loaded
    simp only [Event.call, State.goes_phase, Function.update_self]
    rcases judged_cases setup _ _ s.file with ⟨same, present, other⟩ | ⟨error, same⟩ | ⟨same, due⟩
    · exact .skips rfl here found present other
    · cases same.symm.trans judged
    · cases same.symm.trans judged
  | reloads here loaded judged asked =>
    obtain ⟨-, found, rfl⟩ := load_ok.mp loaded
    subst judged
    simp only [Event.call, State.goes_phase, Function.update_self]
    rcases judged_cases setup _ _ s.file with ⟨same, present, other⟩ | ⟨error, same⟩ | ⟨same, due⟩
    · exact absurd same asked
    · rw [same]
      exact .fails (by rw [here]; rfl)
    · rw [same]
      exact .asks rfl here found due
  | @loadFails c fault reason next failed fails =>
    simp only [Event.call, State.goes_phase, Function.update_self] at locked ⊢
    cases here : s.phase c with
    | reloading observed =>
      rw [here] at fails
      cases fails
      exact .fails (by rw [here]; rfl)
    | loading | concluding =>
      rw [here] at fails
      cases fails
      cases locked
    | _ =>
      rw [here] at fails
      cases fails

/-- All of the work but taking the lock is done under it. -/
theorem Work.before (work : Work setup s c e phase) (other : e ≠ .locks c) : (s.phase c).locked := by
  cases work with
  | locks event => exact absurd event other
  | fails held => exact held
  | _ _ here =>
    rw [here]
    rfl

private theorem step_lock (taken : Step setup s e t) :
    (t.lock = s.lock ∧ e ≠ .locks e.call) ∨ (s.lock = none ∧ t.lock = some e.call) ∨
      ((s.phase e.call).locked ∧ t.lock = none ∧ (t.phase e.call).locked = false) := by
  cases taken with
  | locks here free => exact .inr (.inl ⟨free, rfl⟩)
  | unlocks here => exact .inr (.inr ⟨by simp [Event.call, here, Phase.locked], rfl, by simp [Event.call, after_locked]⟩)
  | _ => exact .inl ⟨rfl, by simp⟩

/-- The file changes only when a call under the lock saves, or fails in a save. -/
theorem step_file (taken : Step setup s e t) :
    t.file = s.file ∨ (∃ observed credential all, e = .saves e.call credential ∧
      s.phase e.call = .saving observed credential all ∧ credential.accessToken ≠ [] ∧
        t.file = Function.update all (setup.origin e.call) (some credential)) ∨
      ∃ reason, e = .saveFails e.call reason ∧ (s.phase e.call).locked := by
  cases taken with
  | @saves c observed credential all fault file here saved =>
    obtain ⟨present, same⟩ := save_saved saved
    exact .inr (.inl ⟨observed, credential, all, rfl, here, present, same⟩)
  | saveFails here => exact .inr (.inr ⟨_, rfl, by simp [Event.call, here, Phase.locked]⟩)
  | _ => exact .inl rfl

def Event.stores : Event → Bool
  | .saves _ _ | .saveFails _ _ => true
  | _ => false

/-- Every event but a save leaves the file as it is. -/
theorem file_same (taken : Step setup s e t) (plain : e.stores = false) : t.file = s.file := by
  rcases step_file taken with same | ⟨_, credential, _, saving, _⟩ | ⟨reason, failing, _⟩
  · exact same
  · rw [saving] at plain
    cases plain
  · rw [failing] at plain
    cases plain

/-- A request that was sent is answered with a token, or fails. -/
theorem leaves_sent (taken : Step setup s e t) (here : s.phase e.call = .sent observed credential all) :
    (∃ token now, e = .answers e.call token now ∧ t.file = s.file ∧
      t.phase e.call = .saving observed (credential.refreshed token now) all) ∨
    ∃ fault, e = .requestFails e.call fault := by
  cases taken with
  | answers there valid =>
    cases here.symm.trans there
    exact .inl ⟨_, _, rfl, rfl, by simp [Event.call]⟩
  | requestFails there => exact .inr ⟨_, rfl⟩
  | loadFails failed fails =>
    simp only [Event.call] at here
    rw [here] at fails
    cases fails
  | _ there => cases here.symm.trans there

/-- A save writes the credential over what the call had loaded, or fails. -/
theorem leaves_saving (taken : Step setup s e t) (here : s.phase e.call = .saving observed credential all) :
    (e = .saves e.call credential ∧
      t.file = Function.update all (setup.origin e.call) (some credential)) ∨
    ∃ reason, e = .saveFails e.call reason := by
  cases taken with
  | saves there saved =>
    cases here.symm.trans there
    exact .inl ⟨rfl, (save_saved saved).2⟩
  | saveFails there failed => exact .inr ⟨_, rfl⟩
  | loadFails failed fails =>
    simp only [Event.call] at here
    rw [here] at fails
    cases fails
  | _ there => cases here.symm.trans there

/-- A call that works under the lock holds it. -/
def Holding (s : State) : Prop := ∀ c, (s.phase c).locked → s.lock = some c

private theorem holding_step (holding : Holding s) (taken : Step setup s e t) : Holding t := by
  intro c locked
  by_cases other : c = e.call
  · subst other
    have work := to_locked taken locked
    rcases step_lock taken with ⟨same, kept⟩ | ⟨_, now⟩ | ⟨_, _, left⟩
    · rw [same]
      exact holding _ (work.before kept)
    · exact now
    · rw [left] at locked
      cases locked
  · rw [step_others taken other] at locked
    have mine := holding c locked
    rcases step_lock taken with ⟨same, _⟩ | ⟨free, _⟩ | ⟨held, _, _⟩
    · rw [same, mine]
    · rw [free] at mine
      cases mine
    · cases mine.symm.trans (holding _ held)
      exact absurd rfl other

/-- Another call does not store anything while this one has the lock. -/
theorem file_kept (holding : Holding s) (taken : Step setup s e t) (other : c ≠ e.call)
    (locked : (s.phase c).locked) : t.file = s.file := by
  have mine := holding c locked
  rcases step_file taken with same | ⟨_, _, _, _, here, _⟩ | ⟨_, _, held⟩
  · exact same
  · cases mine.symm.trans (holding _ (by rw [here]; rfl))
    exact absurd rfl other
  · cases mine.symm.trans (holding _ held)
    exact absurd rfl other

/-! ## Tokens that were seen before -/

/-- In the initial file, or answered. -/
def Seen (file : File) (labels : List Event) (stored : Credential → Text) (answered : TokenResponse → Text)
    (token : Text) : Prop :=
  (∃ origin credential, file origin = some credential ∧ stored credential = token) ∨
    ∃ c answer now, .answers c answer now ∈ labels ∧ answered answer = token

abbrev SeenAccess (file : File) (labels : List Event) : Text → Prop :=
  Seen file labels Credential.accessToken TokenResponse.accessToken

abbrev SeenRefresh (file : File) (labels : List Event) : Text → Prop :=
  Seen file labels Credential.refreshToken TokenResponse.refreshToken

/-- Every request is answered with tokens never seen before, and no `save` fails. -/
structure Served (file : File) (labels : List Event) : Prop where
  requests : ∀ c fault, .requestFails c fault ∉ labels
  saves : ∀ c reason, .saveFails c reason ∉ labels
  fresh : ∀ before c token now after, labels = before ++ .answers c token now :: after →
    token.refreshToken ≠ [] ∧ ¬ SeenAccess file before token.accessToken ∧
      ¬ SeenRefresh file before token.refreshToken

/-- A served history was served up to every point of it. -/
theorem Served.before (served : Served file (labels ++ [e])) : Served file labels where
  requests c fault failed := served.requests c fault (List.mem_append_left _ failed)
  saves c reason failed := served.saves c reason (List.mem_append_left _ failed)
  fresh before c token now after split := by
    refine served.fresh before c token now (after ++ [e]) ?_
    rw [split, List.append_assoc, List.cons_append]

/-- What was seen stays seen. -/
theorem Seen.later (seen : Seen file labels stored answered token) :
    Seen file (labels ++ [e]) stored answered token := by
  rcases seen with initial | ⟨c, answer, now, past, same⟩
  · exact .inl initial
  · exact .inr ⟨c, answer, now, List.mem_append_left _ past, same⟩

def Credential.Known (file : File) (labels : List Event) (credential : Credential) : Prop :=
  SeenAccess file labels credential.accessToken ∧ SeenRefresh file labels credential.refreshToken

/-- A credential that is known stays known. -/
theorem Credential.Known.later {credential : Credential} (known : credential.Known file labels) :
    credential.Known file (labels ++ [e]) :=
  ⟨known.1.later, known.2.later⟩

/-- On disk, or the credential that some request was made of. -/
def Met (labels : List Event) (s : State) (credential : Credential) : Prop :=
  (∃ origin, s.file origin = some credential) ∨ ∃ c, .sends c credential ∈ labels

/-- Neither token of this credential belongs to another one. -/
def New (labels : List Event) (s : State) (credential : Credential) : Prop :=
  ∀ old, Met labels s old →
    old.accessToken ≠ credential.accessToken ∧ old.refreshToken ≠ credential.refreshToken

/-- What the calls under the lock know. -/
structure Locking (setup : Setup) (file : File) (labels : List Event) (s : State) : Prop where
  holding : Holding s
  asking : ∀ c observed credential all,
    s.phase c = .sending observed credential all ∨ s.phase c = .sent observed credential all →
      all = s.file ∧ s.file (setup.origin c) = some credential ∧ Due observed credential
  posted : ∀ c observed credential all, s.phase c = .sent observed credential all →
    .sends c credential ∈ labels
  renewing : ∀ c observed credential all, s.phase c = .saving observed credential all →
    all = s.file ∧ (∃ old, s.file (setup.origin c) = some old ∧ Due observed old ∧ .sends c old ∈ labels) ∧
      credential.Known file labels ∧ New labels s credential
  known : ∀ credential, Met labels s credential → credential.Known file labels

/-- A request is an earlier one or the one being made. -/
theorem sends_past (past : Event.sends c old ∈ labels ++ [e]) : Event.sends c old ∈ labels ∨ e = .sends c old := by
  rcases List.mem_append.mp past with earlier | now
  · exact .inl earlier
  · exact .inr (List.mem_singleton.mp now).symm

/-- A call that sends a request was about to. -/
theorem sends_inv (taken : Step setup s (.sends c credential) t) :
    ∃ observed all, s.phase c = .sending observed credential all := by
  cases taken with
  | sends here => exact ⟨_, _, here⟩

/-- Where nothing is stored, only a request may be met anew. -/
theorem met_before (same : t.file = s.file) (met : Met (labels ++ [e]) t old) :
    Met labels s old ∨ ∃ c, e = .sends c old := by
  rcases met with ⟨origin, found⟩ | ⟨c, past⟩
  · exact .inl (.inl ⟨origin, same ▸ found⟩)
  · rcases sends_past past with earlier | now
    · exact .inl (.inr ⟨c, earlier⟩)
    · exact .inr ⟨c, now⟩

/-- A request is made of a credential on disk. -/
theorem Locking.sent (locking : Locking setup file labels s) (taken : Step setup s (.sends c old) t) :
    s.file (setup.origin c) = some old := by
  obtain ⟨observed, all, here⟩ := sends_inv taken
  exact (locking.asking c observed old all (.inl here)).2.1

/-- No request of a served history fails. -/
theorem Served.answering (served : Served file (labels ++ [e])) : e ≠ .requestFails c fault := by
  rintro rfl
  exact served.requests c fault (by simp)

/-- Nor does a save. -/
theorem Served.saving (served : Served file (labels ++ [e])) : e ≠ .saveFails c reason := by
  rintro rfl
  exact served.saves c reason (by simp)

private theorem known_step (locking : Locking setup file labels s) (served : Served file (labels ++ [e]))
    (taken : Step setup s e t) (met : Met (labels ++ [e]) t credential) :
    credential.Known file (labels ++ [e]) := by
  rcases step_file taken with same | ⟨observed, new, all, saving, here, _, stored⟩ | ⟨reason, failed, _⟩
  · rcases met_before same met with before | ⟨c, rfl⟩
    · exact (locking.known _ before).later
    · exact (locking.known _ (.inl ⟨_, locking.sent taken⟩)).later
  · obtain ⟨rfl, _, known, _⟩ := locking.renewing _ _ _ _ here
    rcases met with ⟨origin, found⟩ | ⟨c, past⟩
    · rw [stored] at found
      by_cases there : origin = setup.origin e.call
      · rw [there, Function.update_self] at found
        cases found
        exact known.later
      · rw [Function.update_of_ne there] at found
        exact (locking.known _ (.inl ⟨origin, found⟩)).later
    · rcases sends_past past with earlier | now
      · exact (locking.known _ (.inr ⟨c, earlier⟩)).later
      · cases now.symm.trans saving
  · exact absurd failed served.saving

/-- The answer to a request makes a credential with new tokens. -/
theorem answered_new (locking : Locking setup file labels s)
    (served : Served file (labels ++ [e])) (taken : Step setup s e t) (event : e = .answers c token now)
    (old : Credential) :
    (old.refreshed token now).Known file (labels ++ [e]) ∧ New (labels ++ [e]) t (old.refreshed token now) := by
  subst event
  obtain ⟨given, newAccess, newRefresh⟩ := served.fresh labels c token now [] rfl
  have last : Event.answers c token now ∈ labels ++ [.answers c token now] := by simp
  have refresh : (old.refreshed token now).refreshToken = token.refreshToken := if_neg given
  refine ⟨⟨.inr ⟨c, token, now, last, rfl⟩, .inr ⟨c, token, now, last, refresh.symm⟩⟩, ?_⟩
  intro x met
  have same : t.file = s.file := file_same taken rfl
  have before : Met labels s x := by
    rcases met_before same met with before | ⟨_, sending⟩
    · exact before
    · cases sending
  obtain ⟨access, refreshing⟩ := locking.known x before
  constructor
  · intro equal
    rw [equal] at access
    exact newAccess access
  · intro equal
    rw [equal, refresh] at refreshing
    exact newRefresh refreshing

/-- While a call has the lock, others send nothing. -/
theorem New.kept (new : New labels s credential) (holding : Holding s) (taken : Step setup s e t)
    (other : c ≠ e.call) (locked : (s.phase c).locked) : New (labels ++ [e]) t credential := by
  intro x met
  rcases met_before (file_kept holding taken other locked) met with before | ⟨c', rfl⟩
  · exact new x before
  · obtain ⟨observed, all, here⟩ := sends_inv taken
    have mine := holding c locked
    cases mine.symm.trans (holding c' (by rw [here]; rfl))
    exact absurd rfl other

/-- Each step keeps what holds of the calls under the lock. -/
theorem locking_step (locking : Locking setup file labels s) (served : Served file (labels ++ [e]))
    (taken : Step setup s e t) : Locking setup file (labels ++ [e]) t where
  holding := holding_step locking.holding taken
  known credential met := known_step locking served taken met
  posted c observed credential all here := by
    by_cases other : c = e.call
    · subst other
      have work := to_locked taken (by rw [here]; rfl)
      rw [here] at work
      cases work with
      | sends event there => exact List.mem_append_right _ (List.mem_singleton.mpr event.symm)
    · rw [step_others taken other] at here
      exact List.mem_append_left _ (locking.posted c observed credential all here)
  asking c observed credential all here := by
    have locked : (t.phase c).locked := by rcases here with here | here <;> (rw [here]; rfl)
    by_cases other : c = e.call
    · subst other
      have work := to_locked taken locked
      rcases here with here | here
      · rw [here] at work
        cases work with
        | asks event there found due =>
          have same : t.file = s.file := file_same taken (by rw [event]; rfl)
          rw [same]
          exact ⟨rfl, found, due⟩
      · rw [here] at work
        cases work with
        | sends event there =>
          have same : t.file = s.file := file_same taken (by rw [event]; rfl)
          rw [same]
          exact locking.asking _ observed credential all (.inl there)
    · rw [step_others taken other] at here locked
      rw [file_kept locking.holding taken other locked]
      exact locking.asking c observed credential all here
  renewing c observed credential all here := by
    by_cases other : c = e.call
    · subst other
      have work := to_locked taken (by rw [here]; rfl)
      rw [here] at work
      cases work with
      | @answers token now _ old _ event there =>
        have same : t.file = s.file := file_same taken (by rw [event]; rfl)
        obtain ⟨stored, found, due⟩ := locking.asking _ observed old all (.inr there)
        have past := List.mem_append_left [e] (locking.posted _ observed old all there)
        rw [same]
        exact ⟨stored, ⟨old, found, due, past⟩, answered_new locking served taken event old⟩
    · rw [step_others taken other] at here
      have locked : (s.phase c).locked := by rw [here]; rfl
      obtain ⟨same, ⟨old, found, due, past⟩, known, new⟩ := locking.renewing c observed credential all here
      rw [file_kept locking.holding taken other locked]
      exact ⟨same, ⟨old, found, due, List.mem_append_left _ past⟩, known.later,
        new.kept locking.holding taken other locked⟩

end HermesHey.Credentials
