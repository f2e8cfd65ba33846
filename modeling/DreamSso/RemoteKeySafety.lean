import DreamSso.RemoteKeySets

/-!
What the remote key sets keep through overlapping resolutions: where the document of a
returned key came from, one fetch in flight for each client's endpoint, and how far
apart fetches for an unknown kid are when they succeed.
-/
namespace DreamSso.RemoteKeys

open Transitions

variable {ι Doc K H : Type}

abbrev Fetches (Doc : Type) := ℕ → Option (Fetch Doc)

/-- The fetch of a key's set that brought a document at a time. -/
def Brought (fetches : Fetches Doc) (key : CacheKey) (n : ℕ) (d : Doc) (completed : ℤ) : Prop :=
  ∃ f, fetches n = some f ∧ f.cacheKey = key ∧ f.settled = some (.succeeded d completed)

def PhaseSound (select : Doc → H → Selection K) (fetches : Fetches Doc) (request : Request H) :
    Phase Doc K → Prop
  | .waiting n _ => ∃ f, fetches n = some f ∧ f.cacheKey = request.cacheKey
  | .matching d source checked _ => ∃ completed,
      Brought fetches request.cacheKey source d completed ∧ checked < completed + FRESH_MS
  | .returned d source checked k => select d request.header = .key k ∧ ∃ completed,
      Brought fetches request.cacheKey source d completed ∧ checked < completed + FRESH_MS
  | _ => True

/-- What a set records is what its fetches did. -/
structure SetSound (fetches : Fetches Doc) (clock : ℤ) (key : CacheKey) (set : RemoteSet Doc) :
    Prop where
  pending : ∀ n, set.pending = some n → ∃ f, fetches n = some f ∧ f.cacheKey = key
  running : ∀ n f, fetches n = some f → f.cacheKey = key → f.settled = none →
    set.pending = some n
  document : ∀ d n, set.document = some (d, n) → ∃ completed,
    Brought fetches key n d completed ∧ set.fetchedAt = some completed
  stored : ∀ n d completed, Brought fetches key n d completed → set.document.isSome = true ∧
    ∃ last, set.fetchedAt = some last ∧ completed ≤ last ∧ last ≤ clock
  /-- A later fetch was issued when all before it had settled, and for an unknown kid
  only when the last success was old enough. -/
  ordered : ∀ m n f g, m < n → fetches m = some f → fetches n = some g →
    f.cacheKey = key → g.cacheKey = key → f.settled ≠ none ∧
      ∀ d completed, f.settled = some (.succeeded d completed) → g.cause = .unknownKid →
        completed + COOLDOWN_MS ≤ g.issuedAt

structure Sound (requests : ι → Request H) (select : Doc → H → Selection K)
    (s : State ι Doc K) : Prop where
  numbered : ∀ n f, s.fetches n = some f → n < s.next
  timed : ∀ n f, s.fetches n = some f → f.issuedAt ≤ s.clock ∧
    ∀ d completed, f.settled = some (.succeeded d completed) → f.issuedAt ≤ completed
  sets : ∀ key, SetSound s.fetches s.clock key (s.sets key)
  phases : ∀ i, PhaseSound select s.fetches (requests i) (s.phases i)

/-- Fetches keep what is known of them. -/
def Grows (fetches fetches' : Fetches Doc) : Prop :=
  ∀ n f, fetches n = some f → ∃ f', fetches' n = some f' ∧ f'.cacheKey = f.cacheKey ∧
    ∀ outcome, f.settled = some outcome → f'.settled = some outcome

theorem Grows.refl (fetches : Fetches Doc) : Grows fetches fetches :=
  fun _ f h => ⟨f, h, rfl, fun _ h => h⟩

theorem Grows.trans {a b c : Fetches Doc} (h : Grows a b) (h' : Grows b c) : Grows a c := by
  intro n f hf
  obtain ⟨g, hg, hkey, hsettled⟩ := h n f hf
  obtain ⟨g', hg', hkey', hsettled'⟩ := h' n g hg
  exact ⟨g', hg', hkey'.trans hkey, fun o ho => hsettled' o (hsettled o ho)⟩

theorem Brought.grows {a b : Fetches Doc} (hgrows : Grows a b) {key : CacheKey} {n : ℕ} {d : Doc}
    {completed : ℤ} (h : Brought a key n d completed) : Brought b key n d completed := by
  obtain ⟨f, hf, hkey, hsettled⟩ := h
  obtain ⟨f', hf', hkey', hsettled'⟩ := hgrows n f hf
  exact ⟨f', hf', hkey'.trans hkey, hsettled' _ hsettled⟩

theorem PhaseSound.grows {a b : Fetches Doc} (hgrows : Grows a b)
    {select : Doc → H → Selection K} {request : Request H} {phase : Phase Doc K}
    (h : PhaseSound select a request phase) : PhaseSound select b request phase := by
  cases phase with
  | idle => trivial
  | waiting n again =>
    obtain ⟨f, hf, hkey⟩ := h
    obtain ⟨f', hf', hkey', -⟩ := hgrows n f hf
    exact ⟨f', hf', hkey'.trans hkey⟩
  | matching d source checked again =>
    obtain ⟨completed, hbrought, hfresh⟩ := h
    exact ⟨completed, hbrought.grows hgrows, hfresh⟩
  | returned d source checked k =>
    obtain ⟨hselect, completed, hbrought, hfresh⟩ := h
    exact ⟨hselect, completed, hbrought.grows hgrows, hfresh⟩
  | failed => trivial

/-- A set is as sound as before when nothing happened to its fetches. -/
theorem SetSound.other {a b : Fetches Doc} {clock : ℤ} {key : CacheKey} {set : RemoteSet Doc}
    (h : SetSound a clock key set)
    (hsame : ∀ n f, f.cacheKey = key → (b n = some f ↔ a n = some f)) :
    SetSound b clock key set := by
  have hbrought : ∀ {n d completed}, Brought b key n d completed ↔ Brought a key n d completed := by
    intro n d completed
    constructor
    · rintro ⟨f, hf, hkey, hsettled⟩
      exact ⟨f, (hsame n f hkey).mp hf, hkey, hsettled⟩
    · rintro ⟨f, hf, hkey, hsettled⟩
      exact ⟨f, (hsame n f hkey).mpr hf, hkey, hsettled⟩
  refine ⟨fun n hn => ?_, fun n f hf hkey => h.running n f ((hsame n f hkey).mp hf) hkey,
    fun d n hd => ?_, fun n d completed hb => h.stored n d completed (hbrought.mp hb), ?_⟩
  · obtain ⟨f, hf, hkey⟩ := h.pending n hn
    exact ⟨f, (hsame n f hkey).mpr hf, hkey⟩
  · obtain ⟨completed, hb, hlast⟩ := h.document d n hd
    exact ⟨completed, hbrought.mpr hb, hlast⟩
  · intro m n f g hlt hf hg hfkey hgkey
    exact h.ordered m n f g hlt ((hsame m f hfkey).mp hf) ((hsame n g hgkey).mp hg) hfkey hgkey

/-- A new fetch has a number of its own, so the others are as they were. -/
theorem update_some_iff {fetches : Fetches Doc} {m : ℕ} {g : Fetch Doc} {n : ℕ} {f : Fetch Doc} :
    Function.update fetches m (some g) n = some f ↔ n = m ∧ f = g ∨ n ≠ m ∧ fetches n = some f := by
  by_cases hn : n = m
  · subst hn
    simp [eq_comm]
  · simp [hn]

/-- Nothing runs for a set without a promise. -/
theorem SetSound.settled {fetches : Fetches Doc} {clock : ℤ} {key : CacheKey}
    {set : RemoteSet Doc} (h : SetSound fetches clock key set) (hnone : set.pending = none) {n : ℕ}
    {f : Fetch Doc} (hf : fetches n = some f) (hkey : f.cacheKey = key) : f.settled ≠ none := by
  intro hrunning
  rw [h.running n f hf hkey hrunning] at hnone
  cases hnone

/-- A fetch in flight is the last of its set. -/
theorem SetSound.last {fetches : Fetches Doc} {clock : ℤ} {key : CacheKey} {set : RemoteSet Doc}
    (h : SetSound fetches clock key set) {n m : ℕ} {f g : Fetch Doc} (hf : fetches n = some f)
    (hfkey : f.cacheKey = key) (hrunning : f.settled = none) (hg : fetches m = some g)
    (hgkey : g.cacheKey = key) : m ≤ n := by
  by_contra hlater
  exact (h.ordered n m f g (not_le.mp hlater) hf hg hfkey hgkey).1 hrunning

theorem SetSound.settle {fetches : Fetches Doc} {clock : ℤ} {set set' : RemoteSet Doc} {n : ℕ}
    {f : Fetch Doc} (h : SetSound fetches clock f.cacheKey set) (hf : fetches n = some f)
    (hrunning : f.settled = none) (outcome : Settled Doc) (hpending : set'.pending = set.pending)
    (hdocument : ∀ d m, set'.document = some (d, m) → ∃ completed,
      Brought (Function.update fetches n (some { f with settled := some outcome })) f.cacheKey m d
        completed ∧ set'.fetchedAt = some completed)
    (hstored : ∀ m d completed,
      Brought (Function.update fetches n (some { f with settled := some outcome })) f.cacheKey m d
        completed → set'.document.isSome = true ∧
          ∃ last, set'.fetchedAt = some last ∧ completed ≤ last ∧ last ≤ clock) :
    SetSound (Function.update fetches n (some { f with settled := some outcome })) clock
      f.cacheKey set' := by
  refine ⟨fun m hm => ?_, fun m g hg hkey hnone => ?_, hdocument, hstored, ?_⟩
  · rw [hpending] at hm
    obtain ⟨g, hg, hkey⟩ := h.pending m hm
    by_cases hmn : m = n
    · exact ⟨_, update_some_iff.mpr (.inl ⟨hmn, rfl⟩), rfl⟩
    · exact ⟨g, update_some_iff.mpr (.inr ⟨hmn, hg⟩), hkey⟩
  · rcases update_some_iff.mp hg with ⟨-, rfl⟩ | ⟨-, hold⟩
    · cases hnone
    · rw [hpending]
      exact h.running m g hold hkey hnone
  · intro m m' g g' hlt hg hg' hgkey hgkey'
    rcases update_some_iff.mp hg with ⟨rfl, rfl⟩ | ⟨-, hold⟩
    · -- the fetch that settles is the last one
      rcases update_some_iff.mp hg' with ⟨rfl, -⟩ | ⟨-, hold'⟩
      · omega
      · have := h.last hf rfl hrunning hold' hgkey'
        omega
    · rcases update_some_iff.mp hg' with ⟨rfl, rfl⟩ | ⟨-, hold'⟩
      · exact h.ordered m m' g f hlt hold hf hgkey rfl
      · exact h.ordered m m' g g' hlt hold hold' hgkey hgkey'

theorem update_other {fetches : Fetches Doc} {n m : ℕ} {f f' g : Fetch Doc} {key : CacheKey}
    (hf : fetches n = some f) (hsame : f'.cacheKey = f.cacheKey) (hkey : key ≠ f.cacheKey)
    (hgkey : g.cacheKey = key) :
    Function.update fetches n (some f') m = some g ↔ fetches m = some g := by
  rw [update_some_iff]
  constructor
  · rintro (⟨-, rfl⟩ | ⟨-, hold⟩)
    · exact (hkey (hgkey.symm.trans hsame)).elim
    · exact hold
  · intro hold
    refine .inr ⟨fun hm => hkey ?_, hold⟩
    subst hm
    rw [← hgkey, Option.some.inj (hf.symm.trans hold)]

theorem RemoteSet.old_of_not_ageBelow {r : RemoteSet Doc} {clock ms last : ℤ}
    (h : r.ageBelow clock ms = false) (hlast : r.fetchedAt = some last) : last + ms ≤ clock := by
  simpa [RemoteSet.ageBelow, hlast] using h

section Operations

variable {requests : ι → Request H} {select : Doc → H → Selection K} {s : State ι Doc K}

theorem Sound.tick (h : Sound requests select s) {clock : ℤ} (hlater : s.clock ≤ clock) :
    Sound requests select { s with clock := clock } := by
  refine ⟨h.numbered, fun n f hf => ?_, fun key => ?_, h.phases⟩
  · exact ⟨Int.le_trans (h.timed n f hf).1 hlater, (h.timed n f hf).2⟩
  obtain ⟨hpending, hrunning, hdocument, hstored, hordered⟩ := h.sets key
  refine ⟨hpending, hrunning, hdocument, fun n d completed hbrought => ?_, hordered⟩
  obtain ⟨hsome, last, hlast, hle, hclock⟩ := hstored n d completed hbrought
  exact ⟨hsome, last, hlast, hle, Int.le_trans hclock hlater⟩

theorem Sound.issue_grows (h : Sound requests select s) (key : CacheKey) (cause : Cause) :
    Grows s.fetches (s.issue key cause).fetches := by
  intro n f hf
  have hne : n ≠ s.next := (h.numbered n f hf).ne
  exact ⟨f, by simpa [State.issue, hne] using hf, rfl, fun _ ho => ho⟩

theorem Sound.issue (h : Sound requests select s) {key : CacheKey} {cause : Cause}
    (hnone : (s.sets key).pending = none)
    (hcool : cause = .unknownKid → (s.sets key).ageBelow s.clock COOLDOWN_MS = false) :
    Sound requests select (s.issue key cause) := by
  refine ⟨fun n f hf => ?_, fun n f hf => ?_, fun other => ?_,
    fun i => (h.phases i).grows (h.issue_grows key cause)⟩
  · rcases update_some_iff.mp hf with ⟨rfl, -⟩ | ⟨-, hold⟩
    · exact Nat.lt_succ_self _
    · exact (h.numbered n f hold).trans (Nat.lt_succ_self _)
  · rcases update_some_iff.mp hf with ⟨-, rfl⟩ | ⟨-, hold⟩
    · exact ⟨Int.le_refl _, fun d completed hsettled => by cases hsettled⟩
    · exact h.timed n f hold
  · by_cases hkey : other = key
    · subst hkey
      have hset := h.sets other
      have hbrought : ∀ {n d completed}, Brought (s.issue other cause).fetches other n d completed →
          Brought s.fetches other n d completed := by
        rintro n d completed ⟨f, hf, hfkey, hsettled⟩
        rcases update_some_iff.mp hf with ⟨-, rfl⟩ | ⟨-, hold⟩
        · cases hsettled
        · exact ⟨f, hold, hfkey, hsettled⟩
      have hsets : (s.issue other cause).sets other =
          { s.sets other with pending := some s.next } := by simp [State.issue]
      rw [hsets]
      refine ⟨?_, ?_, ?_, fun n d completed hb => hset.stored n d completed (hbrought hb), ?_⟩
      · intro n hn
        obtain rfl := Option.some.inj hn
        exact ⟨_, update_some_iff.mpr (.inl ⟨rfl, rfl⟩), rfl⟩
      · intro n f hf hfkey hrunning
        rcases update_some_iff.mp hf with ⟨rfl, -⟩ | ⟨-, hold⟩
        · rfl
        · exact (hset.settled hnone hold hfkey hrunning).elim
      · intro d n hd
        obtain ⟨completed, hb, hlast⟩ := hset.document d n hd
        exact ⟨completed, hb.grows (h.issue_grows other cause), hlast⟩
      · intro m n f g hlt hf hg hfkey hgkey
        rcases update_some_iff.mp hf with ⟨rfl, -⟩ | ⟨-, hf⟩
        · rcases update_some_iff.mp hg with ⟨rfl, -⟩ | ⟨-, hg⟩
          · omega
          · have := h.numbered n g hg
            omega
        · rcases update_some_iff.mp hg with ⟨rfl, rfl⟩ | ⟨-, hg⟩
          · refine ⟨hset.settled hnone hf hfkey, fun d completed hsettled hunknown => ?_⟩
            obtain ⟨-, last, hlast, hle, -⟩ := hset.stored m d completed ⟨f, hf, hfkey, hsettled⟩
            have := RemoteSet.old_of_not_ageBelow (hcool hunknown) hlast
            change completed + COOLDOWN_MS ≤ s.clock
            omega
          · exact hset.ordered m n f g hlt hf hg hfkey hgkey
    · have hset : (s.issue key cause).sets other = s.sets other := by simp [State.issue, hkey]
      rw [hset]
      refine (h.sets other).other fun n f hfkey => ?_
      change Function.update s.fetches s.next _ n = some f ↔ _
      rw [update_some_iff]
      constructor
      · rintro (⟨-, rfl⟩ | ⟨-, hold⟩)
        · exact (hkey hfkey.symm).elim
        · exact hold
      · intro hold
        exact .inr ⟨(h.numbered n f hold).ne, hold⟩

theorem State.reload_cases (s : State ι Doc K) (key : CacheKey) (cause : Cause) :
    (∃ n, (s.sets key).pending = some n ∧ s.reload key cause = (n, s)) ∨
      ((s.sets key).pending = none ∧ s.reload key cause = (s.next, s.issue key cause)) := by
  unfold State.reload
  cases (s.sets key).pending with
  | some n => exact .inl ⟨n, rfl, rfl⟩
  | none => exact .inr ⟨rfl, rfl⟩

theorem Sound.settle_grows {n : ℕ} {f : Fetch Doc} (hf : s.fetches n = some f)
    (hrunning : f.settled = none) (outcome : Settled Doc) :
    Grows s.fetches (s.settle n f outcome).fetches := by
  intro m g hg
  by_cases hm : m = n
  · subst hm
    obtain rfl := Option.some.inj (hf.symm.trans hg)
    exact ⟨_, update_some_iff.mpr (.inl ⟨rfl, rfl⟩), rfl, by simp [hrunning]⟩
  · exact ⟨g, update_some_iff.mpr (.inr ⟨hm, hg⟩), rfl, fun _ ho => ho⟩

theorem Sound.fail (h : Sound requests select s) {n : ℕ} {f : Fetch Doc}
    (hf : s.fetches n = some f) (hrunning : f.settled = none) :
    Sound requests select (s.settle n f .failed) := by
  have hgrows := Sound.settle_grows hf hrunning .failed
  refine ⟨fun m g hg => ?_, fun m g hg => ?_, fun key => ?_, fun i => (h.phases i).grows hgrows⟩
  · rcases update_some_iff.mp hg with ⟨rfl, -⟩ | ⟨-, hold⟩
    · exact h.numbered m f hf
    · exact h.numbered m g hold
  · rcases update_some_iff.mp hg with ⟨-, rfl⟩ | ⟨-, hold⟩
    · refine ⟨(h.timed n f hf).1, fun d completed hsettled => ?_⟩
      cases hsettled
    · exact h.timed m g hold
  · by_cases hkey : key = f.cacheKey
    · subst hkey
      refine (h.sets f.cacheKey).settle hf hrunning .failed rfl ?_ ?_
      · intro d m hd
        obtain ⟨completed, hb, hlast⟩ := (h.sets f.cacheKey).document d m hd
        exact ⟨completed, hb.grows hgrows, hlast⟩
      · rintro m d completed ⟨g, hg, hgkey, hsettled⟩
        rcases update_some_iff.mp hg with ⟨-, rfl⟩ | ⟨-, hold⟩
        · cases hsettled
        · exact (h.sets f.cacheKey).stored m d completed ⟨g, hold, hgkey, hsettled⟩
    · exact (h.sets key).other fun m g hgkey => update_other hf rfl hkey hgkey

theorem Sound.succeed (h : Sound requests select s) {n : ℕ} {f : Fetch Doc}
    (hf : s.fetches n = some f) (hrunning : f.settled = none) (d : Doc) :
    Sound requests select ((s.store n f d).settle n f (.succeeded d s.clock)) := by
  have hgrows := Sound.settle_grows hf hrunning (.succeeded d s.clock)
  have hbrought : Brought (s.settle n f (.succeeded d s.clock)).fetches f.cacheKey n d s.clock :=
    ⟨_, update_some_iff.mpr (.inl ⟨rfl, rfl⟩), rfl, rfl⟩
  refine ⟨fun m g hg => ?_, fun m g hg => ?_, fun key => ?_, fun i => (h.phases i).grows hgrows⟩
  · rcases update_some_iff.mp hg with ⟨rfl, -⟩ | ⟨-, hold⟩
    · exact h.numbered m f hf
    · exact h.numbered m g hold
  · rcases update_some_iff.mp hg with ⟨-, rfl⟩ | ⟨-, hold⟩
    · refine ⟨(h.timed n f hf).1, fun d completed hsettled => ?_⟩
      cases hsettled
      exact (h.timed n f hf).1
    · exact h.timed m g hold
  · by_cases hkey : key = f.cacheKey
    · subst hkey
      have hset : ((s.store n f d).settle n f (.succeeded d s.clock)).sets f.cacheKey =
          { s.sets f.cacheKey with document := some (d, n), fetchedAt := some s.clock } := by
        simp [State.settle, State.store]
      rw [hset]
      refine (h.sets f.cacheKey).settle hf hrunning (.succeeded d s.clock) rfl ?_ ?_
      · intro d' m hd
        obtain ⟨rfl, rfl⟩ := Prod.mk.inj (Option.some.inj hd)
        exact ⟨s.clock, hbrought, rfl⟩
      · rintro m d' completed ⟨g, hg, hgkey, hsettled⟩
        refine ⟨rfl, s.clock, rfl, ?_, Int.le_refl _⟩
        rcases update_some_iff.mp hg with ⟨-, rfl⟩ | ⟨-, hold⟩
        · cases hsettled
          exact Int.le_refl _
        · obtain ⟨-, last, -, hle, hclock⟩ :=
            (h.sets f.cacheKey).stored m d' completed ⟨g, hold, hgkey, hsettled⟩
          exact Int.le_trans hle hclock
    · have hset : ((s.store n f d).settle n f (.succeeded d s.clock)).sets key = s.sets key := by
        simp [State.settle, State.store, hkey]
      rw [hset]
      exact (h.sets key).other fun m g hgkey => update_other hf rfl hkey hgkey

theorem Sound.clear (h : Sound requests select s) {key : CacheKey} {n : ℕ}
    (hpending : (s.sets key).pending = some n)
    (hsettled : (s.fetches n).any (fun f => f.settled.isSome) = true) :
    Sound requests select (s.clear key) := by
  refine ⟨h.numbered, h.timed, fun other => ?_, h.phases⟩
  by_cases hkey : other = key
  · subst hkey
    obtain ⟨-, hrunning, hdocument, hstored, hordered⟩ := h.sets other
    have hset : (s.clear other).sets other = { s.sets other with pending := none } := by
      simp [State.clear]
    rw [hset]
    refine ⟨by simp, fun m f hf hfkey hnone => ?_, hdocument, hstored, hordered⟩
    -- what runs is what was promised, and that has settled
    have hm := hrunning m f hf hfkey hnone
    rw [hpending] at hm
    obtain rfl := Option.some.inj hm
    change s.fetches n = some f at hf
    simp [hf, hnone] at hsettled
  · have hset : (s.clear key).sets other = s.sets other := by simp [State.clear, hkey]
    rw [hset]
    exact h.sets other

/-- Of one set at most one fetch runs. -/
theorem Sound.one_running (h : Sound requests select s) {m n : ℕ} {f g : Fetch Doc}
    (hf : s.fetches m = some f) (hg : s.fetches n = some g) (hrunning : f.settled = none)
    (hrunning' : g.settled = none) (hkey : f.cacheKey = g.cacheKey) : m = n := by
  have hm := (h.sets g.cacheKey).running m f hf hkey hrunning
  have hn := (h.sets g.cacheKey).running n g hg rfl hrunning'
  rw [hm] at hn
  exact Option.some.inj hn

variable [DecidableEq ι]

theorem Sound.initial (h : (resolutions requests select).initial s) : Sound requests select s := by
  obtain ⟨hsets, hfetches, hphases⟩ := h
  refine ⟨fun n f hf => ?_, fun n f hf => ?_, fun key => ⟨?_, ?_, ?_, ?_, ?_⟩, fun i => ?_⟩
  · simp [hfetches] at hf
  · simp [hfetches] at hf
  · simp [hsets]
  · simp [hfetches]
  · simp [hsets]
  · rintro n d completed ⟨f, hf, -⟩
    simp [hfetches] at hf
  · intro m n f g _ hf
    simp [hfetches] at hf
  · rw [hphases]
    trivial

theorem Sound.goes (h : Sound requests select s) {i : ι} {phase : Phase Doc K}
    (hphase : PhaseSound select s.fetches (requests i) phase) :
    Sound requests select (s.goes i phase) := by
  refine ⟨h.numbered, h.timed, fun key => ?_, fun j => ?_⟩
  · obtain ⟨hpending, hrunning, hdocument, hstored, hordered⟩ := h.sets key
    exact ⟨hpending, hrunning, hdocument, hstored, hordered⟩
  · by_cases hj : j = i
    · subst hj
      simpa [State.goes] using hphase
    · simpa [State.goes, hj] using h.phases j

/-- Awaiting a fetch is awaiting one of the same set. -/
theorem Sound.awaits (h : Sound requests select s) {i : ι} {cause : Cause} {again : Bool}
    (hcool : cause = .unknownKid →
      (s.sets (requests i).cacheKey).ageBelow s.clock COOLDOWN_MS = false) :
    Sound requests select (s.awaits i (requests i).cacheKey cause again) := by
  unfold State.awaits
  rcases s.reload_cases (requests i).cacheKey cause with ⟨n, hpending, hreload⟩ | ⟨hnone, hreload⟩
  · rw [hreload]
    exact h.goes ((h.sets _).pending n hpending)
  · rw [hreload]
    exact (h.issue hnone hcool).goes ⟨_, update_some_iff.mpr (.inl ⟨rfl, rfl⟩), rfl⟩

theorem Sound.awaits_grows (h : Sound requests select s) (i : ι) (key : CacheKey) (cause : Cause)
    (again : Bool) : Grows s.fetches (s.awaits i key cause again).fetches := by
  unfold State.awaits
  rcases s.reload_cases key cause with ⟨n, -, hreload⟩ | ⟨-, hreload⟩
  · rw [hreload]
    exact Grows.refl _
  · rw [hreload]
    exact h.issue_grows key cause

theorem Sound.resolve (h : Sound requests select s) (i : ι) :
    Sound requests select (s.resolve requests i) := by
  have hawaits : Sound requests select (s.awaits i (requests i).cacheKey .refresh false) :=
    h.awaits fun hunknown => by cases hunknown
  unfold State.resolve
  dsimp only
  split
  · rename_i d source hdocument
    split
    · rename_i hfresh
      obtain ⟨completed, hbrought, hlast⟩ := (h.sets _).document d source hdocument
      have hmatching : PhaseSound select s.fetches (requests i)
          (.matching d source s.clock false) := by
        refine ⟨completed, hbrought, ?_⟩
        simpa [RemoteSet.ageBelow, hlast] using hfresh
      exact h.goes hmatching
    · exact hawaits
  · exact hawaits

theorem Sound.resume (h : Sound requests select s) {i : ι} {n : ℕ} {again : Bool}
    (hphase : s.phases i = .waiting n again) {t : State ι Doc K}
    (hstep : s.resume requests i n again = some t) : Sound requests select t := by
  unfold State.resume at hstep
  simp only at hstep
  split at hstep
  · cases hstep
  obtain ⟨f, hf, hkey⟩ : ∃ f, s.fetches n = some f ∧ f.cacheKey = (requests i).cacheKey := by
    have := h.phases i
    rwa [hphase] at this
  rw [hf] at hstep
  cases hsettled : f.settled with
  | none => simp [hsettled] at hstep
  | some outcome =>
    cases outcome with
    | failed =>
      simp only [Option.bind_some, hsettled] at hstep
      obtain rfl := Option.some.inj hstep
      exact h.goes trivial
    | succeeded d' completed =>
      simp only [Option.bind_some, hsettled, Option.map_eq_some_iff] at hstep
      obtain ⟨⟨d, source⟩, hdocument, rfl⟩ := hstep
      obtain ⟨at_, hbrought, hlast⟩ := (h.sets _).document d source hdocument
      -- the document is at least as new as the one that was awaited
      obtain ⟨-, last, hlast', hle, -⟩ :=
        (h.sets _).stored n d' completed ⟨f, hf, hkey, hsettled⟩
      rw [hlast] at hlast'
      obtain rfl := Option.some.inj hlast'
      have hmatching : PhaseSound select s.fetches (requests i)
          (.matching d source completed again) := by
        refine ⟨at_, hbrought, ?_⟩
        unfold FRESH_MS
        omega
      exact h.goes hmatching

theorem Sound.selected (h : Sound requests select s) {i : ι} {d : Doc} {source : ℕ} {checked : ℤ}
    {again : Bool} (hphase : s.phases i = .matching d source checked again) :
    Sound requests select (s.selected requests select i d source checked again) := by
  have hmatching := h.phases i
  rw [hphase] at hmatching
  unfold State.selected
  cases hselect : select d (requests i).header with
  | key k =>
    have hreturned : PhaseSound select s.fetches (requests i) (.returned d source checked k) :=
      ⟨hselect, hmatching⟩
    exact h.goes hreturned
  | failed => exact h.goes trivial
  | noMatchingKey =>
    dsimp only
    split
    · exact h.goes trivial
    · rename_i hcool
      refine h.awaits fun _ => ?_
      simp only [Bool.or_eq_true, not_or, Bool.not_eq_true] at hcool
      exact hcool.2

theorem Sound.resolve_grows (h : Sound requests select s) (i : ι) :
    Grows s.fetches (s.resolve requests i).fetches := by
  unfold State.resolve
  dsimp only
  split
  · split
    · exact Grows.refl _
    · exact h.awaits_grows i _ _ _
  · exact h.awaits_grows i _ _ _

theorem State.resume_grows {i : ι} {n : ℕ} {again : Bool} {t : State ι Doc K}
    (hstep : s.resume requests i n again = some t) : Grows s.fetches t.fetches := by
  have hsame : t.fetches = s.fetches := by
    unfold State.resume at hstep
    dsimp only at hstep
    split at hstep
    · cases hstep
    split at hstep
    · obtain ⟨⟨d, source⟩, -, rfl⟩ := Option.map_eq_some_iff.mp hstep
      rfl
    · obtain rfl := Option.some.inj hstep
      rfl
    · cases hstep
  rw [hsame]
  exact Grows.refl _

theorem Sound.selected_grows (h : Sound requests select s) (i : ι) (d : Doc) (source : ℕ)
    (checked : ℤ) (again : Bool) :
    Grows s.fetches (s.selected requests select i d source checked again).fetches := by
  unfold State.selected
  dsimp only
  split
  · exact Grows.refl _
  · exact Grows.refl _
  · split
    · exact Grows.refl _
    · exact h.awaits_grows i _ _ _

/-- The invariant, step by step, together with what is known of the fetches. -/
theorem Sound.step (h : Sound requests select s) {l : Label ι Doc} {t : State ι Doc K}
    (hstep : s.step requests select l = some t) :
    Sound requests select t ∧ Grows s.fetches t.fetches := by
  cases l with
  | tick clock =>
    simp only [State.step, Option.ite_none_right_eq_some, Option.some.injEq] at hstep
    obtain ⟨hlater, rfl⟩ := hstep
    exact ⟨h.tick hlater, Grows.refl _⟩
  | resolve i =>
    cases hphase : s.phases i with
    | idle =>
      simp only [State.step, hphase, Option.some.injEq] at hstep
      subst hstep
      exact ⟨h.resolve i, h.resolve_grows i⟩
    | _ => simp [State.step, hphase] at hstep
  | resume i =>
    cases hphase : s.phases i with
    | waiting n again =>
      simp only [State.step, hphase] at hstep
      exact ⟨h.resume hphase hstep, State.resume_grows hstep⟩
    | _ => simp [State.step, hphase] at hstep
  | selected i =>
    cases hphase : s.phases i with
    | matching d source checked again =>
      simp only [State.step, hphase, Option.some.injEq] at hstep
      subst hstep
      exact ⟨h.selected hphase, h.selected_grows i d source checked again⟩
    | _ => simp [State.step, hphase] at hstep
  | succeed n d =>
    simp only [State.step, Option.bind_eq_some_iff, Option.ite_none_right_eq_some,
      Option.some.injEq] at hstep
    obtain ⟨f, hf, hrunning, rfl⟩ := hstep
    exact ⟨h.succeed hf hrunning d, Sound.settle_grows hf hrunning _⟩
  | fail n =>
    simp only [State.step, Option.bind_eq_some_iff, Option.ite_none_right_eq_some,
      Option.some.injEq] at hstep
    obtain ⟨f, hf, hrunning, rfl⟩ := hstep
    exact ⟨h.fail hf hrunning, Sound.settle_grows hf hrunning _⟩
  | clear key =>
    simp only [State.step, Option.bind_eq_some_iff, Option.ite_none_right_eq_some,
      Option.some.injEq] at hstep
    obtain ⟨n, hpending, hsettled, rfl⟩ := hstep
    exact ⟨h.clear hpending hsettled, Grows.refl _⟩

/-- A resolution that begins with an expired set awaits a fetch. -/
theorem State.resolve_expired {i : ι}
    (hexpired : (s.sets (requests i).cacheKey).ageBelow s.clock FRESH_MS = false) :
    ∃ n, (s.resolve requests i).phases i = .waiting n false := by
  have hawaits : ∃ n, (s.awaits i (requests i).cacheKey .refresh false).phases i =
      .waiting n false := ⟨_, Function.update_self ..⟩
  unfold State.resolve
  dsimp only
  split
  · rw [if_neg (by simp [hexpired])]
    exact hawaits
  · exact hawaits

theorem State.phases_of_goes {i j : ι} {phase : Phase Doc K} (hj : j ≠ i) :
    (s.goes i phase).phases j = s.phases j := Function.update_of_ne hj ..

theorem State.phases_of_awaits {i j : ι} {key : CacheKey} {cause : Cause} {again : Bool}
    (hj : j ≠ i) : (s.awaits i key cause again).phases j = s.phases j := by
  unfold State.awaits
  rw [State.phases_of_goes hj]
  rcases s.reload_cases key cause with ⟨n, -, hreload⟩ | ⟨-, hreload⟩ <;> rw [hreload]
  rfl

/-- A resolution that waits goes on waiting, fails, or its fetch brought a document. -/
theorem Sound.waiting_step (h : Sound requests select s) {i : ι} {n : ℕ} {again : Bool}
    (hphase : s.phases i = .waiting n again) {l : Label ι Doc} {t : State ι Doc K}
    (hstep : s.step requests select l = some t) :
    t.phases i = .waiting n again ∨ t.phases i = .failed ∨
      ∃ d completed, Brought s.fetches (requests i).cacheKey n d completed := by
  cases l with
  | tick clock =>
    simp only [State.step, Option.ite_none_right_eq_some, Option.some.injEq] at hstep
    obtain ⟨-, rfl⟩ := hstep
    exact .inl hphase
  | resolve j =>
    have hne : i ≠ j := by
      rintro rfl
      simp [State.step, hphase] at hstep
    cases hj : s.phases j with
    | idle =>
      simp only [State.step, hj, Option.some.injEq] at hstep
      subst hstep
      refine .inl (Eq.trans ?_ hphase)
      unfold State.resolve
      dsimp only
      split
      · split
        · exact State.phases_of_goes hne
        · exact State.phases_of_awaits hne
      · exact State.phases_of_awaits hne
    | _ => simp [State.step, hj] at hstep
  | resume j =>
    by_cases hj : i = j
    · subst hj
      simp only [State.step, hphase] at hstep
      obtain ⟨f, hf, hkey⟩ : ∃ f, s.fetches n = some f ∧ f.cacheKey = (requests i).cacheKey := by
        have := h.phases i
        rwa [hphase] at this
      unfold State.resume at hstep
      dsimp only at hstep
      split at hstep
      · cases hstep
      cases hsettled : f.settled with
      | none => simp [hf, hsettled] at hstep
      | some outcome =>
        cases outcome with
        | succeeded d completed => exact .inr (.inr ⟨d, completed, f, hf, hkey, hsettled⟩)
        | failed =>
          simp only [hf, Option.bind_some, hsettled, Option.some.injEq] at hstep
          subst hstep
          exact .inr (.inl (Function.update_self ..))
    · refine .inl (Eq.trans ?_ hphase)
      simp only [State.step] at hstep
      split at hstep
      · unfold State.resume at hstep
        dsimp only at hstep
        split at hstep
        · cases hstep
        split at hstep
        · obtain ⟨⟨d, source⟩, -, rfl⟩ := Option.map_eq_some_iff.mp hstep
          exact State.phases_of_goes hj
        · obtain rfl := Option.some.inj hstep
          exact State.phases_of_goes hj
        · cases hstep
      · cases hstep
  | selected j =>
    have hne : i ≠ j := by
      rintro rfl
      simp [State.step, hphase] at hstep
    refine .inl (Eq.trans ?_ hphase)
    simp only [State.step] at hstep
    split at hstep
    · obtain rfl := Option.some.inj hstep
      unfold State.selected
      dsimp only
      split
      · exact State.phases_of_goes hne
      · exact State.phases_of_goes hne
      · split
        · exact State.phases_of_goes hne
        · exact State.phases_of_awaits hne
    · cases hstep
  | succeed m d =>
    simp only [State.step, Option.bind_eq_some_iff, Option.ite_none_right_eq_some,
      Option.some.injEq] at hstep
    obtain ⟨f, -, -, rfl⟩ := hstep
    exact .inl hphase
  | fail m =>
    simp only [State.step, Option.bind_eq_some_iff, Option.ite_none_right_eq_some,
      Option.some.injEq] at hstep
    obtain ⟨f, -, -, rfl⟩ := hstep
    exact .inl hphase
  | clear key =>
    simp only [State.step, Option.bind_eq_some_iff, Option.ite_none_right_eq_some,
      Option.some.injEq] at hstep
    obtain ⟨m, -, -, rfl⟩ := hstep
    exact .inl hphase

theorem Sound.along (hinit : (resolutions requests select).initial s)
    {trace : List (Event (State ι Doc K) (Label ι Doc))} {t : State ι Doc K}
    (run : Exec (resolutions requests select) s trace t) : Sound requests select t :=
  run.preserves (fun _ _ _ h hstep => (h.step hstep).1) (Sound.initial hinit)

/-- What fetches did before, they have done at the end. -/
theorem Sound.grows_along (h : Sound requests select s)
    {trace : List (Event (State ι Doc K) (Label ι Doc))} {t : State ι Doc K}
    (run : Exec (resolutions requests select) s trace t) : Grows s.fetches t.fetches :=
  run.relates (R := fun s t : State ι Doc K => Grows s.fetches t.fetches)
    (fun _ _ _ h hstep => (h.step hstep).1) (fun _ => Grows.refl _)
    (fun _ _ _ h h' => h.trans h') (fun _ _ _ h hstep => (h.step hstep).2) h

end Operations

section Guarantees

/-- Whatever resolutions overlap and however fetches end: a key comes from a document
whose fetch completed less than 600 s before the freshness check; an expired set is
fetched, and a failed fetch fails those who await it; for each client's endpoint one fetch
is in flight; and a fetch for an unknown kid is issued 30 s after the last that succeeded. -/
theorem remote_keys [DecidableEq ι] (requests : ι → Request H) (select : Doc → H → Selection K)
    {start s : State ι Doc K} {trace : List (Event (State ι Doc K) (Label ι Doc))}
    (hinit : (resolutions requests select).initial start)
    (run : Exec (resolutions requests select) start trace s) :
    (∀ e ∈ trace, ∀ i d source checked k, e.after.phases i = .returned d source checked k →
      select d (requests i).header = .key k ∧ ∃ completed,
        Brought s.fetches (requests i).cacheKey source d completed ∧
          checked < completed + 600000) ∧
    (∀ e ∈ trace, ∀ i, e.label = .resolve i →
      (e.before.sets (requests i).cacheKey).ageBelow e.before.clock 600000 = false →
      ∃ n, e.after.phases i = .waiting n false) ∧
    (∀ e ∈ trace, ∀ i n again, e.before.phases i = .waiting n again →
      e.after.phases i = .waiting n again ∨ e.after.phases i = .failed ∨
        ∃ d completed, Brought s.fetches (requests i).cacheKey n d completed) ∧
    (∀ m n f g, s.fetches m = some f → s.fetches n = some g → f.settled = none →
      g.settled = none → f.cacheKey = g.cacheKey → m = n) ∧
    ∀ m n f g d completed, m < n → s.fetches m = some f → s.fetches n = some g →
      f.cacheKey = g.cacheKey → f.settled = some (.succeeded d completed) →
      g.cause = .unknownKid →
        f.issuedAt ≤ completed ∧ completed + 30000 ≤ g.issuedAt := by
  have hlast := Sound.along hinit run
  refine ⟨fun e he i d source checked k hreturned => ?_, fun e he i hlabel hexpired => ?_,
    fun e he i n again hwaits => ?_, fun m n f g hf hg hfree hfree' hkey => ?_,
    fun m n f g d completed hlt hf hg hkey hsettled hunknown => ?_⟩
  · obtain ⟨first, second, -, hfirst, hstep, hsecond⟩ := run.split he
    have hafter := ((Sound.along hinit hfirst).step hstep).1
    have hphase := hafter.phases i
    rw [hreturned] at hphase
    obtain ⟨hselect, completed, hbrought, hfresh⟩ := hphase
    exact ⟨hselect, completed, hbrought.grows (hafter.grows_along hsecond), hfresh⟩
  · obtain ⟨first, second, -, -, hstep, -⟩ := run.split he
    rw [hlabel] at hstep
    change e.before.step requests select (.resolve i) = some e.after at hstep
    cases hidle : e.before.phases i with
    | idle =>
      simp only [State.step, hidle, Option.some.injEq] at hstep
      rw [← hstep]
      exact State.resolve_expired hexpired
    | _ => simp [State.step, hidle] at hstep
  · obtain ⟨first, second, -, hfirst, hstep, hsecond⟩ := run.split he
    have hbefore := Sound.along hinit hfirst
    have hgrows := (hbefore.step hstep).2.trans ((hbefore.step hstep).1.grows_along hsecond)
    rcases hbefore.waiting_step hwaits hstep with hstill | hfailed | ⟨d, completed, hbrought⟩
    · exact .inl hstill
    · exact .inr (.inl hfailed)
    · exact .inr (.inr ⟨d, completed, hbrought.grows hgrows⟩)
  · exact hlast.one_running hf hg hfree hfree' hkey
  · refine ⟨(hlast.timed m f hf).2 d completed hsettled, ?_⟩
    exact ((hlast.sets g.cacheKey).ordered m n f g hlt hf hg hkey rfl).2 d completed hsettled
      hunknown

end Guarantees

section Examples

open JsStrings

/-- Two clients name one endpoint. Resolutions 0 and 1 carry a kid that no document
has, 2 is the other client's. -/
def twoClients (i : Fin 3) : Request Bool :=
  ⟨⟨if i = 2 then js "b" else js "a", js "https://keys.example/jwks"⟩, decide (i = 2)⟩

def oneKey (_ : Unit) (known : Bool) : Selection Unit :=
  if known then .key () else .noMatchingKey

def noFetches : State (Fin 3) Unit Unit :=
  ⟨0, fun _ => ⟨none, none, none⟩, fun _ => none, 0, fun _ => .idle⟩

/-- The refresh for the first unknown kid fails; the next unknown kid comes at once. -/
def failedRefresh : List (Label (Fin 3) Unit) :=
  [.resolve 0, .succeed 0 (), .clear (twoClients 0).cacheKey, .resume 0, .tick 30000, .selected 0,
    .fail 1, .clear (twoClients 0).cacheKey, .resume 0, .resolve 1, .selected 1, .resolve 2]

/-- Two fetches of one set for an unknown kid at one time, while the set is fresh, and one
endpoint fetched twice at once, for two clients. -/
theorem two_refreshes_at_once :
    ∃ start trace s, (resolutions twoClients oneKey).initial start ∧
      Exec (resolutions twoClients oneKey) start trace s ∧
      (s.sets (twoClients 0).cacheKey).ageBelow s.clock 600000 = true ∧
      s.fetches 1 = some ⟨(twoClients 0).cacheKey, .unknownKid, 30000, some .failed⟩ ∧
      s.fetches 2 = some ⟨(twoClients 0).cacheKey, .unknownKid, 30000, none⟩ ∧
      s.fetches 3 = some ⟨(twoClients 2).cacheKey, .refresh, 30000, none⟩ ∧
      (twoClients 2).cacheKey.jwksUri = (twoClients 0).cacheKey.jwksUri := by
  have hruns : (failedRefresh.foldlM (State.step twoClients oneKey) noFetches).any (fun s =>
      (s.sets (twoClients 0).cacheKey).ageBelow s.clock 600000 &&
      decide (s.fetches 1 = some ⟨(twoClients 0).cacheKey, .unknownKid, 30000, some .failed⟩) &&
      decide (s.fetches 2 = some ⟨(twoClients 0).cacheKey, .unknownKid, 30000, none⟩) &&
      decide (s.fetches 3 = some ⟨(twoClients 2).cacheKey, .refresh, 30000, none⟩)) = true := by
    decide +kernel
  obtain ⟨s, hs, hall⟩ := (Option.any_eq_true ..).mp hruns
  simp only [Bool.and_eq_true, decide_eq_true_eq] at hall
  obtain ⟨⟨⟨hfresh, hfirst⟩, hsecond⟩, hother⟩ := hall
  obtain ⟨trace, run⟩ := exec_of_foldlM (T := resolutions twoClients oneKey)
    (fun _ _ _ h => h) failedRefresh hs
  exact ⟨noFetches, trace, s, ⟨fun _ => rfl, fun _ => rfl, fun _ => rfl⟩, run, hfresh, hfirst,
    hsecond, hother, rfl⟩

/-- The rules at work in the same run: the second refresh comes 30 s after the document. -/
theorem remote_keys_failed_refresh :
    ∃ start trace s, (resolutions twoClients oneKey).initial start ∧
      Exec (resolutions twoClients oneKey) start trace s ∧
      (s.fetches 0).any (fun f => decide (f.settled = some (.succeeded () 0))) = true ∧
      (s.fetches 2).any (fun g => decide (g.cause = .unknownKid ∧ 0 + 30000 ≤ g.issuedAt)) =
        true := by
  have hruns : (failedRefresh.foldlM (State.step twoClients oneKey) noFetches).any (fun s =>
      decide (s.fetches 0 =
        some ⟨(twoClients 0).cacheKey, .refresh, 0, some (.succeeded () 0)⟩) &&
      decide (s.fetches 2 = some ⟨(twoClients 0).cacheKey, .unknownKid, 30000, none⟩)) = true := by
    decide +kernel
  obtain ⟨s, hs, hall⟩ := (Option.any_eq_true ..).mp hruns
  simp only [Bool.and_eq_true, decide_eq_true_eq] at hall
  obtain ⟨hfirst, hsecond⟩ := hall
  obtain ⟨trace, run⟩ := exec_of_foldlM (T := resolutions twoClients oneKey)
    (fun _ _ _ h => h) failedRefresh hs
  have hinit : (resolutions twoClients oneKey).initial noFetches :=
    ⟨fun _ => rfl, fun _ => rfl, fun _ => rfl⟩
  obtain ⟨-, -, -, -, hapart⟩ := remote_keys twoClients oneKey hinit run
  have hspaced := (hapart 0 2 _ _ () 0 (by decide) hfirst hsecond rfl rfl rfl).2
  refine ⟨noFetches, trace, s, hinit, run, ?_, ?_⟩
  · rw [hfirst]
    rfl
  · rw [hsecond]
    simp only [Option.any_some, decide_eq_true_eq]
    exact ⟨trivial, hspaced⟩

end Examples

end DreamSso.RemoteKeys
