import DreamSso.ResetTokens
import Mathlib.Data.Set.Card

/-!
Any number of concurrent requests on the reset tokens of one user. In every run
in which nobody reads a token or the pointer while another request that has read
one may still use it, and in which a failed attempt is written back only while
its token is there, every token is worth five failed challenges and one password,
at most one token is live, and a token that is gone stays away.
-/
namespace DreamSso

open ExpiringStore Interleaving JsStrings KeyedTables Transitions

section Facts

variable {ι : Type} [DecidableEq ι] (P : Primitives) (sub : Uuid) (calls : ι → ResetCall)

abbrev resetProtocolOf (i : ι) : Protocol Command Command.Reply ResetPhase :=
  resetProtocol P sub (calls i)

abbrev resetPhase (log : List (Entry ι Command Command.Reply)) (i : ι) : ResetPhase :=
  (resetProtocolOf P sub calls i).view .before i log

/-- A challenge of the request has been refused, or counted as failed. -/
def ResetPhase.failed : ResetPhase → Prop
  | .refused _ _ => True
  | .bumped => True
  | _ => False

/-- The request presented the token and failed its challenge. -/
def FailedChallenge (hash : Digest) (log : List (Entry ι Command Command.Reply)) (i : ι) : Prop :=
  (calls i).hash? P = some hash ∧
    (resetProtocolOf P sub calls i).Passed .before ResetPhase.failed i log

def ChallengesWithin (hash : Digest) (log : List (Entry ι Command Command.Reply)) (n : ℕ) : Prop :=
  {i | FailedChallenge P sub calls hash log i}.encard ≤ n

def Command.setsPassword : Command → Bool
  | .setPassword _ _ => true
  | _ => false

/-- A password written by a request that presented the token. -/
def writesPassword (hash : Digest) (e : Entry ι Command Command.Reply) : Bool :=
  e.command.setsPassword && decide ((calls e.who).hash? P = some hash)

/-- The token a link was placed for. -/
def Command.places : Command → Option Digest
  | .set (.resetToken hash) _ _ => some hash
  | _ => none

def Issued (hash : Digest) (log : List (Entry ι Command Command.Reply)) : Prop :=
  ∃ e ∈ log, e.command.places = some hash

/-- The request has drawn the token with this hash. -/
def DrewToken (hash : Digest) (log : List (Entry ι Command Command.Reply)) (i : ι) : Prop :=
  ∃ token, (⟨i, .randomBytes, some token⟩ : Entry ι Command Command.Reply) ∈ log ∧
    P.sha256 token = hash

/-- Past the placing of a link. -/
def ResetPhase.placed : ResetPhase → Bool
  | .pointing _ => true
  | .ended => true
  | _ => false

/-- Tokens are drawn once, and placed by who drew them. -/
structure Provenance (s : Sso) (log : List (Entry ι Command Command.Reply)) : Prop where
  values : ∀ hash i, DrewToken P hash log i → ∃ n < s.draws, P.sha256 (P.randomBytes n) = hash
  unique : ∀ hash i j, DrewToken P hash log i → DrewToken P hash log j → i = j
  placed : ∀ e ∈ log, ∀ hash, e.command.places = some hash →
    DrewToken P hash log e.who ∧ (resetPhase P sub calls log e.who).placed = true

def liveToken (hash : Digest) (s : Sso) : Option (Stored ResetTokenRecord) :=
  visible? s.redis s.clock (.resetToken hash)

/-- What has been used up of a token, and what its record says of it. -/
structure TokenFacts (hash : Digest) (s : Sso) (log : List (Entry ι Command Command.Reply)) :
    Prop where
  challenges : ChallengesWithin P sub calls hash log MAX_CHALLENGE_ATTEMPTS
  passwords : log.countP (writesPassword P calls hash) ≤ 1
  unissued : ¬ Issued hash log → s.redis (.resetToken hash) = none ∧
    ChallengesWithin P sub calls hash log 0 ∧ log.countP (writesPassword P calls hash) = 0
  counted : ∀ e, liveToken hash s = some e → e.value.sub = sub ∧
    ChallengesWithin P sub calls hash log e.value.attempts ∧
    ChallengesWithin P sub calls hash log (MAX_CHALLENGE_ATTEMPTS - 1) ∧
    log.countP (writesPassword P calls hash) = 0

/-- Every live token is the one the pointer names, and does not outlive it. -/
def Pointed (s : Sso) : Prop :=
  ∀ hash e, liveToken hash s = some e → ∃ d d', e.deadline = some d ∧
    s.redis (.resetUser sub) = some ⟨hash, some d'⟩ ∧ d ≤ d'

structure QuietTokens (s : Sso) (log : List (Entry ι Command Command.Reply)) : Prop where
  provenance : Provenance P sub calls s log
  pointed : Pointed sub s
  tokens : ∀ hash, TokenFacts P sub calls hash s log

/-- What the request that has read a token knows of it. -/
structure OnToken (i : ι) (hash : Digest) (record : ResetTokenRecord) (challenges passwords : ℕ)
    (s : Sso) (log : List (Entry ι Command Command.Reply)) : Prop where
  provenance : Provenance P sub calls s log
  pointed : Pointed sub s
  others : ∀ other, other ≠ hash → TokenFacts P sub calls other s log
  presented : (calls i).hash? P = some hash
  issued : Issued hash log
  owner : record.sub = sub
  named : ∃ d, s.redis (.resetUser sub) = some ⟨hash, d⟩
  counted : ChallengesWithin P sub calls hash log challenges
  challenges : ChallengesWithin P sub calls hash log MAX_CHALLENGE_ATTEMPTS
  passwords : log.countP (writesPassword P calls hash) ≤ passwords

/-- While a link is renewed the tokens may be behind their pointer. -/
structure Renewing (s : Sso) (log : List (Entry ι Command Command.Reply))
    (live : Digest → Stored ResetTokenRecord → Prop) : Prop where
  provenance : Provenance P sub calls s log
  tokens : ∀ hash, TokenFacts P sub calls hash s log
  live : ∀ hash e, liveToken hash s = some e → live hash e

def HeldToken (i : ι) (g : ResetPhase) (s : Sso) (log : List (Entry ι Command Command.Reply)) :
    Prop :=
  match g with
  | .renewing _ prev => Renewing P sub calls s log fun hash _ => hash = prev
  | .placing _ => Renewing P sub calls s log fun _ _ => False
  | .pointing placed => Renewing P sub calls s log fun hash e => hash = placed ∧
      ∃ d, e.deadline = some d ∧ d ≤ s.clock + Sso.milliseconds TOKEN_TTL_SECONDS
  | .holding hash record => QuietTokens P sub calls s log ∧
      OnToken P sub calls i hash record record.attempts 0 s log ∧
      ChallengesWithin P sub calls hash log (MAX_CHALLENGE_ATTEMPTS - 1)
  | .refused hash record => OnToken P sub calls i hash record (record.attempts + 1) 0 s log
  | .changed hash record => OnToken P sub calls i hash record MAX_CHALLENGE_ATTEMPTS 1 s log
  | _ => QuietTokens P sub calls s log

end Facts

section Phases

variable {P : Primitives} {sub : Uuid} {call : ResetCall} {g : ResetPhase} {c : Command}
  {r : Option c.Reply}

theorem besides_uses (h : c.besides = true) : c.usesReset = false := by
  cases c with
  | set k v ttl => cases k <;> first | rfl | exact absurd h Bool.false_ne_true
  | getdel k => cases k <;> first | rfl | exact absurd h Bool.false_ne_true
  | ask q => cases q <;> first | rfl | exact absurd h Bool.false_ne_true
  | _ => first | rfl | exact absurd h Bool.false_ne_true

theorem places_uses {hash : Digest} (h : c.places = some hash) : c.usesReset = true := by
  cases c with
  | set k v ttl => cases k <;> first | rfl | cases h
  | _ => cases h

theorem places_of_challenges (h : c.challenges = true) {hash : Digest} : c.places ≠ some hash := by
  cases c with
  | set k v ttl => exact absurd h Bool.false_ne_true
  | _ => exact nofun

theorem setsPassword_uses (h : c.setsPassword = true) : c.usesReset = true := by
  cases c with
  | setPassword sub' passwordHash => rfl
  | _ => exact absurd h Bool.false_ne_true

theorem reads_uses (h : c.readsReset = true) : c.usesReset = false := by
  cases c with
  | get k => rfl
  | _ => exact absurd h Bool.false_ne_true

/-- A command that does not use the tokens leaves their keys alone. -/
theorem uses_key {k : Key} (hk : k.ofReset = true) (h : c.usesReset = false) :
    c.writesKey k = false := by
  have hne : ∀ k' : Key, k'.ofReset = false → k' ≠ k := by
    rintro k' hk' rfl
    exact absurd hk (ne_true_of_eq_false hk')
  cases c with
  | set k' v ttl => exact decide_eq_false (hne k' h)
  | setKeepTtl k' v => exact decide_eq_false (hne k' h)
  | getdel k' => exact decide_eq_false (hne k' h)
  | expire k' ttl => exact decide_eq_false (hne k' h)
  | incr sub' => exact decide_eq_false (hne (.stepupFail sub') rfl)
  | del keys =>
    refine decide_eq_false fun hmem => ?_
    exact absurd hk (ne_true_of_eq_false (List.any_eq_false.mp h k hmem |> eq_false_of_ne_true))
  | _ => rfl

/-- A request reads the tokens, leaves them alone, or has read them. -/
theorem resetOk_cases (hok : ResetOk P sub call g c) :
    g.unread = true ∧ c.readsReset = true ∨ g.critical = false ∧ c.besides = true ∨
      g.unread = false ∧ c.usesReset = true := by
  have hchallenge : c.challenges = true → c.usesReset = true := by
    intro h
    cases c with
    | ask q => cases q <;> first | rfl | exact absurd h Bool.false_ne_true
    | _ => first | rfl | exact absurd h Bool.false_ne_true
  have hattempt : ∀ {hash record}, g.attempting = some (hash, record) → g.unread = false := by
    intro hash record h
    cases g with
    | _ => first | rfl | cases h
  cases hok with
  | besides hg hc => exact .inr (.inl ⟨hg, hc⟩)
  | lookup h => exact .inl ⟨rfl, rfl⟩
  | pointer => exact .inl ⟨rfl, rfl⟩
  | drop => exact .inr (.inr ⟨rfl, rfl⟩)
  | place => exact .inr (.inr ⟨rfl, rfl⟩)
  | point => exact .inr (.inr ⟨rfl, rfl⟩)
  | challenge h => exact .inr (.inr ⟨rfl, hchallenge h⟩)
  | count hg h => exact .inr (.inr ⟨hattempt hg, rfl⟩)
  | burn hg => exact .inr (.inr ⟨hattempt hg, rfl⟩)
  | password => exact .inr (.inr ⟨rfl, rfl⟩)
  | consume => exact .inr (.inr ⟨rfl, rfl⟩)

/-- The hash of the link a request is about to place. -/
def ResetPhase.link? : ResetPhase → Option Digest
  | .drew hash => some hash
  | .renewing hash _ => some hash
  | .placing hash => some hash
  | _ => none

theorem link_ifAnswered {hash : Digest} {r : Option Unit}
    (h : (ResetPhase.ifAnswered g r).link? = some hash) : g.link? = some hash := by
  cases r with
  | none => cases h
  | some _ => exact h

theorem link_judged {hash hash' : Digest} {record : ResetTokenRecord} {accepted : Bool} :
    (ResetPhase.judged hash record accepted).link? ≠ some hash' := by
  cases accepted <;> exact nofun

theorem link_pointed {hash hash' : Digest} {r : Option (Option Digest)}
    (h : (ResetPhase.pointed hash r).link? = some hash') : some hash = some hash' := by
  rcases r with _ | _ | prev
  · cases h
  · exact h
  · exact h

theorem link_found {hash hash' : Digest} {r : Option (Option ResetTokenRecord)} :
    (ResetPhase.found hash r).link? ≠ some hash' := by
  rcases r with _ | _ | record <;> exact nofun

/-- Only the draw gives a request a link to place. -/
theorem next_link {hash : Digest} (hg : g ≠ .before)
    (h : (ResetPhase.next P call g c r).link? = some hash) : g.link? = some hash := by
  unfold ResetPhase.next at h
  split at h
  · exact absurd rfl hg
  · exact absurd rfl hg
  · exact link_pointed h
  · have hplacing : (ResetPhase.placing _).link? = some hash := link_ifAnswered h
    exact hplacing
  · cases link_ifAnswered h
  · cases h
  · exact absurd h link_judged
  · exact absurd h link_judged
  · cases h
  · cases h
  · cases link_ifAnswered h
  · cases h
  · cases h
  · cases h
  · exact h

theorem next_placed (hok : ResetOk P sub call g c) (hg : g.placed = true) :
    (ResetPhase.next P call g c r).placed = true := by
  cases g with
  | ended => rfl
  | pointing hash =>
    cases hok with
    | point => rfl
    | besides hg hc => cases hg
    | count hg h => cases hg
    | burn hg => cases hg
  | _ => cases hg

end Phases

section Runs

variable {ι : Type} [DecidableEq ι] {P : Primitives} {sub : Uuid} {calls : ι → ResetCall}
  {out : Outside} {s s' : Sso} {log : List (Entry ι Command Command.Reply)} {i j : ι}
  {c : Command} {r : Option c.Reply} {hash : Digest} {record : ResetTokenRecord}

theorem drew_of_link (h : (resetPhase P sub calls log i).link? = some hash) :
    DrewToken P hash log i := by
  obtain ⟨⟨who, c, r⟩, he, rfl, g, hbefore, hafter⟩ :=
    @Protocol.view_entered _ _ _ _ _ (resetProtocolOf P sub calls i)
      (fun g => g.link? = some hash) _ (fun h => by cases h) i log h
  by_cases hg : g = .before
  · subst hg
    cases c with
    | randomBytes =>
      rcases r with _ | token
      · cases hafter
      · refine ⟨token, he, ?_⟩
        have hdrawn : (ResetPhase.drawn P (calls who) (some token)).link? = some hash := hafter
        unfold ResetPhase.drawn at hdrawn
        split at hdrawn
        · rename_i heq
          cases heq
          split at hdrawn
          · exact Option.some.inj hdrawn
          · cases hdrawn
        · cases hdrawn
    | get k =>
      cases k with
      | resetToken hash' => exact absurd hafter link_found
      | _ => cases hafter
    | _ => cases hafter
  · exact absurd (next_link hg hafter) hbefore

omit [DecidableEq ι] in
theorem DrewToken.append {e : Entry ι Command Command.Reply} (h : DrewToken P hash log j) :
    DrewToken P hash (log ++ [e]) j := by
  obtain ⟨token, hmem, hhash⟩ := h
  exact ⟨token, List.mem_append_left _ hmem, hhash⟩

omit [DecidableEq ι] in
/-- A token drawn by now was drawn before or is the next value. -/
theorem drew_append
    (h : DrewToken P hash (log ++ [⟨i, c, (Sso.perform P out c s).1⟩]) j) :
    DrewToken P hash log j ∨ j = i ∧ c = .randomBytes ∧ P.sha256 (P.randomBytes s.draws) = hash := by
  obtain ⟨token, hmem, hhash⟩ := h
  rcases List.mem_append.mp hmem with hold | hnew
  · exact .inl ⟨token, hold, hhash⟩
  · have heq := List.mem_singleton.mp hnew
    by_cases hc : c = .randomBytes
    · subst hc
      cases heq
      exact .inr ⟨rfl, rfl, hhash⟩
    · exact absurd (congrArg Entry.command heq).symm hc

theorem perform_draws_le : s.draws ≤ (Sso.perform P out c s).2.draws := by
  by_cases hc : c = .randomBytes
  · subst hc
    exact Nat.le_succ _
  · rw [Sso.perform_draws hc]

variable (hfresh : Function.Injective fun n => P.sha256 (P.randomBytes n))

include hfresh in
/-- Whatever a request does, tokens stay drawn once and placed by who drew them. -/
theorem Provenance.append (h : Provenance P sub calls s log)
    (hok : ResetOk P sub (calls i) (resetPhase P sub calls log i) c) :
    Provenance P sub calls (Sso.perform P out c s).2 (log ++ [⟨i, c, (Sso.perform P out c s).1⟩]) where
  values hash j hj := by
    rcases drew_append hj with hold | ⟨-, rfl, hnew⟩
    · obtain ⟨n, hn, hhash⟩ := h.values hash j hold
      exact ⟨n, hn.trans_le perform_draws_le, hhash⟩
    · exact ⟨s.draws, Nat.lt_succ_self _, hnew⟩
  unique hash j k hj hk := by
    have hnew : ∀ l, DrewToken P hash log l → P.sha256 (P.randomBytes s.draws) ≠ hash := by
      intro l hl heq
      obtain ⟨n, hn, hhash⟩ := h.values hash l hl
      exact absurd (hfresh (hhash.trans heq.symm)) (Nat.ne_of_lt hn)
    rcases drew_append hj with hold | ⟨hji, -, hhash⟩
    · rcases drew_append hk with hold' | ⟨-, -, hhash⟩
      · exact h.unique hash j k hold hold'
      · exact absurd hhash (hnew j hold)
    · rcases drew_append hk with hold' | ⟨hki, -, -⟩
      · exact absurd hhash (hnew k hold')
      · rw [hji, hki]
  placed e he hash hplaces := by
    have hview : ∀ j, j ≠ i → resetPhase P sub calls
        (log ++ [⟨i, c, (Sso.perform P out c s).1⟩]) j = resetPhase P sub calls log j :=
      fun j hj => Protocol.view_other _ _ _ _ _ (Ne.symm hj)
    have hself : resetPhase P sub calls (log ++ [⟨i, c, (Sso.perform P out c s).1⟩]) i =
        ResetPhase.next P (calls i) (resetPhase P sub calls log i) c (Sso.perform P out c s).1 :=
      Protocol.view_self _ _ _ _ _ _
    rcases List.mem_append.mp he with hold | hnew
    · obtain ⟨hdrew, hplaced⟩ := h.placed e hold hash hplaces
      refine ⟨hdrew.append, ?_⟩
      by_cases hwho : e.who = i
      · rw [hwho] at hplaced ⊢
        rw [hself]
        exact next_placed hok hplaced
      · rw [hview _ hwho]
        exact hplaced
    · rw [List.mem_singleton.mp hnew] at hplaces ⊢
      generalize hphase : resetPhase P sub calls log i = g at hok hself
      cases hok with
      | place =>
        have hdrew : DrewToken P hash log i := by
          refine @drew_of_link ι _ P sub calls log i hash ?_
          rw [hphase]
          exact hplaces
        refine ⟨hdrew.append, ?_⟩
        rw [hself]
        rfl
      | besides hg hc =>
        exact absurd (places_uses hplaces) (ne_true_of_eq_false (besides_uses hc))
      | challenge hc => exact absurd hplaces (places_of_challenges hc)
      | _ => cases hplaces

omit hfresh

theorem ChallengesWithin.mono {n m : ℕ} (h : ChallengesWithin P sub calls hash log n)
    (hle : n ≤ m) : ChallengesWithin P sub calls hash log m := h.trans (Nat.cast_le.mpr hle)

theorem challenges_nil (n : ℕ) : ChallengesWithin P sub calls hash [] n := by
  have hnone : ∀ i, i ∉ {i | FailedChallenge P sub calls hash [] i} := by
    rintro i ⟨-, hi⟩
    exact Protocol.not_passed_nil (resetProtocolOf P sub calls i) (fun h => h) i hi
  rw [ChallengesWithin, Set.eq_empty_of_forall_notMem hnone, Set.encard_empty]
  exact zero_le

/-- A step that fails no challenge of the token. -/
theorem ChallengesWithin.append {n : ℕ} (h : ChallengesWithin P sub calls hash log n)
    (hback : (calls i).hash? P = some hash →
      (ResetPhase.next P (calls i) (resetPhase P sub calls log i) c r).failed →
        (resetPhase P sub calls log i).failed) :
    ChallengesWithin P sub calls hash (log ++ [⟨i, c, r⟩]) n := by
  refine (Set.encard_le_encard fun j hj => ?_).trans h
  obtain ⟨hhash, hpassed⟩ := hj
  refine ⟨hhash, ?_⟩
  by_cases hij : i = j
  · subst hij
    exact @Protocol.passed_of_append _ _ _ _ _ (resetProtocolOf P sub calls) (fun _ => .before) _ i i
      log c r (hback hhash) hpassed
  · exact @Protocol.passed_of_append_other _ _ _ _ _ (resetProtocolOf P sub calls)
      (fun _ => .before) _ i j hij log c r hpassed

/-- Any step fails at most one. -/
theorem ChallengesWithin.step {n : ℕ} (h : ChallengesWithin P sub calls hash log n) :
    ChallengesWithin P sub calls hash (log ++ [⟨i, c, r⟩]) (n + 1) := by
  have hsub : {j | FailedChallenge P sub calls hash (log ++ [⟨i, c, r⟩]) j} ⊆
      insert i {j | FailedChallenge P sub calls hash log j} := by
    rintro j ⟨hhash, hpassed⟩
    by_cases hij : i = j
    · exact .inl hij.symm
    · exact .inr ⟨hhash, @Protocol.passed_of_append_other _ _ _ _ _ (resetProtocolOf P sub calls)
        (fun _ => .before) _ i j hij log c r hpassed⟩
  calc {j | FailedChallenge P sub calls hash (log ++ [⟨i, c, r⟩]) j}.encard
      ≤ (insert i {j | FailedChallenge P sub calls hash log j}).encard := Set.encard_le_encard hsub
    _ ≤ {j | FailedChallenge P sub calls hash log j}.encard + 1 := Set.encard_insert_le _ _
    _ ≤ n + 1 := add_le_add_left h 1

/-- A step that leaves a token, its count and its password alone. -/
structure Bystands (P : Primitives) (sub : Uuid) (calls : ι → ResetCall) (hash : Digest)
    (s s' : Sso) (log : List (Entry ι Command Command.Reply)) (i : ι) (c : Command)
    (r : Option c.Reply) : Prop where
  challenge : (calls i).hash? P = some hash →
    (ResetPhase.next P (calls i) (resetPhase P sub calls log i) c r).failed →
      (resetPhase P sub calls log i).failed
  password : c.setsPassword = true → (calls i).hash? P ≠ some hash
  place : c.places ≠ some hash
  key : s'.redis (.resetToken hash) = s.redis (.resetToken hash)
  clock : s.clock ≤ s'.clock

theorem live_later {e : Stored ResetTokenRecord}
    (hkey : s'.redis (.resetToken hash) = s.redis (.resetToken hash)) (hclock : s.clock ≤ s'.clock)
    (h : liveToken hash s' = some e) : liveToken hash s = some e := by
  rw [liveToken, visible?_congr hkey] at h
  exact visible?_later hclock h

theorem Bystands.count (h : Bystands P sub calls hash s s' log i c r) :
    List.countP (writesPassword P calls hash) (log ++ [⟨i, c, r⟩]) =
      log.countP (writesPassword P calls hash) := by
  have hnot : writesPassword P calls hash (⟨i, c, r⟩ : Entry ι Command Command.Reply) = false := by
    rw [writesPassword, Bool.and_eq_false_iff]
    cases hc : c.setsPassword with
    | false => exact .inl rfl
    | true => exact .inr (decide_eq_false (h.password hc))
  rw [List.countP_append, List.countP_singleton, hnot]
  rfl

theorem Bystands.issued (h : Bystands P sub calls hash s s' log i c r) :
    Issued hash (log ++ [⟨i, c, r⟩]) ↔ Issued hash log := by
  constructor
  · rintro ⟨e, he, hplaces⟩
    rcases List.mem_append.mp he with hold | hnew
    · exact ⟨e, hold, hplaces⟩
    · rw [List.mem_singleton.mp hnew] at hplaces
      exact absurd hplaces h.place
  · rintro ⟨e, he, hplaces⟩
    exact ⟨e, List.mem_append_left _ he, hplaces⟩

theorem TokenFacts.append (h : TokenFacts P sub calls hash s log)
    (hu : Bystands P sub calls hash s s' log i c r) :
    TokenFacts P sub calls hash s' (log ++ [⟨i, c, r⟩]) where
  challenges := h.challenges.append hu.challenge
  passwords := hu.count.trans_le h.passwords
  unissued hnot := by
    obtain ⟨hkey, hchallenges, hpasswords⟩ := h.unissued (hu.issued.not.mp hnot)
    exact ⟨hu.key.trans hkey, hchallenges.append hu.challenge, hu.count.trans hpasswords⟩
  counted e he := by
    obtain ⟨howner, hcounted, hmax, hpasswords⟩ := h.counted e (live_later hu.key hu.clock he)
    exact ⟨howner, hcounted.append hu.challenge, hmax.append hu.challenge,
      hu.count.trans hpasswords⟩

theorem TokenFacts.later (h : TokenFacts P sub calls hash s log) (hkeys : s'.redis = s.redis)
    (hclock : s.clock ≤ s'.clock) : TokenFacts P sub calls hash s' log where
  challenges := h.challenges
  passwords := h.passwords
  unissued hnot := hkeys ▸ h.unissued hnot
  counted e he := h.counted e (live_later (congrFun hkeys _) hclock he)

theorem Pointed.later (h : Pointed sub s)
    (htokens : ∀ hash, s'.redis (.resetToken hash) = s.redis (.resetToken hash))
    (huser : s'.redis (.resetUser sub) = s.redis (.resetUser sub)) (hclock : s.clock ≤ s'.clock) :
    Pointed sub s' := by
  intro hash e he
  obtain ⟨d, d', hdeadline, hpointer, hle⟩ := h hash e (live_later (htokens hash) hclock he)
  exact ⟨d, d', hdeadline, huser.trans hpointer, hle⟩

/-- The command leaves the tokens and the password alone. -/
structure Spares (P : Primitives) (out : Outside) (s : Sso) (c : Command) : Prop where
  password : c.setsPassword = false
  place : ∀ hash, c.places ≠ some hash
  key : ∀ k, k.ofReset = true → (Sso.perform P out c s).2.redis k = s.redis k

theorem spares_of_uses (h : c.usesReset = false) : Spares P out s c where
  password := by
    by_contra hc
    exact absurd (setsPassword_uses (eq_true_of_ne_false hc)) (ne_true_of_eq_false h)
  place hash hc := absurd (places_uses hc) (ne_true_of_eq_false h)
  key k hk := Sso.perform_redis (uses_key hk h)

theorem spares_of_challenges (h : c.challenges = true) : Spares P out s c where
  password := by
    cases c with
    | setPassword sub' passwordHash => exact absurd h Bool.false_ne_true
    | _ => rfl
  place hash := places_of_challenges h
  key k hk := by
    have hplain : c.plain = true := by
      cases c with
      | _ => first | rfl | exact absurd h Bool.false_ne_true
    rw [Sso.perform_plain hplain]

/-- A step of a request that spares the tokens. -/
theorem untouched_of (hspares : Spares P out s c)
    (hback : (ResetPhase.next P (calls i) (resetPhase P sub calls log i) c
      (Sso.perform P out c s).1).failed → (resetPhase P sub calls log i).failed) (hash : Digest) :
    Bystands P sub calls hash s (Sso.perform P out c s).2 log i c (Sso.perform P out c s).1 where
  challenge _ := hback
  password hc := absurd hc (ne_true_of_eq_false hspares.password)
  place := hspares.place hash
  key := hspares.key _ rfl
  clock := (Sso.perform_clock c).ge

section Aside

variable (hfresh : Function.Injective fun n => P.sha256 (P.randomBytes n))
  (hok : ResetOk P sub (calls i) (resetPhase P sub calls log i) c) (hspares : Spares P out s c)
  (hback : (ResetPhase.next P (calls i) (resetPhase P sub calls log i) c
    (Sso.perform P out c s).1).failed → (resetPhase P sub calls log i).failed)

include hspares in
theorem Pointed.aside (h : Pointed sub s) : Pointed sub (Sso.perform P out c s).2 :=
  h.later (fun _ => hspares.key _ rfl) (hspares.key _ rfl) (Sso.perform_clock c).ge

include hfresh hok hspares hback

theorem QuietTokens.append (h : QuietTokens P sub calls s log) :
    QuietTokens P sub calls (Sso.perform P out c s).2 (log ++ [⟨i, c, (Sso.perform P out c s).1⟩]) where
  provenance := h.provenance.append hfresh hok
  pointed := h.pointed.aside hspares
  tokens hash := (h.tokens hash).append (untouched_of hspares hback hash)

theorem OnToken.append {challenges passwords : ℕ}
    (h : OnToken P sub calls j hash record challenges passwords s log) :
    OnToken P sub calls j hash record challenges passwords (Sso.perform P out c s).2
      (log ++ [⟨i, c, (Sso.perform P out c s).1⟩]) where
  provenance := h.provenance.append hfresh hok
  pointed := h.pointed.aside hspares
  others other hother := (h.others other hother).append (untouched_of hspares hback other)
  presented := h.presented
  issued := (untouched_of hspares hback hash).issued.mpr h.issued
  owner := h.owner
  named := by
    rw [hspares.key _ rfl]
    exact h.named
  counted := h.counted.append fun _ => hback
  challenges := h.challenges.append fun _ => hback
  passwords := (untouched_of hspares hback hash).count.trans_le h.passwords

theorem Renewing.append {live live' : Digest → Stored ResetTokenRecord → Prop}
    (h : Renewing P sub calls s log live) (hlive : ∀ hash e, live hash e → live' hash e) :
    Renewing P sub calls (Sso.perform P out c s).2 (log ++ [⟨i, c, (Sso.perform P out c s).1⟩])
      live' where
  provenance := h.provenance.append hfresh hok
  tokens hash := (h.tokens hash).append (untouched_of hspares hback hash)
  live hash e he := by
    have hu := @untouched_of _ _ P sub calls out s log i c hspares hback hash
    exact hlive hash e (h.live hash e (live_later hu.key hu.clock he))

/-- Others' steps keep what a request in any phase knows. -/
theorem HeldToken.append {g : ResetPhase} (h : HeldToken P sub calls j g s log) :
    HeldToken P sub calls j g (Sso.perform P out c s).2
      (log ++ [⟨i, c, (Sso.perform P out c s).1⟩]) := by
  cases g with
  | renewing hash prev => exact Renewing.append hfresh hok hspares hback h fun _ _ hl => hl
  | placing hash => exact Renewing.append hfresh hok hspares hback h fun _ _ hl => hl
  | pointing hash =>
    refine Renewing.append hfresh hok hspares hback h fun other e hl => ?_
    rw [Sso.perform_clock]
    exact hl
  | holding hash record =>
    exact ⟨h.1.append hfresh hok hspares hback, h.2.1.append hfresh hok hspares hback,
      h.2.2.append fun _ => hback⟩
  | refused hash record => exact OnToken.append hfresh hok hspares hback h
  | changed hash record => exact OnToken.append hfresh hok hspares hback h
  | before => exact QuietTokens.append hfresh hok hspares hback h
  | drew hash => exact QuietTokens.append hfresh hok hspares hback h
  | bumped => exact QuietTokens.append hfresh hok hspares hback h
  | ended => exact QuietTokens.append hfresh hok hspares hback h

end Aside

/-- A pointer is there as long as the token it names. -/
theorem Pointed.get {e : Stored ResetTokenRecord} (h : Pointed sub s)
    (hlive : liveToken hash s = some e) :
    ExpiringStore.get s.redis s.clock (.resetUser sub) = some hash := by
  obtain ⟨d, d', hdeadline, hpointer, hle⟩ := h hash e hlive
  have hclock : s.clock < d := by
    have hfilter := (Option.filter_eq_some_iff.mp hlive).2
    rw [Stored.live, hdeadline] at hfilter
    exact of_decide_eq_true hfilter
  rw [ExpiringStore.get, visible?, hpointer]
  have hlater : Stored.live s.clock (⟨hash, some d'⟩ : Stored Digest) = true :=
    decide_eq_true (hclock.trans_le hle)
  rw [Option.filter_some, if_pos hlater, Option.map_some]

/-- The token a request looks up. -/
theorem QuietTokens.found {e : Stored ResetTokenRecord} (h : QuietTokens P sub calls s log)
    (hpresented : (calls i).hash? P = some hash) (hlive : liveToken hash s = some e) :
    OnToken P sub calls i hash e.value e.value.attempts 0 s log ∧
      ChallengesWithin P sub calls hash log (MAX_CHALLENGE_ATTEMPTS - 1) := by
  obtain ⟨howner, hcounted, hmax, hpasswords⟩ := (h.tokens hash).counted e hlive
  obtain ⟨d, d', hdeadline, hpointer, hle⟩ := h.pointed hash e hlive
  have hissued : Issued hash log := by
    by_contra hnot
    have hraw := (Option.filter_eq_some_iff.mp hlive).1
    rw [((h.tokens hash).unissued hnot).1] at hraw
    cases hraw
  exact ⟨⟨h.provenance, h.pointed, fun other _ => h.tokens other, hpresented, hissued, howner,
    ⟨_, hpointer⟩, hcounted, (h.tokens hash).challenges, hpasswords.le⟩, hmax⟩

section Enter

variable (hfresh : Function.Injective fun n => P.sha256 (P.randomBytes n))

include hfresh

theorem lookup_token (hview : resetPhase P sub calls log i = .before)
    (hpresented : (calls i).hash? P = some hash) (h : QuietTokens P sub calls s log) :
    HeldToken P sub calls i
      (ResetPhase.next P (calls i) .before (.get (.resetToken hash))
        (Sso.perform P out (.get (.resetToken hash)) s).1)
      (Sso.perform P out (.get (.resetToken hash)) s).2
      (log ++ [⟨i, .get (.resetToken hash), (Sso.perform P out (.get (.resetToken hash)) s).1⟩]) := by
  have hok : ResetOk P sub (calls i) (resetPhase P sub calls log i) (.get (.resetToken hash)) := by
    rw [hview]
    exact .lookup hpresented
  have hnext : ResetPhase.next P (calls i) .before (.get (.resetToken hash))
      (Sso.perform P out (.get (.resetToken hash)) s).1 =
        ResetPhase.found hash (some (ExpiringStore.get s.redis s.clock (.resetToken hash))) := rfl
  have hback : (ResetPhase.next P (calls i) (resetPhase P sub calls log i)
      (.get (.resetToken hash)) (Sso.perform P out (.get (.resetToken hash)) s).1).failed →
        (resetPhase P sub calls log i).failed := by
    rw [hview, hnext]
    cases ExpiringStore.get s.redis s.clock (.resetToken hash) <;> exact False.elim
  have hquiet := h.append hfresh hok (spares_of_uses rfl) hback
  rw [hnext]
  cases hget : ExpiringStore.get s.redis s.clock (.resetToken hash) with
  | none => exact hquiet
  | some record =>
    obtain ⟨e, he, rfl⟩ := Option.map_eq_some_iff.mp hget
    obtain ⟨hon, hmax⟩ := h.found hpresented he
    exact ⟨hquiet, hon.append hfresh hok (spares_of_uses rfl) hback, hmax.append fun _ => hback⟩

theorem lookup_pointer (hview : resetPhase P sub calls log i = .drew hash)
    (h : QuietTokens P sub calls s log) :
    HeldToken P sub calls i
      (ResetPhase.next P (calls i) (.drew hash) (.get (.resetUser sub))
        (Sso.perform P out (.get (.resetUser sub)) s).1)
      (Sso.perform P out (.get (.resetUser sub)) s).2
      (log ++ [⟨i, .get (.resetUser sub), (Sso.perform P out (.get (.resetUser sub)) s).1⟩]) := by
  have hok : ResetOk P sub (calls i) (resetPhase P sub calls log i) (.get (.resetUser sub)) := by
    rw [hview]
    exact .pointer
  have hnext : ResetPhase.next P (calls i) (.drew hash) (.get (.resetUser sub))
      (Sso.perform P out (.get (.resetUser sub)) s).1 =
        ResetPhase.pointed hash (some (ExpiringStore.get s.redis s.clock (.resetUser sub))) := rfl
  have hback : (ResetPhase.next P (calls i) (resetPhase P sub calls log i)
      (.get (.resetUser sub)) (Sso.perform P out (.get (.resetUser sub)) s).1).failed →
        (resetPhase P sub calls log i).failed := by
    rw [hview, hnext]
    cases ExpiringStore.get s.redis s.clock (.resetUser sub) <;> exact False.elim
  have hall : Renewing P sub calls s log fun hash _ =>
      ExpiringStore.get s.redis s.clock (.resetUser sub) = some hash :=
    ⟨h.provenance, h.tokens, fun hash e he => h.pointed.get he⟩
  rw [hnext]
  cases hget : ExpiringStore.get s.redis s.clock (.resetUser sub) with
  | none =>
    refine hall.append hfresh hok (spares_of_uses rfl) hback fun other e hl => ?_
    rw [hget] at hl
    cases hl
  | some prev =>
    refine hall.append hfresh hok (spares_of_uses rfl) hback fun other e hl => ?_
    rw [hget] at hl
    exact (Option.some.inj hl).symm

end Enter

section Advance

variable (hfresh : Function.Injective fun n => P.sha256 (P.randomBytes n))
  (hok : ResetOk P sub (calls i) (resetPhase P sub calls log i) c)

include hfresh hok

/-- A step of the request that has the token, other than on the token itself. -/
theorem OnToken.own {challenges passwords challenges' passwords' : ℕ}
    (h : OnToken P sub calls i hash record challenges passwords s log)
    (hplace : ∀ hash, c.places ≠ some hash)
    (hkey : ∀ k, k.ofReset = true → (Sso.perform P out c s).2.redis k = s.redis k)
    (hcounted : ChallengesWithin P sub calls hash (log ++ [⟨i, c, (Sso.perform P out c s).1⟩])
      challenges')
    (hmax : ChallengesWithin P sub calls hash (log ++ [⟨i, c, (Sso.perform P out c s).1⟩])
      MAX_CHALLENGE_ATTEMPTS)
    (hpasswords : List.countP (writesPassword P calls hash)
      (log ++ [⟨i, c, (Sso.perform P out c s).1⟩]) ≤ passwords') :
    OnToken P sub calls i hash record challenges' passwords' (Sso.perform P out c s).2
      (log ++ [⟨i, c, (Sso.perform P out c s).1⟩]) where
  provenance := h.provenance.append hfresh hok
  pointed := h.pointed.later (fun _ => hkey _ rfl) (hkey _ rfl) (Sso.perform_clock c).ge
  others other hother := by
    have hnot : (calls i).hash? P ≠ some other := by
      rw [h.presented]
      exact fun heq => hother (Option.some.inj heq).symm
    exact (h.others other hother).append ⟨fun heq => absurd heq hnot, fun _ => hnot,
      hplace other, hkey _ rfl, (Sso.perform_clock c).ge⟩
  presented := h.presented
  issued := by
    obtain ⟨e, he, hplaces⟩ := h.issued
    exact ⟨e, List.mem_append_left _ he, hplaces⟩
  owner := h.owner
  named := by
    rw [hkey _ rfl]
    exact h.named
  counted := hcounted
  challenges := hmax
  passwords := hpasswords

end Advance

omit [DecidableEq ι] in
theorem count_nonwriting (hc : c.setsPassword = false) :
    List.countP (writesPassword P calls hash) (log ++ [⟨i, c, r⟩]) =
      log.countP (writesPassword P calls hash) := by
  have hnot : writesPassword P calls hash (⟨i, c, r⟩ : Entry ι Command Command.Reply) = false := by
    rw [writesPassword, hc, Bool.false_and]
  rw [List.countP_append, List.countP_singleton, hnot]
  rfl

/-- What is left of a token after a deletion. -/
theorem live_del {keys : List Key} {e : Stored ResetTokenRecord}
    (h : liveToken hash (Sso.perform P out (.del keys) s).2 = some e) :
    .resetToken hash ∉ keys ∧ liveToken hash s = some e := by
  have hkept : .resetToken hash ∉ keys := by
    intro hmem
    rw [liveToken, visible?_of_none (Sso.perform_del hmem)] at h
    cases h
  have hkey : (Sso.perform P out (.del keys) s).2.redis (.resetToken hash) =
      s.redis (.resetToken hash) := del_of_notMem _ hkept
  exact ⟨hkept, live_later hkey le_rfl h⟩

theorem TokenFacts.del {keys : List Key} (h : TokenFacts P sub calls hash s log)
    (hback : (calls i).hash? P = some hash →
      (ResetPhase.next P (calls i) (resetPhase P sub calls log i) (.del keys) (some ())).failed →
        (resetPhase P sub calls log i).failed) :
    TokenFacts P sub calls hash (Sso.perform P out (.del keys) s).2
      (log ++ [⟨i, .del keys, some ()⟩]) := by
  by_cases hmem : .resetToken hash ∈ keys
  · refine ⟨h.challenges.append hback, (count_nonwriting rfl).trans_le h.passwords,
      fun hnot => ⟨Sso.perform_del hmem, ?_, ?_⟩, fun e he => absurd hmem (live_del he).1⟩
    · have hissued : ¬ Issued hash log := fun ⟨e, he, hplaces⟩ =>
        hnot ⟨e, List.mem_append_left _ he, hplaces⟩
      exact (h.unissued hissued).2.1.append hback
    · have hissued : ¬ Issued hash log := fun ⟨e, he, hplaces⟩ =>
        hnot ⟨e, List.mem_append_left _ he, hplaces⟩
      exact (count_nonwriting rfl).trans (h.unissued hissued).2.2
  · exact h.append ⟨hback, fun hc => absurd hc Bool.false_ne_true, nofun,
      del_of_notMem _ hmem, le_rfl⟩

/-- The token is deleted with its pointer. -/
theorem OnToken.deleted {challenges passwords : ℕ}
    (hfresh : Function.Injective fun n => P.sha256 (P.randomBytes n))
    (hok : ResetOk P sub (calls i) (resetPhase P sub calls log i) (.del (resetKeys record hash)))
    (h : OnToken P sub calls i hash record challenges passwords s log) (hle : passwords ≤ 1)
    (hmax : ChallengesWithin P sub calls hash
      (log ++ [⟨i, .del (resetKeys record hash), some ()⟩]) MAX_CHALLENGE_ATTEMPTS) :
    QuietTokens P sub calls (Sso.perform P out (.del (resetKeys record hash)) s).2
      (log ++ [⟨i, .del (resetKeys record hash), some ()⟩]) where
  provenance := h.provenance.append hfresh hok
  pointed other e he := by
    -- the pointer named this token, so nothing is live any more
    obtain ⟨hkept, hlive⟩ := live_del he
    obtain ⟨d, d', -, hpointer, -⟩ := h.pointed other e hlive
    obtain ⟨d'', hnamed⟩ := h.named
    rw [hnamed] at hpointer
    cases hpointer
    exact absurd List.mem_cons_self hkept
  tokens other := by
    by_cases hother : other = hash
    · subst hother
      refine ⟨hmax, (count_nonwriting rfl).trans_le (h.passwords.trans hle), fun hnot => ?_,
        fun e he => absurd List.mem_cons_self (live_del he).1⟩
      obtain ⟨e, he, hplaces⟩ := h.issued
      exact absurd ⟨e, List.mem_append_left _ he, hplaces⟩ hnot
    · refine (h.others other hother).del fun heq => ?_
      rw [h.presented] at heq
      exact absurd (Option.some.inj heq).symm hother

/-- The link the pointer named is dropped. -/
theorem Renewing.dropped {prev : Digest}
    (hfresh : Function.Injective fun n => P.sha256 (P.randomBytes n))
    (hok : ResetOk P sub (calls i) (resetPhase P sub calls log i)
      (.del [.resetToken prev, .resetPasskey prev]))
    (hnext : ResetPhase.next P (calls i) (resetPhase P sub calls log i)
      (.del [.resetToken prev, .resetPasskey prev]) (some ()) = .placing hash)
    (h : Renewing P sub calls s log fun hash _ => hash = prev) :
    Renewing P sub calls (Sso.perform P out (.del [.resetToken prev, .resetPasskey prev]) s).2
      (log ++ [⟨i, .del [.resetToken prev, .resetPasskey prev], some ()⟩]) fun _ _ => False where
  provenance := h.provenance.append hfresh hok
  tokens other := (h.tokens other).del fun _ => by
    rw [hnext]
    exact False.elim
  live other e he := by
    obtain ⟨hkept, hlive⟩ := live_del he
    rw [h.live other e hlive] at hkept
    exact hkept List.mem_cons_self

/-- A link that is about to be placed is a new one. -/
theorem Provenance.unissued (h : Provenance P sub calls s log)
    (hview : resetPhase P sub calls log i = .placing hash) : ¬ Issued hash log := by
  rintro ⟨e, he, hplaces⟩
  have hdrew : DrewToken P hash log i := by
    refine @drew_of_link ι _ P sub calls log i hash ?_
    rw [hview]
    rfl
  obtain ⟨hdrew', hplaced⟩ := h.placed e he hash hplaces
  rw [h.unique hash e.who i hdrew' hdrew, hview] at hplaced
  exact absurd hplaced Bool.false_ne_true

theorem Renewing.place
    (hfresh : Function.Injective fun n => P.sha256 (P.randomBytes n))
    (hview : resetPhase P sub calls log i = .placing hash)
    (h : Renewing P sub calls s log fun _ _ => False) :
    Renewing P sub calls
      (Sso.perform P out (.set (.resetToken hash) ⟨sub, 0⟩ TOKEN_TTL_SECONDS) s).2
      (log ++ [⟨i, .set (.resetToken hash) ⟨sub, 0⟩ TOKEN_TTL_SECONDS, some ()⟩])
      fun hash' e => hash' = hash ∧ ∃ d, e.deadline = some d ∧
        d ≤ s.clock + Sso.milliseconds TOKEN_TTL_SECONDS := by
  have hok : ResetOk P sub (calls i) (resetPhase P sub calls log i)
      (.set (.resetToken hash) ⟨sub, 0⟩ TOKEN_TTL_SECONDS) := by
    rw [hview]
    exact .place
  have hback : (ResetPhase.next P (calls i) (resetPhase P sub calls log i)
      (.set (.resetToken hash) ⟨sub, 0⟩ TOKEN_TTL_SECONDS) (some ())).failed →
        (resetPhase P sub calls log i).failed := by
    rw [hview]
    exact False.elim
  have hother : ∀ other, other ≠ hash →
      (Sso.perform P out (.set (.resetToken hash) ⟨sub, 0⟩ TOKEN_TTL_SECONDS) s).2.redis
        (.resetToken other) = s.redis (.resetToken other) := fun other hne =>
    setEx_ne _ _ _ fun heq => hne (Key.resetToken.inj heq)
  have hself : ∀ e, liveToken hash
      (Sso.perform P out (.set (.resetToken hash) ⟨sub, 0⟩ TOKEN_TTL_SECONDS) s).2 = some e →
        e = ⟨⟨sub, 0⟩, some (s.clock + Sso.milliseconds TOKEN_TTL_SECONDS)⟩ := by
    intro e he
    have hraw := (Option.filter_eq_some_iff.mp he).1
    rw [Sso.perform_set] at hraw
    exact (Option.some.inj hraw).symm
  obtain ⟨-, hnone, hunwritten⟩ := (h.tokens hash).unissued (h.provenance.unissued hview)
  refine ⟨h.provenance.append hfresh hok, fun other => ?_, fun other e he => ?_⟩
  · by_cases heq : other = hash
    · subst heq
      have hcount : ∀ n, ChallengesWithin P sub calls other
          (log ++ [⟨i, .set (.resetToken other) ⟨sub, 0⟩ TOKEN_TTL_SECONDS, some ()⟩]) n := fun n =>
        (hnone.append fun _ => hback).mono (Nat.zero_le n)
      have hwrites := (@count_nonwriting ι P calls log i
        (.set (.resetToken other) ⟨sub, 0⟩ TOKEN_TTL_SECONDS) (some ()) other rfl).trans hunwritten
      refine ⟨hcount _, hwrites.le.trans (Nat.zero_le _), fun hnot => ?_, fun e he => ?_⟩
      · exact absurd ⟨_, List.mem_append_right _ (List.mem_singleton_self _), rfl⟩ hnot
      · rw [hself e he]
        exact ⟨rfl, hcount _, hcount _, hwrites⟩
    · exact (h.tokens other).append ⟨fun _ => hback, fun hc => absurd hc Bool.false_ne_true,
        fun hplaces => heq (Option.some.inj hplaces).symm, hother other heq, le_rfl⟩
  · by_cases heq : other = hash
    · subst heq
      exact ⟨rfl, _, congrArg Stored.deadline (hself e he), le_rfl⟩
    · exact (h.live other e (live_later (hother other heq) le_rfl he)).elim

/-- And then the pointer. -/
theorem Renewing.point
    (hfresh : Function.Injective fun n => P.sha256 (P.randomBytes n))
    (hview : resetPhase P sub calls log i = .pointing hash)
    (h : Renewing P sub calls s log fun hash' e => hash' = hash ∧
      ∃ d, e.deadline = some d ∧ d ≤ s.clock + Sso.milliseconds TOKEN_TTL_SECONDS) :
    QuietTokens P sub calls (Sso.perform P out (.set (.resetUser sub) hash TOKEN_TTL_SECONDS) s).2
      (log ++ [⟨i, .set (.resetUser sub) hash TOKEN_TTL_SECONDS, some ()⟩]) := by
  have hok : ResetOk P sub (calls i) (resetPhase P sub calls log i)
      (.set (.resetUser sub) hash TOKEN_TTL_SECONDS) := by
    rw [hview]
    exact .point
  have hback : (ResetPhase.next P (calls i) (resetPhase P sub calls log i)
      (.set (.resetUser sub) hash TOKEN_TTL_SECONDS) (some ())).failed →
        (resetPhase P sub calls log i).failed := by
    rw [hview]
    exact False.elim
  have hkey : ∀ other, (Sso.perform P out (.set (.resetUser sub) hash TOKEN_TTL_SECONDS) s).2.redis
      (.resetToken other) = s.redis (.resetToken other) := fun other => Sso.perform_redis rfl
  refine ⟨h.provenance.append hfresh hok, fun other e he => ?_, fun other => ?_⟩
  · obtain ⟨rfl, d, hdeadline, hle⟩ := h.live other e (live_later (hkey other) le_rfl he)
    exact ⟨d, _, hdeadline, Sso.perform_set _ _ _, hle⟩
  · exact (h.tokens other).append ⟨fun _ => hback, fun hc => absurd hc Bool.false_ne_true, nofun,
      hkey other, le_rfl⟩

/-- A failed challenge is written back to a token that is still there. -/
theorem OnToken.count {challenges : ℕ}
    (hfresh : Function.Injective fun n => P.sha256 (P.randomBytes n))
    (hok : ResetOk P sub (calls i) (resetPhase P sub calls log i)
      (.setKeepTtl (.resetToken hash) ⟨record.sub, record.attempts + 1⟩))
    (h : OnToken P sub calls i hash record challenges 0 s log)
    (hthere : (liveToken hash s).isSome = true)
    (hleft : record.attempts + 1 < MAX_CHALLENGE_ATTEMPTS)
    (hcounted : ChallengesWithin P sub calls hash
      (log ++ [⟨i, .setKeepTtl (.resetToken hash) ⟨record.sub, record.attempts + 1⟩, some ()⟩])
      (record.attempts + 1)) :
    QuietTokens P sub calls
      (Sso.perform P out
        (.setKeepTtl (.resetToken hash) ⟨record.sub, record.attempts + 1⟩) s).2
      (log ++ [⟨i, .setKeepTtl (.resetToken hash) ⟨record.sub, record.attempts + 1⟩, some ()⟩]) := by
  obtain ⟨old, hold⟩ := Option.isSome_iff_exists.mp hthere
  have hother : ∀ k, k ≠ .resetToken hash →
      (Sso.perform P out (.setKeepTtl (.resetToken hash) ⟨record.sub, record.attempts + 1⟩) s).2.redis
        k = s.redis k := fun k hne => setKeepTtl_ne _ _ _ hne
  have hself : ∀ e, liveToken hash (Sso.perform P out
      (.setKeepTtl (.resetToken hash) ⟨record.sub, record.attempts + 1⟩) s).2 = some e →
        e = ⟨⟨record.sub, record.attempts + 1⟩, old.deadline⟩ := by
    intro e he
    have hraw := (Option.filter_eq_some_iff.mp he).1
    have hentry : visible? s.redis s.clock (.resetToken hash) = some old := hold
    rw [Sso.perform_setKeepTtl, hentry] at hraw
    exact (Option.some.inj hraw).symm
  refine ⟨h.provenance.append hfresh hok, fun other e he => ?_, fun other => ?_⟩
  · rw [hother (.resetUser sub) nofun]
    by_cases heq : other = hash
    · subst heq
      rw [hself e he]
      exact h.pointed other old hold
    · have hne : Key.resetToken other ≠ .resetToken hash := fun h => heq (Key.resetToken.inj h)
      exact h.pointed other e (live_later (hother _ hne) le_rfl he)
  · by_cases heq : other = hash
    · subst heq
      have hwrites := (@count_nonwriting ι P calls log i (.setKeepTtl (.resetToken other)
        ⟨record.sub, record.attempts + 1⟩) (some ()) other rfl).trans
          (Nat.le_zero.mp h.passwords)
      refine ⟨hcounted.mono hleft.le, hwrites.le.trans (Nat.zero_le _), fun hnot => ?_,
        fun e he => ?_⟩
      · obtain ⟨e, he, hplaces⟩ := h.issued
        exact absurd ⟨e, List.mem_append_left _ he, hplaces⟩ hnot
      · rw [hself e he]
        exact ⟨h.owner, hcounted, hcounted.mono (Nat.le_sub_one_of_lt hleft), hwrites⟩
    · have hne : Key.resetToken other ≠ .resetToken hash := fun h => heq (Key.resetToken.inj h)
      have hnot : (calls i).hash? P ≠ some other := by
        rw [h.presented]
        exact fun hh => heq (Option.some.inj hh).symm
      exact (h.others other heq).append ⟨fun hh => absurd hh hnot,
        fun hc => absurd hc Bool.false_ne_true, nofun, hother _ hne, le_rfl⟩

theorem HeldToken.quiet {g : ResetPhase} (h : HeldToken P sub calls i g s log)
    (hg : g.critical = false) : QuietTokens P sub calls s log := by
  cases g with
  | holding hash record => exact h.1
  | before => exact h
  | drew hash => exact h
  | bumped => exact h
  | ended => exact h
  | renewing hash prev => cases hg
  | placing hash => cases hg
  | pointing hash => cases hg
  | refused hash record => cases hg
  | changed hash record => cases hg

/-- A failed attempt is written back only while its token is there. -/
def findsToken (s : Sso) (c : Command) : Prop :=
  ∀ hash record, c = .setKeepTtl (.resetToken hash) record → (liveToken hash s).isSome = true

theorem attempting_cases {g : ResetPhase} (h : g.attempting = some (hash, record)) :
    g = .holding hash record ∨ g = .refused hash record := by
  cases g with
  | holding hash record =>
    cases h
    exact .inl rfl
  | refused hash record =>
    cases h
    exact .inr rfl
  | _ => cases h

/-- A challenge is refused, or the token stays in hand. -/
theorem next_challenges {call : ResetCall} (hc : c.challenges = true) (r : Option c.Reply) :
    ResetPhase.next P call (.holding hash record) c r = .holding hash record ∨
      ResetPhase.next P call (.holding hash record) c r = .refused hash record := by
  have hjudged : ∀ b, ResetPhase.judged hash record b = .holding hash record ∨
      ResetPhase.judged hash record b = .refused hash record := by
    intro b
    cases b with
    | true => exact .inl rfl
    | false => exact .inr rfl
  cases c with
  | ask q =>
    cases q with
    | totp sub' code => exact hjudged _
    | _ => exact absurd hc Bool.false_ne_true
  | verifyAuthentication assertion challenge row => exact hjudged _
  | _ => exact absurd hc Bool.false_ne_true

/-- What a request past its lookup does keeps what is known. -/
theorem HeldToken.advance {g : ResetPhase}
    (hfresh : Function.Injective fun n => P.sha256 (P.randomBytes n))
    (hview : resetPhase P sub calls log i = g) (hread : g.unread = false)
    (hok : ResetOk P sub (calls i) g c) (hadmits : findsToken s c)
    (h : HeldToken P sub calls i g s log) :
    HeldToken P sub calls i (ResetPhase.next P (calls i) g c (Sso.perform P out c s).1)
      (Sso.perform P out c s).2 (log ++ [⟨i, c, (Sso.perform P out c s).1⟩]) := by
  have hok' : ResetOk P sub (calls i) (resetPhase P sub calls log i) c := hview ▸ hok
  cases hok with
  | besides hg hc =>
    have hbefore : g = .before → (calls i).hash? P ≠ none := by
      rintro rfl
      cases hread
    have hnext : ResetPhase.next P (calls i) g c (Sso.perform P out c s).1 = g :=
      @besides_next P sub (calls i) g hg c hc hbefore _
    rw [hnext]
    refine h.append hfresh hok' (spares_of_uses (besides_uses hc)) ?_
    rw [hview, hnext]
    exact id
  | lookup hpresented => cases hread
  | pointer => cases hread
  | drop =>
    exact Renewing.dropped hfresh hok' (congrArg (fun g => ResetPhase.next _ _ g _ _) hview) h
  | place => exact Renewing.place hfresh hview h
  | point => exact Renewing.point hfresh hview h
  | @challenge hash record c hc =>
    have hspares : Spares P out s c := spares_of_challenges hc
    have hwrites := (@count_nonwriting ι P calls log i c (Sso.perform P out c s).1 hash
      hspares.password).trans_le h.2.1.passwords
    rcases @next_challenges P c hash record (calls i) hc (Sso.perform P out c s).1 with hnext | hnext
    · rw [hnext]
      refine HeldToken.append hfresh hok' hspares ?_ h
      rw [hview, hnext]
      exact id
    · rw [hnext]
      exact h.2.1.own hfresh hok' hspares.place hspares.key h.2.1.counted.step h.2.2.step hwrites
  | @count g hash record hg hleft =>
    have hthere := hadmits hash _ rfl
    rcases attempting_cases hg with rfl | rfl
    · exact h.2.1.count hfresh hok' hthere hleft h.2.1.counted.step
    · refine OnToken.count hfresh hok' h hthere hleft (h.counted.append fun _ _ => ?_)
      rw [hview]
      trivial
  | @burn g hash record hg =>
    rcases attempting_cases hg with rfl | rfl
    · exact h.2.1.deleted hfresh hok' (Nat.zero_le _) h.2.2.step
    · refine OnToken.deleted hfresh hok' h (Nat.zero_le _) (h.challenges.append fun _ _ => ?_)
      rw [hview]
      trivial
  | @password hash record sub' passwordHash =>
    have hback : (ResetPhase.next P (calls i) (resetPhase P sub calls log i)
        (.setPassword sub' passwordHash) (some ())).failed →
          (resetPhase P sub calls log i).failed := by
      rw [hview]
      exact False.elim
    refine h.2.1.own hfresh hok' nofun (fun k hk => rfl) ?_ (h.2.1.challenges.append fun _ => hback)
      ?_
    · exact h.2.1.challenges.append fun _ => hback
    · rw [List.countP_append]
      exact Nat.add_le_add h.2.1.passwords List.countP_le_length
  | consume =>
    refine OnToken.deleted hfresh hok' h le_rfl (h.challenges.append fun _ => ?_)
    rw [hview]
    exact False.elim

section Later

variable (hkeys : s'.redis = s.redis) (hdraws : s'.draws = s.draws) (hclock : s.clock ≤ s'.clock)

include hkeys hdraws hclock

omit hkeys hclock in
theorem Provenance.later (h : Provenance P sub calls s log) : Provenance P sub calls s' log :=
  ⟨hdraws ▸ h.values, h.unique, h.placed⟩

theorem QuietTokens.later (h : QuietTokens P sub calls s log) : QuietTokens P sub calls s' log where
  provenance := h.provenance.later hdraws
  pointed := h.pointed.later (fun _ => congrFun hkeys _) (congrFun hkeys _) hclock
  tokens hash := (h.tokens hash).later hkeys hclock

theorem OnToken.later {challenges passwords : ℕ}
    (h : OnToken P sub calls i hash record challenges passwords s log) :
    OnToken P sub calls i hash record challenges passwords s' log where
  provenance := h.provenance.later hdraws
  pointed := h.pointed.later (fun _ => congrFun hkeys _) (congrFun hkeys _) hclock
  others other hother := (h.others other hother).later hkeys hclock
  presented := h.presented
  issued := h.issued
  owner := h.owner
  named := by
    rw [hkeys]
    exact h.named
  counted := h.counted
  challenges := h.challenges
  passwords := h.passwords

theorem Renewing.later {live live' : Digest → Stored ResetTokenRecord → Prop}
    (h : Renewing P sub calls s log live) (hlive : ∀ hash e, live hash e → live' hash e) :
    Renewing P sub calls s' log live' where
  provenance := h.provenance.later hdraws
  tokens hash := (h.tokens hash).later hkeys hclock
  live hash e he := hlive hash e (h.live hash e (live_later (congrFun hkeys _) hclock he))

theorem HeldToken.later {g : ResetPhase} (h : HeldToken P sub calls i g s log) :
    HeldToken P sub calls i g s' log := by
  cases g with
  | renewing hash prev => exact Renewing.later hkeys hdraws hclock h fun _ _ hl => hl
  | placing hash => exact Renewing.later hkeys hdraws hclock h fun _ _ hl => hl
  | pointing hash =>
    refine Renewing.later hkeys hdraws hclock h fun other e hl => ?_
    obtain ⟨hother, d, hdeadline, hle⟩ := hl
    exact ⟨hother, d, hdeadline, hle.trans (by omega)⟩
  | holding hash record =>
    exact ⟨h.1.later hkeys hdraws hclock, h.2.1.later hkeys hdraws hclock, h.2.2⟩
  | refused hash record => exact OnToken.later hkeys hdraws hclock h
  | changed hash record => exact OnToken.later hkeys hdraws hclock h
  | before => exact QuietTokens.later hkeys hdraws hclock h
  | drew hash => exact QuietTokens.later hkeys hdraws hclock h
  | bumped => exact QuietTokens.later hkeys hdraws hclock h
  | ended => exact QuietTokens.later hkeys hdraws hclock h

end Later

theorem next_read {call : ResetCall} {g : ResetPhase} (hg : g.unread = false) :
    (ResetPhase.next P call g c r).unread = false := by
  have hanswered : ∀ {g : ResetPhase} {r : Option Unit}, g.unread = false →
      (ResetPhase.ifAnswered g r).unread = false := by
    intro g r hg
    cases r with
    | none => rfl
    | some _ => exact hg
  have hjudged : ∀ {hash record b}, (ResetPhase.judged hash record b).unread = false := by
    intro hash record b
    cases b <;> rfl
  unfold ResetPhase.next
  split
  all_goals first
    | rfl
    | exact hg
    | exact hjudged
    | exact hanswered rfl
    | cases hg

theorem failed_read {g : ResetPhase} (h : g.failed) : g.unread = false := by
  cases g with
  | refused hash record => rfl
  | bumped => rfl
  | _ => exact h.elim

/-- Before a token is read, only reading one gets a request on. -/
theorem besides_unread {call : ResetCall} {g : ResetPhase} (hg : g.unread = true)
    (hc : c.besides = true) (r : Option c.Reply) :
    (ResetPhase.next P call g c r).unread = true := by
  cases g with
  | before =>
    cases c with
    | randomBytes =>
      show (ResetPhase.drawn P call r).unread = true
      unfold ResetPhase.drawn
      split
      · split <;> rfl
      · rfl
    | _ => first | rfl | exact absurd hc Bool.false_ne_true
  | drew hash =>
    cases c with
    | _ => first | rfl | exact absurd hc Bool.false_ne_true
  | _ => cases hg

/-- A step that does not use the tokens and does not read one spares them. -/
theorem spares_of_ok {g : ResetPhase} (hview : resetPhase P sub calls log i = g)
    (hok : ResetOk P sub (calls i) g c) (huses : ¬ c.usesReset = true)
    (hread : (ResetPhase.next P (calls i) g c (Sso.perform P out c s).1).unread = false →
      g.unread = false) :
    Spares P out s c ∧ ((ResetPhase.next P (calls i) (resetPhase P sub calls log i) c
      (Sso.perform P out c s).1).failed → (resetPhase P sub calls log i).failed) := by
  refine ⟨spares_of_uses (eq_false_of_ne_true huses), fun hfailed => ?_⟩
  rw [hview] at hfailed ⊢
  rcases resetOk_cases hok with ⟨hg, -⟩ | ⟨hg, hc⟩ | ⟨-, hc⟩
  · rw [hread (failed_read hfailed)] at hg
    cases hg
  · have hpast := hread (failed_read hfailed)
    have hbefore : g = .before → (calls i).hash? P ≠ none := by
      rintro rfl
      cases hpast
    have hnext : ResetPhase.next P (calls i) g c (Sso.perform P out c s).1 = g :=
      @besides_next P sub (calls i) g hg c hc hbefore _
    rw [hnext] at hfailed
    exact hfailed
  · exact absurd hc huses

/-- The tokens of a user under the requests on them. -/
def resetDiscipline (P : Primitives) (sub : Uuid) (calls : ι → ResetCall)
    (hfresh : Function.Injective fun n => P.sha256 (P.randomBytes n)) :
    Discipline (ssoServer P) (resetProtocolOf P sub calls) (fun _ => .before)
      (fun _ : ι => resetPost) where
  reads c := c.readsReset = true
  writes _ c := c.usesReset = true
  holding g := g.unread = false
  critical g := g.critical = true
  admits := findsToken
  quiet := QuietTokens P sub calls
  held := HeldToken P sub calls
  unread_writes i g c hbefore hok := by
    rcases resetOk_cases hok with ⟨-, hc⟩ | ⟨-, hc⟩ | ⟨hg, -⟩
    · rw [reads_uses hc]
      exact Bool.false_ne_true
    · rw [besides_uses hc]
      exact Bool.false_ne_true
    · exact absurd hg hbefore
  enters i g c r hbefore hok hafter := by
    rcases resetOk_cases hok with ⟨-, hc⟩ | ⟨-, hc⟩ | ⟨hg, -⟩
    · exact hc
    · exact absurd (besides_unread (eq_true_of_ne_false hbefore) hc r)
        (ne_true_of_eq_false hafter)
    · exact absurd hg hbefore
  keeps i g c r hholding hok := next_read hholding
  critical_writes i g c hcritical hok := by
    rcases resetOk_cases hok with ⟨hg, -⟩ | ⟨hg, -⟩ | ⟨-, hc⟩
    · cases g with
      | before => exact absurd hcritical Bool.false_ne_true
      | drew hash => exact absurd hcritical Bool.false_ne_true
      | _ => cases hg
    · rw [hg] at hcritical
      exact absurd hcritical Bool.false_ne_true
    · exact hc
  critical_post i g a hcritical hpost := by
    rw [resetPost, hcritical] at hpost
    cases hpost
  release i g s log hholding hcritical hheld := hheld.quiet (eq_false_of_ne_true hcritical)
  enter i g c out s log hview hbefore hok hafter hquiet := by
    cases hok with
    | lookup hpresented =>
      exact @lookup_token ι _ P sub calls out s log i _ hfresh hview hpresented hquiet
    | pointer => exact @lookup_pointer ι _ P sub calls out s log i _ hfresh hview hquiet
    | besides hg hc =>
      exact absurd (besides_unread (eq_true_of_ne_false hbefore) hc _)
        (ne_true_of_eq_false hafter)
    | count hg hleft =>
      rcases attempting_cases hg with rfl | rfl
      · exact absurd rfl hbefore
      · exact absurd rfl hbefore
    | burn hg =>
      rcases attempting_cases hg with rfl | rfl
      · exact absurd rfl hbefore
      · exact absurd rfl hbefore
    | _ => exact absurd rfl hbefore
  advance i g c out s log hview hholding hok hadmits hheld :=
    hheld.advance hfresh hview hholding hok hadmits
  frame_quiet i g c out s log hview hok huses hread hquiet := by
    obtain ⟨hspares, hback⟩ := spares_of_ok hview hok huses hread
    have hok' : ResetOk P sub (calls i) (resetPhase P sub calls log i) c := by
      rw [resetPhase, hview]
      exact hok
    exact hquiet.append hfresh hok' hspares hback
  frame_held i j g h c out s log hij hview hok huses hread hholding hheld := by
    obtain ⟨hspares, hback⟩ := spares_of_ok hview hok huses hread
    have hok' : ResetOk P sub (calls i) (resetPhase P sub calls log i) c := by
      rw [resetPhase, hview]
      exact hok
    exact hheld.append hfresh hok' hspares hback
  drift_quiet e s s' log hdrift hquiet :=
    hquiet.later (Sso.drift_redis hdrift) (Sso.drift_draws hdrift) (Sso.drift_clock hdrift)
  drift_held i g e s s' log hdrift hholding hheld :=
    hheld.later (Sso.drift_redis hdrift) (Sso.drift_draws hdrift) (Sso.drift_clock hdrift)

theorem HeldToken.provenance {g : ResetPhase} (h : HeldToken P sub calls i g s log) :
    Provenance P sub calls s log := by
  cases g with
  | renewing hash prev => exact Renewing.provenance h
  | placing hash => exact Renewing.provenance h
  | pointing hash => exact Renewing.provenance h
  | holding hash record => exact h.1.provenance
  | refused hash record => exact OnToken.provenance h
  | changed hash record => exact OnToken.provenance h
  | before => exact QuietTokens.provenance h
  | drew hash => exact QuietTokens.provenance h
  | bumped => exact QuietTokens.provenance h
  | ended => exact QuietTokens.provenance h

/-- What holds of the tokens at any moment. -/
structure TokenBounds (P : Primitives) (sub : Uuid) (calls : ι → ResetCall) (s : Sso)
    (log : List (Entry ι Command Command.Reply)) : Prop where
  provenance : Provenance P sub calls s log
  challenges : ∀ hash, ChallengesWithin P sub calls hash log MAX_CHALLENGE_ATTEMPTS
  passwords : ∀ hash, log.countP (writesPassword P calls hash) ≤ 1
  live : ∀ hash hash', (liveToken hash s).isSome = true → (liveToken hash' s).isSome = true →
    hash = hash'

theorem Pointed.one (h : Pointed sub s) {hash' : Digest} (hlive : (liveToken hash s).isSome = true)
    (hlive' : (liveToken hash' s).isSome = true) : hash = hash' := by
  obtain ⟨e, he⟩ := Option.isSome_iff_exists.mp hlive
  obtain ⟨e', he'⟩ := Option.isSome_iff_exists.mp hlive'
  exact Option.some.inj ((h.get he).symm.trans (h.get he'))

theorem QuietTokens.bounds (h : QuietTokens P sub calls s log) : TokenBounds P sub calls s log :=
  ⟨h.provenance, fun hash => (h.tokens hash).challenges, fun hash => (h.tokens hash).passwords,
    fun _ _ hlive hlive' => h.pointed.one hlive hlive'⟩

theorem OnToken.bounds {challenges passwords : ℕ}
    (h : OnToken P sub calls i hash record challenges passwords s log) (hle : passwords ≤ 1) :
    TokenBounds P sub calls s log := by
  refine ⟨h.provenance, fun other => ?_, fun other => ?_,
    fun _ _ hlive hlive' => h.pointed.one hlive hlive'⟩
  · by_cases hother : other = hash
    · rw [hother]
      exact h.challenges
    · exact (h.others other hother).challenges
  · by_cases hother : other = hash
    · rw [hother]
      exact h.passwords.trans hle
    · exact (h.others other hother).passwords

theorem Renewing.bounds {live : Digest → Stored ResetTokenRecord → Prop}
    (h : Renewing P sub calls s log live)
    (hone : ∀ hash hash' e e', live hash e → live hash' e' → hash = hash') :
    TokenBounds P sub calls s log := by
  refine ⟨h.provenance, fun hash => (h.tokens hash).challenges,
    fun hash => (h.tokens hash).passwords, fun hash hash' hlive hlive' => ?_⟩
  obtain ⟨e, he⟩ := Option.isSome_iff_exists.mp hlive
  obtain ⟨e', he'⟩ := Option.isSome_iff_exists.mp hlive'
  exact hone hash hash' e e' (h.live hash e he) (h.live hash' e' he')

theorem HeldToken.bounds {g : ResetPhase} (h : HeldToken P sub calls i g s log) :
    TokenBounds P sub calls s log := by
  cases g with
  | renewing hash prev => exact Renewing.bounds h fun _ _ _ _ he he' => he.trans he'.symm
  | placing hash => exact Renewing.bounds h fun _ _ _ _ he => he.elim
  | pointing hash => exact Renewing.bounds h fun _ _ _ _ he he' => he.1.trans he'.1.symm
  | holding hash record => exact h.1.bounds
  | refused hash record => exact OnToken.bounds h (Nat.zero_le _)
  | changed hash record => exact OnToken.bounds h le_rfl
  | before => exact QuietTokens.bounds h
  | drew hash => exact QuietTokens.bounds h
  | bumped => exact QuietTokens.bounds h
  | ended => exact QuietTokens.bounds h

/-- A token that was issued and is not there any more. -/
def Gone (hash : Digest) (s : Sso) (log : List (Entry ι Command Command.Reply)) : Prop :=
  Issued hash log ∧ ExpiringStore.get s.redis s.clock (.resetToken hash) = none

/-- No step brings it back. -/
theorem Gone.act (h : Gone hash s log) (hprovenance : Provenance P sub calls s log)
    (hok : ResetOk P sub (calls i) (resetPhase P sub calls log i) c) (hadmits : findsToken s c) :
    Gone hash (Sso.perform P out c s).2 (log ++ [⟨i, c, (Sso.perform P out c s).1⟩]) := by
  obtain ⟨⟨e, he, hplaces⟩, hnone⟩ := h
  refine ⟨⟨e, List.mem_append_left _ he, hplaces⟩, ?_⟩
  have hdead : liveToken hash s = none := Option.map_eq_none_iff.mp hnone
  have hkept : (Sso.perform P out c s).2.redis (.resetToken hash) = s.redis (.resetToken hash) →
      ExpiringStore.get (Sso.perform P out c s).2.redis (Sso.perform P out c s).2.clock
        (.resetToken hash) = none := by
    intro hkey
    rw [get_congr hkey, Sso.perform_clock]
    exact hnone
  have hdel : ∀ keys, c = .del keys → ExpiringStore.get (Sso.perform P out c s).2.redis
      (Sso.perform P out c s).2.clock (.resetToken hash) = none := by
    rintro keys rfl
    by_cases hmem : .resetToken hash ∈ keys
    · exact get_of_none (Sso.perform_del hmem) _
    · exact hkept (del_of_notMem _ hmem)
  generalize hphase : resetPhase P sub calls log i = g at hok
  cases hok with
  | besides hg hc => exact hkept (Sso.perform_redis (uses_key rfl (besides_uses hc)))
  | lookup hpresented => exact hkept rfl
  | pointer => exact hkept rfl
  | drop => exact hdel _ rfl
  | @place hash' =>
    refine hkept (setEx_ne _ _ _ fun heq => ?_)
    rw [Key.resetToken.inj heq] at hplaces
    exact hprovenance.unissued hphase ⟨e, he, hplaces⟩
  | point => exact hkept (Sso.perform_redis rfl)
  | challenge hc =>
    have hspares : Spares P out s c := spares_of_challenges hc
    exact hkept (hspares.key _ rfl)
  | @count g hash' record' hg hleft =>
    refine hkept (setKeepTtl_ne _ _ _ fun heq => ?_)
    have hthere := hadmits hash' _ rfl
    rw [← Key.resetToken.inj heq, hdead] at hthere
    cases hthere
  | burn hg => exact hdel _ rfl
  | password => exact hkept rfl
  | consume => exact hdel _ rfl

omit [DecidableEq ι] in
theorem Gone.drift {e : Sso.Drift} (h : Gone hash s log) (hdrift : Sso.drift e s = some s') :
    Gone hash s' log := by
  refine ⟨h.1, ?_⟩
  rw [get_congr (congrFun (Sso.drift_redis hdrift) _)]
  exact get_later_none (Sso.drift_clock hdrift) h.2

def NoResetKeys (s : Sso) : Prop := ∀ k : Key, k.ofReset = true → s.redis k = none

def resetRuns (P : Primitives) (sub : Uuid) (calls : ι → ResetCall) :
    System (Config ι Command Command.Reply Sso Unit) (Move ι Outside Sso.Drift) :=
  (ssoServer P).system NoResetKeys fun i => (calls i).handler P sub

/-- Nothing is issued at the start. -/
theorem quiet_start (h : NoResetKeys s) : QuietTokens P sub calls s [] where
  provenance := ⟨fun _ _ ⟨_, hmem, _⟩ => absurd hmem List.not_mem_nil,
    fun _ _ _ ⟨_, hmem, _⟩ => absurd hmem List.not_mem_nil,
    fun _ he => absurd he List.not_mem_nil⟩
  pointed hash e he := by
    rw [liveToken, visible?_of_none (h _ rfl)] at he
    cases he
  tokens hash := by
    refine ⟨challenges_nil _, Nat.zero_le _, fun _ => ⟨h _ rfl, challenges_nil _, rfl⟩,
      fun e he => ?_⟩
    rw [liveToken, visible?_of_none (h _ rfl)] at he
    cases he

section Serial

variable {hfresh : Function.Injective fun n => P.sha256 (P.randomBytes n)}
  {cfg cfg' : Config ι Command Command.Reply Sso Unit}

theorem serial_bounds (h : (resetDiscipline P sub calls hfresh).Serial cfg) :
    TokenBounds P sub calls cfg.store cfg.log := by
  rcases h.quiet_or_held with hquiet | ⟨i, -, hheld⟩
  · exact QuietTokens.bounds hquiet
  · exact HeldToken.bounds hheld

theorem Gone.step {m : Move ι Outside Sso.Drift}
    (hserial : (resetDiscipline P sub calls hfresh).Serial cfg)
    (hgone : Gone hash cfg.store cfg.log) (hstep : (ssoServer P).step cfg m = some cfg')
    (hfinds : Admitted findsToken cfg m) : Gone hash cfg'.store cfg'.log := by
  cases m with
  | drift e =>
    obtain ⟨s, hdrift, rfl⟩ := Server.step_drift hstep
    exact hgone.drift hdrift
  | act i out =>
    obtain ⟨c, k, hprog, rfl⟩ := Server.step_act hstep
    have hobeys := hserial.obeys i
    rw [hprog] at hobeys
    exact hgone.act (serial_bounds hserial).provenance hobeys.1 (hfinds c k hprog)

end Serial

/-- The life of a user's reset tokens, in every run in which no request reads a
token or the pointer while another one that has read one may still use it, and in
which a failed attempt is written back only while its token is there: at most five
challenges fail and at most one password is written for each token, at most one
token is live, and one that has been deleted or has expired is never found again. -/
theorem reset_token_lifecycle (P : Primitives)
    (hfresh : Function.Injective fun n => P.sha256 (P.randomBytes n)) (sub : Uuid)
    (calls : ι → ResetCall) {start cfg cfg' : Config ι Command Command.Reply Sso Unit}
    {trace later : List (Event (Config ι Command Command.Reply Sso Unit)
      (Move ι Outside Sso.Drift))}
    (hstart : (resetRuns P sub calls).initial start)
    (hrun : Exec (resetRuns P sub calls) start trace cfg)
    (hlater : Exec (resetRuns P sub calls) cfg later cfg')
    (hguard : ∀ e ∈ trace ++ later, Undisturbed (fun c => c.readsReset = true)
      (fun _ c => c.usesReset = true) e.before e.label)
    (hfinds : ∀ e ∈ trace ++ later, Admitted findsToken e.before e.label) :
    (∀ hash, {i | FailedChallenge P sub calls hash cfg.log i}.encard ≤ MAX_CHALLENGE_ATTEMPTS) ∧
      (∀ hash, cfg.log.countP (writesPassword P calls hash) ≤ 1) ∧
      (∀ hash hash', (liveToken hash cfg.store).isSome = true →
        (liveToken hash' cfg.store).isSome = true → hash = hash') ∧
      ∀ hash, Gone hash cfg.store cfg.log →
        ExpiringStore.get cfg'.store.redis cfg'.store.clock (.resetToken hash) = none := by
  obtain ⟨hnone, hlog, hprograms⟩ := hstart
  have hserial : (resetDiscipline P sub calls hfresh).Serial cfg := by
    refine Discipline.Serial.run hrun (fun e he => hguard e (List.mem_append_left _ he))
      (fun e he => hfinds e (List.mem_append_left _ he))
      (Discipline.serial_start hlog ?_ ?_ (quiet_start hnone))
    · intro i
      rw [hprograms]
      exact resetCall_obeys (calls i)
    · intro i hholding
      cases hholding
  have hbounds := serial_bounds hserial
  refine ⟨hbounds.challenges, hbounds.passwords, hbounds.live, fun hash hgone => ?_⟩
  have hend : (resetDiscipline P sub calls hfresh).Serial cfg' ∧
      Gone hash cfg'.store cfg'.log := by
    refine @Exec.preserves_where _ _ _
      (fun cfg => (resetDiscipline P sub calls hfresh).Serial cfg ∧ Gone hash cfg.store cfg.log)
      (fun cfg m => Undisturbed (fun c => c.readsReset = true) (fun _ c => c.usesReset = true) cfg m ∧
        Admitted findsToken cfg m) ?_ _ _ _ hlater ?_ ⟨hserial, hgone⟩
    · intro cfg m cfg' h hok hstep
      exact ⟨h.1.step hstep hok.1 hok.2, h.2.step h.1 hstep hok.2⟩
    · intro e he
      exact ⟨hguard e (List.mem_append_right _ he), hfinds e (List.mem_append_right _ he)⟩
  exact hend.2.2

end Runs

section Interleaved

/-- Tokens as long as the routes accept them. -/
def longTokens : Primitives := { plainPrimitives with randomBytes := fun n => List.replicate 20 n }

theorem longTokens_fresh :
    Function.Injective fun n => longTokens.sha256 (longTokens.randomBytes n) := by
  intro n m h
  exact (List.replicate_right_inj (by decide)).mp h

/-- One user with an authenticator app and the second factor switched on. -/
def resetSso : Sso :=
  { oneCodeSso with
    redis := fun _ => none
    db := { oneCodeSso.db with
      oauthClients := (∅ : Table _ _).upsert (js "account") ⟨js "Account", none, none⟩ }
    loginColumns := (∅ : Table _ _).upsert (Uuid.numbered 1) ⟨true, none⟩
    totpCredentials := (∅ : Table _ _).upsert (Uuid.numbered 3) ⟨Uuid.numbered 1, true⟩ }

def firstToken : JsString := List.replicate 20 0

def resetBody : ResetBody where
  clientAssertionType := some (js "urn:ietf:params:oauth:client-assertion-type:jwt-bearer")
  clientAssertion := some (js "account")
  token := firstToken
  password := some (js "New-passw0rd")
  method := js "totp"
  code := js "123456"
  credential := none

/-- A link, and two confirmations of it. -/
def resetCalls : Fin 3 → ResetCall
  | 0 => .issue
  | _ => .confirm resetBody

def resetStart : Config (Fin 3) Command Command.Reply Sso Unit :=
  ⟨resetSso, [], fun i => (resetCalls i).handler longTokens (Uuid.numbered 1)⟩

/-- The authenticator code of the last confirmation is wrong. -/
def resetSteps (schedule : List (Fin 3)) : List (Move (Fin 3) Outside Sso.Drift) :=
  schedule.map fun i => .act i (if i = 2 then wrongTotp else agreeable)

def findsTokenCheck (s : Sso) : Command → Bool
  | .setKeepTtl (.resetToken hash) _ => (liveToken hash s).isSome
  | _ => true

theorem findsToken_of_check {s : Sso} {c : Command} (h : findsTokenCheck s c = true) :
    findsToken s c := by
  rintro hash record rfl
  exact h

/-- The token is there no more after it was issued. -/
def goneCheck (hash : Digest) (cfg : Config (Fin 3) Command Command.Reply Sso Unit) : Bool :=
  (cfg.log.any fun e => decide (e.command.places = some hash)) &&
    (get cfg.store.redis cfg.store.clock (.resetToken hash)).isNone

theorem gone_of_check {hash : Digest} {cfg : Config (Fin 3) Command Command.Reply Sso Unit}
    (h : goneCheck hash cfg = true) : Gone hash cfg.store cfg.log := by
  rw [goneCheck, Bool.and_eq_true] at h
  obtain ⟨e, he, hplaces⟩ := List.any_eq_true.mp h.1
  exact ⟨⟨e, he, of_decide_eq_true hplaces⟩, Option.isNone_iff_eq_none.mp h.2⟩

/-- A link, an attempt of each confirmation after the other: the first one uses the
link up, and the second one finds nothing. -/
theorem reset_token_lifecycle_oneAfterAnother :
    ∃ cfg cfg' trace later,
      Exec (resetRuns longTokens (Uuid.numbered 1) resetCalls) resetStart trace cfg ∧
        Exec (resetRuns longTokens (Uuid.numbered 1) resetCalls) cfg later cfg' ∧
        Gone firstToken cfg.store cfg.log ∧
        get cfg'.store.redis cfg'.store.clock (.resetToken firstToken) = none := by
  have hused : ((resetSteps (List.replicate 4 0 ++ List.replicate 14 1)).foldlM
      ((ssoServer longTokens).stepChecked findsTokenCheck) resetStart).any (fun cfg =>
        goneCheck firstToken cfg &&
          ((resetSteps [2, 2, 2, 2]).foldlM
            ((ssoServer longTokens).stepChecked findsTokenCheck) cfg).isSome) = true := by
    decide +kernel
  obtain ⟨cfg, hcfg, hend⟩ := (Option.any_eq_true ..).mp hused
  rw [Bool.and_eq_true] at hend
  obtain ⟨cfg', hcfg'⟩ := Option.isSome_iff_exists.mp hend.2
  obtain ⟨trace, hrun, hok⟩ := Server.exec_of_moves_checked hcfg NoResetKeys
    (fun i => (resetCalls i).handler longTokens (Uuid.numbered 1))
    (fun c => c.readsReset = true) (fun _ c => c.usesReset = true)
  obtain ⟨later, hlater, hok'⟩ := Server.exec_of_moves_checked hcfg' NoResetKeys
    (fun i => (resetCalls i).handler longTokens (Uuid.numbered 1))
    (fun c => c.readsReset = true) (fun _ c => c.usesReset = true)
  have hall : ∀ e ∈ trace ++ later, Undisturbed (fun c => c.readsReset = true)
      (fun _ c => c.usesReset = true) e.before e.label ∧
        Admitted (fun s c => findsTokenCheck s c = true) e.before e.label := by
    intro e he
    rcases List.mem_append.mp he with he | he
    · exact hok e he
    · exact hok' e he
  have hgone : Gone firstToken cfg.store cfg.log := gone_of_check hend.1
  obtain ⟨-, -, -, hlost⟩ := reset_token_lifecycle longTokens longTokens_fresh (Uuid.numbered 1)
    resetCalls ⟨fun _ _ => rfl, rfl, rfl⟩ hrun hlater (fun e he => (hall e he).1)
    fun e he => (hall e he).2.imp fun _ _ => findsToken_of_check
  exact ⟨cfg, cfg', trace, later, hrun, hlater, hgone, hlost firstToken hgone⟩

/-- The second confirmation has read the token before the first one uses it up, and
writes its failed attempt back afterwards: the used token is found again, and has
no expiry any more. -/
theorem used_token_restored :
    ∃ cfg cfg' trace later,
      Exec (resetRuns longTokens (Uuid.numbered 1) resetCalls) resetStart trace cfg ∧
        Exec (resetRuns longTokens (Uuid.numbered 1) resetCalls) cfg later cfg' ∧
        Gone firstToken cfg.store cfg.log ∧
        ∃ record, cfg'.store.redis (.resetToken firstToken) = some ⟨record, none⟩ := by
  have hused : ((resetSteps (List.replicate 4 0 ++ List.replicate 7 2 ++
      List.replicate 11 1)).foldlM (ssoServer longTokens).step resetStart).any (fun cfg =>
        goneCheck firstToken cfg &&
          ((resetSteps [2, 2]).foldlM (ssoServer longTokens).step cfg).any fun cfg' =>
            (cfg'.store.redis (.resetToken firstToken)).any fun e => e.deadline.isNone) = true := by
    decide +kernel
  obtain ⟨cfg, hcfg, hend⟩ := (Option.any_eq_true ..).mp hused
  rw [Bool.and_eq_true] at hend
  obtain ⟨cfg', hcfg', hfound⟩ := (Option.any_eq_true ..).mp hend.2
  obtain ⟨⟨record, deadline⟩, hstored, hforever⟩ := (Option.any_eq_true ..).mp hfound
  obtain ⟨trace, hrun⟩ := Server.exec_of_moves hcfg NoResetKeys
    fun i => (resetCalls i).handler longTokens (Uuid.numbered 1)
  obtain ⟨later, hlater⟩ := Server.exec_of_moves hcfg' NoResetKeys
    fun i => (resetCalls i).handler longTokens (Uuid.numbered 1)
  refine ⟨cfg, cfg', trace, later, hrun, hlater, gone_of_check hend.1, record, ?_⟩
  have hnone : deadline = none := Option.isNone_iff_eq_none.mp hforever
  rw [hstored, hnone]

end Interleaved

end DreamSso
