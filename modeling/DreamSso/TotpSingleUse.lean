import DreamSso.FactorStore
import DreamSso.Library.GuardedRuns

/-!
Concurrent verifications of TOTP codes. The marker of a credential only grows
while it is there, and it outlives every step that can still be claimed: a step
claimed within three minutes of its verification is too old to be accepted before
the marker that covers it lapses.
-/
namespace DreamSso.Factors

open Interleaving JsStrings KeyedTables Transitions

inductive TotpCall
  | login (sub : Uuid) (code : JsString)
  | confirm (sub id : Uuid) (code : JsString) (label : Option JsString)
  deriving DecidableEq

inductive TotpAnswer
  | login (valid : Bool)
  | confirm (result : Except String Unit)

def TotpCall.program (P : Primitives) : TotpCall → Handler TotpAnswer
  | .login sub code => do
      let valid ← verifyLoginTotp P sub code
      pure (.login valid)
  | .confirm sub id code label => do
      let result ← confirmAuthenticator P sub id code label
      pure (.confirm result)

/-- The clock in milliseconds is at most 30 seconds away from the 30 seconds of
the time step. -/
def StepWithin (timeStep : ℕ) (now : ℤ) : Prop :=
  30000 * (timeStep : ℤ) - 30000 ≤ now ∧ now ≤ 30000 * (timeStep : ℤ) + 60000

inductive ClaimPhase
  | idle
  | verified (verifiedAt : ℤ)
  | won
  deriving DecidableEq

def ClaimPhase.claimed : Option ℕ → ClaimPhase
  | some 1 => .won
  | _ => .idle

def Key.isStep : Key → Bool
  | .totpStep _ => true
  | _ => false

/-- The command may change a step marker. -/
def Command.writesStep : Command → Bool
  | .evalClaimStep _ _ => true
  | .expire k _ => k.isStep
  | .del keys => keys.any Key.isStep
  | .getdel k => k.isStep
  | _ => false

/-- The clock is read by the verification, and only a verified step is claimed. -/
def claimProtocol : Protocol Command Command.Reply ClaimPhase where
  next
    | .won, _, _ => .won
    | _, .dateNow, some now => .verified now
    | _, .evalClaimStep _ _, r => ClaimPhase.claimed r
    | g, _, _ => g
  ok
    | .verified verifiedAt, .evalClaimStep _ timeStep => StepWithin timeStep verifiedAt
    | _, c => c.writesStep = false

def loginPost (g : ClaimPhase) (a : Option Bool) : Prop := a = some true → g = .won

def claimPost (g : ClaimPhase) (a : Option TotpAnswer) : Prop :=
  a = some (.login true) → g = .won

section Program

variable {P : Primitives}

/-- The verified step is within 30 seconds, or there is nothing to claim. -/
theorem verifyToken_obeys {β : Type} {post : ClaimPhase → Option β → Prop}
    (hverify : ∀ token secret now timeStep, P.verifySync token secret now = some (some timeStep) →
      StepWithin timeStep now)
    {token secret : JsString} {f : Option ℕ → Handler β} {g : ClaimPhase} (hg : g ≠ .won)
    (hthrown : ∀ g', g' ≠ .won → post g' none)
    (hinvalid : ∀ verifiedAt, claimProtocol.Obeys post (.verified verifiedAt) (f none))
    (hvalid : ∀ verifiedAt timeStep, StepWithin timeStep verifiedAt →
      claimProtocol.Obeys post (.verified verifiedAt) (f (some timeStep))) :
    claimProtocol.Obeys post g (verifyToken P token secret >>= f) := by
  have hnext : ∀ now, claimProtocol.next g .dateNow (some now) = .verified now := by
    intro now
    cases g with
    | won => exact absurd rfl hg
    | idle => rfl
    | verified verifiedAt => rfl
  have hnone : claimProtocol.next g .dateNow none = g := by cases g <;> rfl
  have hok : claimProtocol.ok g .dateNow := by cases g <;> rfl
  unfold verifyToken await
  rw [Interleaving.Prog.bind_assoc]
  refine Protocol.obeys_await_bind.mpr ⟨hok, ?_, fun now => ?_⟩
  · rw [hnone]
    exact hthrown g hg
  · rw [hnext]
    cases hresult : P.verifySync token secret now with
    | none => exact hthrown _ fun h => by cases h
    | some valid =>
      cases valid with
      | none => exact hinvalid now
      | some timeStep => exact hvalid now timeStep (hverify _ _ _ _ hresult)

/-- What a claim leads to. -/
theorem claimed_cases (r : Option ℕ) :
    (r = some 1 ∧ ClaimPhase.claimed r = .won) ∨
      (r ≠ some 1 ∧ ClaimPhase.claimed r = .idle) := by
  by_cases h : r = some 1
  · subst h
    exact .inl ⟨rfl, rfl⟩
  · refine .inr ⟨h, ?_⟩
    unfold ClaimPhase.claimed
    split
    · exact absurd rfl h
    · rfl

theorem claimed_ne_verified (r : Option ℕ) (verifiedAt : ℤ) :
    ClaimPhase.claimed r ≠ .verified verifiedAt := by
  rcases claimed_cases r with ⟨-, h⟩ | ⟨-, h⟩ <;> rw [h] <;> exact fun h => by cases h

theorem claimTotpStep_obeys {β : Type} {post : ClaimPhase → Option β → Prop} {id : Uuid}
    {timeStep : ℕ} {verifiedAt : ℤ} {f : Bool → Handler β} (hstep : StepWithin timeStep verifiedAt)
    (hthrown : post .idle none) (hwon : claimProtocol.Obeys post .won (f true))
    (hlost : claimProtocol.Obeys post .idle (f false)) :
    claimProtocol.Obeys post (.verified verifiedAt) (claimTotpStep id timeStep >>= f) := by
  unfold claimTotpStep await
  rw [Interleaving.Prog.bind_assoc]
  refine Protocol.obeys_await_bind.mpr ⟨hstep, hthrown, fun r => ?_⟩
  rcases claimed_cases (some r) with ⟨hr, hphase⟩ | ⟨hr, hphase⟩
  · obtain rfl := Option.some.inj hr
    exact hwon
  · have hne : r ≠ 1 := fun h => hr (congrArg some h)
    show claimProtocol.Obeys post (ClaimPhase.claimed (some r)) (f (decide (r = 1)))
    rw [hphase, decide_eq_false hne]
    exact hlost

/-- `verifyLoginTotp` returns true only past a claim it has won. -/
theorem tryCredentials_obeys
    (hverify : ∀ token secret now timeStep, P.verifySync token secret now = some (some timeStep) →
      StepWithin timeStep now)
    (code : JsString) (rows : List (Uuid × JsString)) {g : ClaimPhase} (hg : g ≠ .won) :
    claimProtocol.Obeys loginPost g (tryCredentials P code rows) := by
  have hfailed : ∀ g : ClaimPhase, loginPost g none := fun _ h => by cases h
  induction rows generalizing g with
  | nil =>
    intro h
    cases h
  | cons row rest ih =>
    obtain ⟨id, enc⟩ := row
    unfold tryCredentials
    split
    · exact ih hg
    · apply verifyToken_obeys hverify hg
      · intro g' _
        exact hfailed g'
      · intro verifiedAt
        exact ih fun h => by cases h
      · intro verifiedAt timeStep hstep
        apply claimTotpStep_obeys hstep
        · exact hfailed _
        · -- the step is won: touch the credential and return true
          exact Protocol.obeys_await_bind.mpr ⟨rfl, hfailed _, fun _ _ => rfl⟩
        · exact ih fun h => by cases h

theorem verifyLoginTotp_obeys
    (hverify : ∀ token secret now timeStep, P.verifySync token secret now = some (some timeStep) →
      StepWithin timeStep now) (sub : Uuid) (code : JsString) :
    claimProtocol.Obeys loginPost .idle (verifyLoginTotp P sub code) := by
  unfold verifyLoginTotp
  split_ifs
  · intro h
    cases h
  · refine Protocol.obeys_await_bind.mpr ⟨rfl, (fun h => by cases h), fun rows => ?_⟩
    exact tryCredentials_obeys hverify code rows fun h => by cases h

theorem confirmAuthenticator_obeys
    (hverify : ∀ token secret now timeStep, P.verifySync token secret now = some (some timeStep) →
      StepWithin timeStep now) (sub id : Uuid) (code : JsString) (label : Option JsString) :
    claimProtocol.Obeys (fun _ _ => True) .idle (confirmAuthenticator P sub id code label) := by
  refine Protocol.obeys_await_bind.mpr ⟨rfl, trivial, fun found => ?_⟩
  cases found with
  | none => trivial
  | some enc =>
    cases hsecret : P.openSecret enc with
    | none =>
      simp only [hsecret]
      trivial
    | some secret =>
      simp only [hsecret]
      apply verifyToken_obeys hverify (fun h => by cases h)
      · exact fun _ _ => trivial
      · exact fun _ => trivial
      · intro verifiedAt timeStep hstep
        apply claimTotpStep_obeys hstep
        · trivial
        · exact Protocol.obeys_await_bind.mpr ⟨rfl, trivial, fun _ => trivial⟩
        · exact Protocol.obeys_await_bind.mpr ⟨rfl, trivial, fun _ => trivial⟩

/-- Both functions claim only what they have verified. -/
theorem program_obeys
    (hverify : ∀ token secret now timeStep, P.verifySync token secret now = some (some timeStep) →
      StepWithin timeStep now) (call : TotpCall) :
    claimProtocol.Obeys claimPost .idle (call.program P) := by
  cases call with
  | login sub code =>
    refine Protocol.obeys_bind.mpr ((verifyLoginTotp_obeys hverify sub code).mono ?_)
    intro g a h
    cases a with
    | none => exact fun h => by cases h
    | some valid =>
      intro ha
      cases ha
      exact h rfl
  | confirm sub id code label =>
    refine Protocol.obeys_bind.mpr ((confirmAuthenticator_obeys hverify sub id code label).mono ?_)
    intro g a _
    cases a <;> exact fun h => by cases h

end Program

section Runs

variable {ι : Type} [DecidableEq ι]

def totpRuns (P : Primitives) (calls : ι → TotpCall) :
    System (Config ι Command Command.Reply FactorDb TotpAnswer) (Move ι Outside ℕ) :=
  factorServer.system (fun s => ∀ id, s.redis (.totpStep id) = none) fun i => (calls i).program P

abbrev claimPhases (log : List (Entry ι Command Command.Reply)) (i : ι) : ClaimPhase :=
  phases (fun _ : ι => claimProtocol) (fun _ => .idle) log i

/-- A claim runs within three minutes of the verification it follows. -/
def claimsInTime (s : FactorDb) (g : ClaimPhase) : Command → Bool
  | .evalClaimStep _ _ => match g with
    | .verified verifiedAt => decide (s.clock ≤ verifiedAt + 180000)
    | _ => true
  | _ => true

def promptly : Condition ι Command Command.Reply FactorDb ℕ where
  act s log i c := claimsInTime s (claimPhases log i) c = true
  drift _ _ _ := True

/-- The script has run for this credential and step, with either answer. -/
def FinishedClaim (id : Uuid) (timeStep : ℕ) (e : Entry ι Command Command.Reply) : Prop :=
  ∃ i r, e = ⟨i, .evalClaimStep id timeStep, some r⟩

/-- And has claimed the step. -/
def WonClaim (id : Uuid) (timeStep : ℕ) (e : Entry ι Command Command.Reply) : Prop :=
  ∃ i, e = ⟨i, .evalClaimStep id timeStep, some (1 : ℕ)⟩

/-- `verifyLoginTotp` has returned true because of the credential and step. -/
def TrueBecause (cfg : Config ι Command Command.Reply FactorDb TotpAnswer) (i : ι) (id : Uuid)
    (timeStep : ℕ) : Prop :=
  cfg.requests i = .done (.login true) ∧
    (⟨i, .evalClaimStep id timeStep, some (1 : ℕ)⟩ : Entry ι Command Command.Reply) ∈ cfg.log

/-- A claim that is won comes after claims of earlier steps only. -/
def Later (e e' : Entry ι Command Command.Reply) : Prop :=
  ∀ id timeStep timeStep', FinishedClaim id timeStep e → WonClaim id timeStep' e' →
    timeStep < timeStep'

/-- The markers of a store whose requests are where their phases say. -/
structure Markers (s : FactorDb) (log : List (Entry ι Command Command.Reply)) : Prop where
  clocked : ∀ i verifiedAt, claimPhases log i = .verified verifiedAt → verifiedAt ≤ s.clock
  lasting : ∀ id m, s.redis (.totpStep id) = some m →
    ∃ d, m.deadline = some d ∧ 30000 * (m.value : ℤ) + 270000 ≤ d
  covers : ∀ e ∈ log, ∀ id timeStep, FinishedClaim id timeStep e → 0 < timeStep →
    ∃ m, s.redis (.totpStep id) = some m ∧ timeStep ≤ m.value
  ordered : log.Pairwise Later

variable {s s' : FactorDb} {log : List (Entry ι Command Command.Reply)} {i : ι} {c : Command}
  {out : Outside}

theorem ne_of_not_isStep {k : Key} (h : k.isStep = false) (id : Uuid) : Key.totpStep id ≠ k := by
  rintro rfl
  cases h

theorem perform_step (h : c.writesStep = false) (id : Uuid) :
    (FactorDb.perform out c s).2.redis (.totpStep id) = s.redis (.totpStep id) := by
  cases c with
  | evalClaimStep id timeStep => cases h
  | incr sub =>
    have hne : Key.totpStep id ≠ .stepupFail sub := fun h => by cases h
    exact ExpiringStore.setKeepTtl_ne s.redis s.clock (s.incr sub).1 hne
  | expire k ttl => exact ExpiringStore.expire_ne _ _ _ (ne_of_not_isStep h id)
  | del keys =>
    refine ExpiringStore.del_of_notMem _ fun hmem => ?_
    have hall := List.any_eq_false.mp h _ hmem
    exact hall rfl
  | getdel k =>
    refine ExpiringStore.del_of_notMem _ fun hmem => ?_
    exact ne_of_not_isStep h id (List.mem_singleton.mp hmem)
  | _ => rfl

theorem next_verified {g : ClaimPhase} {verifiedAt : ℤ}
    (h : claimProtocol.next g c (FactorDb.perform out c s).1 = .verified verifiedAt) :
    g = .verified verifiedAt ∨ verifiedAt = s.clock := by
  cases g with
  | won => cases h
  | idle =>
    cases c with
    | dateNow => exact .inr (ClaimPhase.verified.inj h).symm
    | evalClaimStep id timeStep => exact absurd h (claimed_ne_verified _ _)
    | _ => cases h
  | verified before =>
    cases c with
    | dateNow => exact .inr (ClaimPhase.verified.inj h).symm
    | evalClaimStep id timeStep => exact absurd h (claimed_ne_verified _ _)
    | _ => exact .inl h

omit [DecidableEq ι] in
/-- Only a claim that is won leads past the other phases. -/
theorem won_of_next {g : ClaimPhase} {r : Option c.Reply} (hg : ¬ g = .won)
    (h : claimProtocol.next g c r = .won) : ∃ id timeStep, WonClaim id timeStep
      (⟨i, c, r⟩ : Entry ι Command Command.Reply) := by
  have hclaim : ∀ id timeStep (r : Option ℕ), ClaimPhase.claimed r = .won →
      WonClaim id timeStep (⟨i, .evalClaimStep id timeStep, r⟩ : Entry ι Command Command.Reply) := by
    intro id timeStep r hr
    rcases claimed_cases r with ⟨rfl, -⟩ | ⟨-, hidle⟩
    · exact ⟨i, rfl⟩
    · rw [hidle] at hr
      cases hr
  cases g with
  | won => exact absurd rfl hg
  | idle =>
    cases c with
    | evalClaimStep id timeStep => exact ⟨id, timeStep, hclaim _ _ _ h⟩
    | dateNow => cases r <;> cases h
    | _ => cases h
  | verified verifiedAt =>
    cases c with
    | evalClaimStep id timeStep => exact ⟨id, timeStep, hclaim _ _ _ h⟩
    | dateNow => cases r <;> cases h
    | _ => cases h

/-- A claim wins exactly the steps past the marker, and sets it to them. -/
theorem claimStep_cases (s : FactorDb) (id : Uuid) (timeStep : ℕ) :
    ((ExpiringStore.get s.redis s.clock (.totpStep id)).getD 0 < timeStep ∧
        (s.claimStep id timeStep).1 = 1 ∧
        (s.claimStep id timeStep).2.redis = ExpiringStore.setEx s.redis (.totpStep id) timeStep
          (s.clock + 300000)) ∨
      (timeStep ≤ (ExpiringStore.get s.redis s.clock (.totpStep id)).getD 0 ∧
        s.claimStep id timeStep = (0, s)) := by
  by_cases h : (ExpiringStore.get s.redis s.clock (.totpStep id)).getD 0 < timeStep
  · exact .inl ⟨h, congrArg Prod.fst (if_pos h),
      congrArg (fun p : ℕ × FactorDb => p.2.redis) (if_pos h)⟩
  · exact .inr ⟨Nat.le_of_not_lt h, if_neg h⟩

/-- A step verified three minutes ago is past every marker that has lapsed. -/
theorem Markers.fresh (h : Markers s log) {id : Uuid} {timeStep : ℕ} {verifiedAt : ℤ}
    (hstep : StepWithin timeStep verifiedAt) (hin : s.clock ≤ verifiedAt + 180000)
    (hcur : (ExpiringStore.get s.redis s.clock (.totpStep id)).getD 0 < timeStep)
    {m : ExpiringStore.Stored ℕ} (hm : s.redis (.totpStep id) = some m) : m.value < timeStep := by
  obtain ⟨d, hd, hlast⟩ := h.lasting id m hm
  obtain ⟨-, hlate⟩ := hstep
  by_cases hlive : s.clock < d
  · have hget : ExpiringStore.get s.redis s.clock (.totpStep id) = some m.value := by
      refine ExpiringStore.get_eq_some_iff.mpr ⟨m, hm, rfl, fun d' hd' => ?_⟩
      rw [hd] at hd'
      cases hd'
      exact hlive
    rw [hget] at hcur
    exact hcur
  · omega

omit [DecidableEq ι] in
theorem pairwise_append_one {R : Entry ι Command Command.Reply → Entry ι Command Command.Reply → Prop}
    {log : List (Entry ι Command Command.Reply)} {e : Entry ι Command Command.Reply}
    (h : log.Pairwise R) (he : ∀ e' ∈ log, R e' e) : (log ++ [e]).Pairwise R := by
  refine List.pairwise_append.mpr ⟨h, List.pairwise_singleton _ _, fun a ha b hb => ?_⟩
  rw [List.mem_singleton.mp hb]
  exact he a ha

/-- A command that claims nothing. -/
theorem Markers.aside (h : Markers s log) (hc : c.writesStep = false) :
    Markers (FactorDb.perform out c s).2 (log ++ [⟨i, c, (FactorDb.perform out c s).1⟩]) := by
  have hnot : ∀ id timeStep r, (⟨i, c, (FactorDb.perform out c s).1⟩ : Entry ι _ _) ≠
      ⟨i, .evalClaimStep id timeStep, r⟩ := by
    intro id timeStep r heq
    rw [(Entry.mk.inj heq).2.1] at hc
    cases hc
  have hfinished : ∀ id timeStep,
      ¬ FinishedClaim id timeStep (⟨i, c, (FactorDb.perform out c s).1⟩ : Entry ι _ _) := by
    rintro id timeStep ⟨j, r, heq⟩
    obtain rfl := (Entry.mk.inj heq).1
    exact hnot _ _ _ heq
  refine ⟨?_, ?_, ?_, ?_⟩
  · intro j verifiedAt hj
    rw [FactorDb.perform_clock]
    by_cases hij : i = j
    · subst hij
      rw [claimPhases, phases_self] at hj
      rcases next_verified hj with hold | hnow
      · exact h.clocked i verifiedAt hold
      · exact le_of_eq hnow
    · rw [claimPhases, phases_other hij] at hj
      exact h.clocked j verifiedAt hj
  · intro id m hm
    rw [perform_step hc] at hm
    exact h.lasting id m hm
  · intro e he id timeStep hdone hpos
    rw [perform_step hc]
    rcases List.mem_append.mp he with hold | hnew
    · exact h.covers e hold id timeStep hdone hpos
    · rw [List.mem_singleton.mp hnew] at hdone
      exact absurd hdone (hfinished id timeStep)
  · refine pairwise_append_one h.ordered fun e _ id timeStep timeStep' _ hwon => ?_
    obtain ⟨j, heq⟩ := hwon
    exact absurd ⟨j, 1, heq⟩ (hfinished id timeStep')

/-- A claim that has been answered. -/
theorem Markers.claim (h : Markers s log) {id : Uuid} {timeStep : ℕ} {verifiedAt : ℤ}
    (hview : claimPhases log i = .verified verifiedAt) (hstep : StepWithin timeStep verifiedAt)
    (hin : s.clock ≤ verifiedAt + 180000) :
    Markers (s.claimStep id timeStep).2
      (log ++ [⟨i, .evalClaimStep id timeStep, some (s.claimStep id timeStep).1⟩]) := by
  have hclocked : ∀ j at' (r : ℕ), claimPhases (log ++ [⟨i, .evalClaimStep id timeStep, some r⟩]) j =
      .verified at' → at' ≤ s.clock := by
    intro j at' r hj
    by_cases hij : i = j
    · subst hij
      rw [claimPhases, phases_self] at hj
      change claimProtocol.next (claimPhases log i) _ _ = _ at hj
      rw [hview] at hj
      exact absurd hj (claimed_ne_verified _ _)
    · rw [claimPhases, phases_other hij] at hj
      exact h.clocked j at' hj
  have hsame : ∀ {id' step' j} {r : ℕ}, FinishedClaim id' step'
      (⟨j, .evalClaimStep id timeStep, some r⟩ : Entry ι Command Command.Reply) →
        id' = id ∧ step' = timeStep := by
    rintro id' step' j r ⟨j', r', heq⟩
    have hc := (Entry.mk.inj heq).2.1
    cases hc
    exact ⟨rfl, rfl⟩
  rcases claimStep_cases s id timeStep with ⟨hcur, hreply, hredis⟩ | ⟨hcur, hnone⟩
  · -- the step is past the marker and becomes the marker
    have hclock := FactorDb.claimStep_clock s id timeStep
    rw [hreply]
    refine ⟨?_, ?_, ?_, ?_⟩
    · intro j at' hj
      rw [hclock]
      exact hclocked j at' 1 hj
    · intro id' m hm
      rw [hredis] at hm
      by_cases hid : id' = id
      · subst hid
        rw [ExpiringStore.setEx_self] at hm
        cases hm
        refine ⟨_, rfl, ?_⟩
        have := h.clocked i verifiedAt hview
        have := hstep.1
        show 30000 * (timeStep : ℤ) + 270000 ≤ s.clock + 300000
        omega
      · rw [ExpiringStore.setEx_ne _ _ _ fun hk => hid (Key.totpStep.inj hk)] at hm
        exact h.lasting id' m hm
    · intro e he id' step' hdone hpos
      rw [hredis]
      rcases List.mem_append.mp he with hold | hnew
      · obtain ⟨m, hm, hle⟩ := h.covers e hold id' step' hdone hpos
        by_cases hid : id' = id
        · subst hid
          have hlt := h.fresh hstep hin hcur hm
          refine ⟨_, ExpiringStore.setEx_self _ _ _ _, ?_⟩
          show step' ≤ timeStep
          omega
        · refine ⟨m, ?_, hle⟩
          rw [ExpiringStore.setEx_ne _ _ _ fun hk => hid (Key.totpStep.inj hk)]
          exact hm
      · rw [List.mem_singleton.mp hnew] at hdone
        obtain ⟨rfl, rfl⟩ := hsame hdone
        exact ⟨_, ExpiringStore.setEx_self _ _ _ _, le_rfl⟩
    · refine pairwise_append_one h.ordered fun e he id' step step' hdone hwon => ?_
      obtain ⟨j, heq⟩ := hwon
      obtain ⟨rfl, rfl⟩ := hsame ⟨j, 1, heq⟩
      by_cases hpos : 0 < step
      · obtain ⟨m, hm, hle⟩ := h.covers e he id' step hdone hpos
        have hlt := h.fresh hstep hin hcur hm
        omega
      · have : 0 < step' := by
          refine lt_of_le_of_lt (Nat.zero_le _) hcur
        omega
  · -- the marker stays
    rw [hnone]
    refine ⟨fun j at' hj => hclocked j at' 0 hj, h.lasting, ?_, ?_⟩
    · intro e he id' step' hdone hpos
      rcases List.mem_append.mp he with hold | hnew
      · exact h.covers e hold id' step' hdone hpos
      · rw [List.mem_singleton.mp hnew] at hdone
        obtain ⟨rfl, rfl⟩ := hsame hdone
        cases hget : ExpiringStore.get s.redis s.clock (.totpStep id') with
        | none =>
          rw [hget] at hcur
          exact absurd hpos (Nat.not_lt.mpr hcur)
        | some cur =>
          rw [hget] at hcur
          obtain ⟨m, hm, hvalue, -⟩ := ExpiringStore.get_eq_some_iff.mp hget
          exact ⟨m, hm, hvalue.symm ▸ hcur⟩
    · refine pairwise_append_one h.ordered fun e _ id' step step' _ hwon => ?_
      obtain ⟨j, heq⟩ := hwon
      have hreply := (Entry.mk.inj heq).2.2
      have hc := (Entry.mk.inj heq).2.1
      cases hc
      cases hreply

theorem Markers.act (h : Markers s log) (hok : claimProtocol.ok (claimPhases log i) c)
    (hin : claimsInTime s (claimPhases log i) c = true) :
    Markers (FactorDb.perform out c s).2 (log ++ [⟨i, c, (FactorDb.perform out c s).1⟩]) := by
  cases hphase : claimPhases log i with
  | verified verifiedAt =>
    rw [hphase] at hok hin
    cases c with
    | evalClaimStep id timeStep => exact h.claim hphase hok (of_decide_eq_true hin)
    | _ => exact h.aside hok
  | idle =>
    rw [hphase] at hok
    exact h.aside hok
  | won =>
    rw [hphase] at hok
    exact h.aside hok

/-- In every run that claims each step within three minutes of its verification,
`verifyLoginTotp` returns true at most once because of a credential and step, and
never because of a step that is not later than one whose claim had finished. -/
theorem totp_single_use (P : Primitives) (calls : ι → TotpCall)
    (hverify : ∀ token secret now timeStep, P.verifySync token secret now = some (some timeStep) →
      StepWithin timeStep now)
    {start cfg : Config ι Command Command.Reply FactorDb TotpAnswer}
    {trace : List (Event (Config ι Command Command.Reply FactorDb TotpAnswer) (Move ι Outside ℕ))}
    (hstart : (totpRuns P calls).initial start) (hrun : Exec (totpRuns P calls) start trace cfg)
    (hprompt : ∀ e ∈ trace, promptly.Meets e.before e.label) :
    (∀ i, cfg.requests i = .done (.login true) → ∃ id timeStep, TrueBecause cfg i id timeStep) ∧
      (∀ i j id timeStep, TrueBecause cfg i id timeStep → TrueBecause cfg j id timeStep → i = j) ∧
      ∀ earlier e later, cfg.log = earlier ++ e :: later → ∀ e' ∈ later, Later e e' := by
  obtain ⟨hempty, hlog, hprograms⟩ := hstart
  have hbegin : Markers start.store start.log := by
    rw [hlog]
    refine ⟨?_, ?_, ?_, List.Pairwise.nil⟩
    · intro i verifiedAt hi
      cases hi
    · intro id m hm
      rw [hempty] at hm
      cases hm
    · intro e he
      cases he
  obtain ⟨hmarkers, hobeys⟩ := Server.run_meeting (P := fun _ : ι => claimProtocol)
    (I := fun s log => Markers s log)
    (fun s log i c w h hok hin => h.act hok hin)
    (fun s s' log e h _ hdrift => by
      cases hdrift
      refine ⟨fun i v hi => ?_, h.lasting, h.covers, h.ordered⟩
      have := h.clocked i v hi
      show v ≤ s.clock + (e : ℤ)
      omega)
    hrun hprompt
    (fun i => by
      rw [hprograms, hlog]
      exact program_obeys hverify (calls i))
    hbegin
  have hordered : ∀ earlier e later, cfg.log = earlier ++ e :: later → ∀ e' ∈ later, Later e e' := by
    intro earlier e later heq e' he'
    have hpairs := hmarkers.ordered
    rw [heq] at hpairs
    exact List.rel_of_pairwise_cons (List.pairwise_append.mp hpairs).2.1 he'
  refine ⟨fun i hdone => ?_, fun i j id timeStep hi hj => ?_, hordered⟩
  · have hwon := hobeys i
    rw [hdone] at hwon
    obtain ⟨e, he, hwho, g, hbefore, hafter⟩ := @Protocol.view_entered ι _ _ _ _ claimProtocol
      (fun g => g = .won) .idle (fun h => by cases h) i cfg.log (hwon rfl)
    obtain ⟨who, c, r⟩ := e
    obtain rfl : who = i := hwho
    obtain ⟨id, timeStep, i, heq⟩ := won_of_next hbefore hafter
    obtain rfl := (Entry.mk.inj heq).1
    exact ⟨id, timeStep, hdone, heq ▸ he⟩
  · by_contra hij
    obtain ⟨earlier, later, heq⟩ := List.append_of_mem hi.2
    have hmem := hj.2
    rw [heq] at hmem
    rcases List.mem_append.mp hmem with hbefore | hafter
    · obtain ⟨first, second, hsplit⟩ := List.append_of_mem hbefore
      rw [hsplit, List.append_assoc, List.cons_append] at heq
      have := hordered _ _ _ heq _ (List.mem_append_right _ List.mem_cons_self) id timeStep
        timeStep ⟨j, 1, rfl⟩ ⟨i, rfl⟩
      omega
    · rcases List.mem_cons.mp hafter with hsame | hlater
      · exact hij (Entry.mk.inj hsame).1.symm
      · have := hordered _ _ _ heq _ hlater id timeStep timeStep ⟨i, 1, rfl⟩ ⟨j, rfl⟩
        omega

end Runs

section Interleaved

instance {ι : Type} [DecidableEq ι] (s : FactorDb) (log : List (Entry ι Command Command.Reply))
    (i : ι) (c : Command) : Decidable (promptly.act s log i c) :=
  inferInstanceAs (Decidable (_ = true))

instance {ι : Type} [DecidableEq ι] (s : FactorDb) (log : List (Entry ι Command Command.Reply))
    (e : ℕ) : Decidable ((promptly : Condition ι _ _ _ _).drift s log e) :=
  inferInstanceAs (Decidable True)

/-- One code, valid from 30 seconds before its step until 30 seconds after it. -/
def oneCode : Primitives where
  openSecret := some
  verifySync token _ now :=
    some (if token = js "123456" ∧ 0 ≤ now ∧ now < 90000 then some 1 else none)

theorem oneCode_within (token secret : JsString) (now : ℤ) (timeStep : ℕ)
    (h : oneCode.verifySync token secret now = some (some timeStep)) : StepWithin timeStep now := by
  simp only [oneCode, Option.some.injEq, Option.ite_none_right_eq_some] at h
  obtain ⟨⟨-, hlow, hhigh⟩, rfl⟩ := h
  constructor <;> omega

def oneCredential : FactorDb where
  clock := 45000
  redis := fun _ => none
  db := Db.empty
  sessions := ∅
  totpCredentials := Table.upsert ∅ (Uuid.numbered 2)
    ⟨Uuid.numbered 1, js "secret", none, some 0, 0, none⟩
  webauthnCredentials := ∅

def twoLogins : Bool → TotpCall := fun _ => .login (Uuid.numbered 1) (js "123456")

def loginsStart : Config Bool Command Command.Reply FactorDb TotpAnswer :=
  ⟨oneCredential, [], fun i => (twoLogins i).program oneCode⟩

def returnsTrue : Handler TotpAnswer → Bool
  | .done (.login true) => true
  | _ => false

theorem eq_of_returnsTrue {p : Handler TotpAnswer} (h : returnsTrue p = true) :
    p = .done (.login true) := by
  unfold returnsTrue at h
  split at h
  · rfl
  · cases h

/-- Two requests verify one code before either claims its step; one of them
returns true. -/
theorem totp_single_use_concurrent :
    ∃ start trace cfg id timeStep, (totpRuns oneCode twoLogins).initial start ∧
      Exec (totpRuns oneCode twoLogins) start trace cfg ∧ TrueBecause cfg true id timeStep ∧
      ∀ i, TrueBecause cfg i id timeStep → i = true := by
  have hrun : ((([false, false, true, true, true, false, true].map fun i =>
      (.act i ⟨fun _ => none⟩ : Move Bool Outside ℕ)).foldlM (factorServer.stepMeeting promptly)
        loginsStart).any fun cfg => returnsTrue (cfg.requests true)) = true := by
    decide +kernel
  obtain ⟨cfg, hcfg, hreturns⟩ := (Option.any_eq_true ..).mp hrun
  obtain ⟨trace, hexec, hprompt⟩ := Server.exec_of_moves_meeting hcfg
    (fun s => ∀ id, s.redis (.totpStep id) = none) fun i => (twoLogins i).program oneCode
  have hinitial : (totpRuns oneCode twoLogins).initial loginsStart := ⟨fun _ => rfl, rfl, rfl⟩
  have honce := totp_single_use oneCode twoLogins oneCode_within hinitial hexec hprompt
  obtain ⟨id, timeStep, htrue⟩ := honce.1 true (eq_of_returnsTrue hreturns)
  exact ⟨loginsStart, trace, cfg, id, timeStep, hinitial, hexec, htrue,
    fun i hi => honce.2.1 i true id timeStep hi htrue⟩

end Interleaved

end DreamSso.Factors
