import DreamSso.FactorStore
import DreamSso.Library.AttemptWindows
import DreamSso.Library.GuardedRuns
import DreamSso.Library.JsConversions

/-!
POST /account/stepup/verify. An attempt of any method is counted before it is
verified, by INCR of one counter per user, which EXPIRE limits to its window when
it is created; a successful attempt deletes the counter. The look-ups of TOTP
codes are bounded in every run in which no time passes between the INCR and the
EXPIRE of a counter, a counter is deleted only while no code has been counted in
it, and it lapses only when every code counted has been looked up.
-/
namespace DreamSso.Factors

open AttemptWindows Interleaving JsConversions JsStrings KeyedTables Transitions

def MAX_FAILS : ℕ := 5

def FAIL_WINDOW : ℕ := 120

def STEPUP_OTP_PURPOSE : String := "stepup"

/-- The body. A method is a text or something else; a credential is an object or
something else. -/
structure VerifyBody where
  sid : JsString
  method : Option JsString
  code : JsString
  credential : Option JsString
  password : JsString
  deriving DecidableEq

inductive VerifyAnswer
  | tooMany (retryAfter : ℤ)
  | answered (response : Response)
  deriving DecidableEq

/-- What an attempt has come to. -/
structure Proof where
  method : StepupMethod
  verified : Bool
  reason : String

/-- `/^[0-9a-f-]{36}$/i` -/
def looksLikeSidAnyCase (sid : JsString) : Bool :=
  decide (sid.length = 36) && sid.all fun u => isDigitUnit u || decide (0x61 ≤ u ∧ u ≤ 0x66) ||
    decide (0x41 ≤ u ∧ u ≤ 0x46) || decide (u = 0x2d)

/-- A live session of the caller; a text that is no uuid makes the query fail. -/
def ownSession (sub : Uuid) (sid : JsString) : Handler (Option Uuid) :=
  if looksLikeSidAnyCase sid = false then pure none
  else match Uuid.parse? sid with
    | none => .thrown
    | some id => do
        let row ← await (.sessionRow id)
        pure ((row.filter fun r => decide (r.userSub = sub)).map fun _ => id)

/-- The count with this attempt; the first of a window sets its end. -/
def reserveAttempt (sub : Uuid) : Handler ℕ := do
  let attempt ← await (.incr sub)
  if attempt = 1 then do
    await (.expire (.stepupFail sub) FAIL_WINDOW)
    pure attempt
  else pure attempt

def proveTotp (P : Primitives) (sub : Uuid) (b : VerifyBody) : Handler (Except Refusal Proof) := do
  let verified ← verifyLoginTotp P sub (trim b.code)
  pure (.ok ⟨.totp, verified, "invalid_code"⟩)

/-- The challenge is consumed by any attempt. -/
def provePasskey (sub : Uuid) (b : VerifyBody) : Handler (Except Refusal Proof) := do
  let challenge ← await (.getdel (.stepupPasskey b.sid))
  match challenge.filter (fun c => decide (c ≠ [])), b.credential with
  | none, _ => pure (.error ⟨422, "challenge_expired", none⟩)
  | some _, none => pure (.error ⟨422, "credential_required", none⟩)
  | some challenge, some credential => do
      match ← ask (.loginAssertion credential challenge sub) with
      | .ok _ => pure (.ok ⟨.passkey, true, ""⟩)
      | .error reason => pure (.ok ⟨.passkey, false, reason⟩)

/-- A verification that throws is a wrong password. -/
def provePassword (sub : Uuid) (b : VerifyBody) : Handler (Except Refusal Proof) := do
  let row ← await (.passwordHash sub)
  match row.join.filter fun hash => decide (hash ≠ []) with
  | none => pure (.ok ⟨.password, false, "invalid_password"⟩)
  | some hash => do
      let matched ← (ask (.passwordMatches hash b.password)).attempt
      pure (.ok ⟨.password, matched.getD false, "invalid_password"⟩)

def proveEmail (sub : Uuid) (b : VerifyBody) : Handler (Except Refusal Proof) := do
  let row ← await (.emailVerified sub)
  if row.getD false = false then pure (.error ⟨422, "no_verified_email", none⟩)
  else do
    let r ← ask (.emailOtp sub STEPUP_OTP_PURPOSE (trim b.code))
    pure (.ok ⟨.email, decide (r = .valid), "invalid_code"⟩)

def prove (P : Primitives) (sub : Uuid) (b : VerifyBody) : Handler (Except Refusal Proof) :=
  if b.method = some (js "totp") then proveTotp P sub b
  else if b.method = some (js "passkey") then provePasskey sub b
  else if b.method = some (js "password") then provePassword sub b
  else if b.method = some (js "email") then proveEmail sub b
  else pure (.error ⟨422, "unsupported_method", none⟩)

/-- A failed attempt stays counted; a success stamps the session and deletes the
counter. -/
def settle (sub sid : Uuid) (b : VerifyBody) : Except Refusal Proof → Handler VerifyAnswer
  | .error refusal => pure (.answered (.failed refusal))
  | .ok proof =>
      if proof.verified = false then
        pure (.answered (.failed ⟨403, "verification_failed", some proof.reason⟩))
      else do
        await (.stampStepup sid proof.method)
        await (.del [.stepupFail sub, .stepupPasskey b.sid])
        pure (.answered .noContent)

/-- POST /account/stepup/verify, behind the scope. -/
def stepupVerify (P : Primitives) (sub : Uuid) (b : VerifyBody) : Handler VerifyAnswer := do
  match ← ownSession sub b.sid with
  | none => pure (.answered (.failed ⟨404, "not_found", none⟩))
  | some sid => do
      let attempt ← reserveAttempt sub
      if MAX_FAILS < attempt then do
        let ttl ← await (.ttl (.stepupFail sub))
        pure (.tooMany (if 0 < ttl then ttl else FAIL_WINDOW))
      else do
        let proof ← prove P sub b
        settle sub sid b proof

/-- The attempt is a code that will be looked up. -/
def VerifyBody.guesses (b : VerifyBody) : Bool :=
  decide (b.method = some (js "totp")) && isSixDigits (trim b.code)

/-- How far an attempt has come: not counted, the first of its window, counted and
to be looked up, or past that. -/
inductive GuessPhase
  | before
  | opening (guesses : Bool)
  | reserved
  | ended
  deriving DecidableEq

namespace GuessPhase

/-- The attempt holds a slot for a code that is still to be looked up. -/
def holdsSlot : GuessPhase → Bool
  | opening guesses => guesses
  | reserved => true
  | _ => false

def isOpening : GuessPhase → Bool
  | opening _ => true
  | _ => false

def admitted (guesses : Bool) : GuessPhase := if guesses then .reserved else .ended

def counted (guesses : Bool) : Option ℕ → GuessPhase
  | none => .ended
  | some n => if n = 1 then .opening guesses
      else if n ≤ MAX_FAILS then admitted guesses else .ended

end GuessPhase

/-- The command neither counts an attempt nor looks up its code. -/
def Command.afterwards (sub : Uuid) : Command → Prop
  | .incr _ => False
  | .expire _ _ => False
  | .confirmedSecrets _ => False
  | .getdel k => k ≠ .stepupFail sub
  | _ => True

def guessProtocol (sub : Uuid) (guesses : Bool) : Protocol Command Command.Reply GuessPhase where
  next
    | .before, .incr _, r => GuessPhase.counted guesses r
    | .opening guesses, .expire _ _, _ => GuessPhase.admitted guesses
    | .reserved, .confirmedSecrets _, _ => .ended
    | g, _, _ => g
  ok
    | .before, .sessionRow _ => True
    | .before, .incr sub' => sub' = sub
    | .opening _, .expire k ttlSeconds => k = .stepupFail sub ∧ ttlSeconds = FAIL_WINDOW
    | .reserved, .confirmedSecrets _ => True
    | .ended, c => c.afterwards sub
    | _, _ => False

/-- No request ends between the INCR that creates a counter and its EXPIRE. -/
def guessPost {α : Type} (g : GuessPhase) (_ : Option α) : Prop := g.isOpening = false

section Program

variable {P : Primitives} {sub : Uuid} {guesses : Bool} {b : VerifyBody}

theorem admitted_not_opening (guesses : Bool) : (GuessPhase.admitted guesses).isOpening = false := by
  cases guesses <;> rfl

theorem over_ok (c : Command) (h : c.afterwards sub) :
    (guessProtocol sub guesses).ok .ended c ∧ ∀ r, (guessProtocol sub guesses).next .ended c r = .ended :=
  ⟨h, fun _ => rfl⟩

/-- What only has commands of the end is allowed there. -/
theorem over_obeys {α : Type} {p : Handler α} (h : p.Only fun c => c.afterwards sub) :
    (guessProtocol sub guesses).Obeys guessPost .ended p :=
  Protocol.Obeys.of_only h over_ok fun _ => rfl

theorem tryCredentials_only (code : JsString) (rows : List (Uuid × JsString)) :
    (tryCredentials P code rows).Only fun c => c.afterwards sub := by
  induction rows with
  | nil => trivial
  | cons row rest ih =>
    obtain ⟨id, enc⟩ := row
    unfold tryCredentials
    split
    · exact ih
    · refine Prog.Only.bind (only_await_bind trivial fun now => ?_) fun found => ?_
      · split <;> trivial
      · cases found with
        | none => exact ih
        | some timeStep =>
          refine Prog.Only.bind (only_await_bind trivial fun _ => trivial) fun claimed => ?_
          cases claimed with
          | true => exact only_await_bind trivial fun _ => trivial
          | false => exact ih

theorem settle_only (sid : Uuid) (r : Except Refusal Proof) :
    (settle sub sid b r).Only fun c => c.afterwards sub := by
  cases r with
  | error refusal => trivial
  | ok proof =>
    show (ite (proof.verified = false) _ _ : Handler VerifyAnswer).Only _
    split_ifs
    · trivial
    · exact only_await_bind trivial fun _ => only_await_bind trivial fun _ => trivial

theorem provePasskey_only : (provePasskey sub b).Only fun c => c.afterwards sub := by
  refine only_await_bind (fun h => by cases h) fun challenge => ?_
  split
  · trivial
  · trivial
  · refine only_await_bind trivial fun answer => ?_
    cases answer <;> trivial

theorem provePassword_only : (provePassword sub b).Only fun c => c.afterwards sub := by
  refine only_await_bind trivial fun row => ?_
  split
  · trivial
  · exact Prog.Only.bind (only_attempt.mpr (only_await.mpr trivial)) fun _ => trivial

theorem proveEmail_only : (proveEmail sub b).Only fun c => c.afterwards sub := by
  refine only_await_bind trivial fun row => ?_
  split_ifs
  · trivial
  · exact only_await_bind trivial fun _ => trivial

/-- Only a TOTP attempt with six digits looks a code up. -/
theorem prove_settle_obeys (sid : Uuid) :
    (guessProtocol sub b.guesses).Obeys guessPost (GuessPhase.admitted b.guesses)
      (prove P sub b >>= settle sub sid b) := by
  unfold prove
  by_cases htotp : b.method = some (js "totp")
  · rw [if_pos htotp]
    unfold proveTotp verifyLoginTotp
    by_cases hsix : isSixDigits (trim b.code) = false
    · have hguesses : b.guesses = false := by rw [VerifyBody.guesses, hsix, Bool.and_false]
      rw [if_pos hsix, hguesses]
      exact over_obeys (settle_only (b := b) sid (.ok ⟨.totp, false, "invalid_code"⟩))
    · have hguesses : b.guesses = true := by
        rw [VerifyBody.guesses, decide_eq_true htotp, eq_true_of_ne_false hsix, Bool.and_true]
      rw [if_neg hsix, hguesses, Interleaving.Prog.bind_assoc, Interleaving.Prog.bind_assoc]
      refine Protocol.obeys_await_bind.mpr ⟨trivial, rfl, fun rows => ?_⟩
      exact over_obeys (Prog.Only.bind (tryCredentials_only _ rows) fun verified =>
        settle_only sid (.ok ⟨.totp, verified, "invalid_code"⟩))
  · have hguesses : b.guesses = false := by
      rw [VerifyBody.guesses, decide_eq_false htotp, Bool.false_and]
    rw [if_neg htotp, hguesses]
    refine over_obeys (Prog.Only.bind ?_ fun r => settle_only sid r)
    split_ifs
    · exact provePasskey_only
    · exact provePassword_only
    · exact proveEmail_only
    · trivial

theorem stepupVerify_obeys (b : VerifyBody) : (guessProtocol sub b.guesses).Obeys
    guessPost .before (stepupVerify P sub b) := by
  have hcounted : ∀ sid, (guessProtocol sub b.guesses).Obeys guessPost .before (do
      let attempt ← reserveAttempt sub
      if MAX_FAILS < attempt then do
        let ttl ← await (.ttl (.stepupFail sub))
        pure (.tooMany (if 0 < ttl then ttl else FAIL_WINDOW))
      else do
        let proof ← prove P sub b
        settle sub sid b proof : Handler VerifyAnswer) := by
    intro sid
    refine Protocol.obeys_bind.mpr (Protocol.obeys_await_bind.mpr ⟨rfl, rfl, fun n => ?_⟩)
    change ℕ at n
    show (guessProtocol sub b.guesses).Obeys _ (GuessPhase.counted b.guesses (some n)) _
    by_cases hfirst : n = 1
    · rw [if_pos hfirst, GuessPhase.counted, if_pos hfirst]
      refine Protocol.obeys_await_bind.mpr ⟨⟨rfl, rfl⟩, admitted_not_opening _, fun _ => ?_⟩
      have hcap : ¬ MAX_FAILS < n := by
        rw [hfirst]
        decide
      show (guessProtocol sub b.guesses).Obeys _ (GuessPhase.admitted b.guesses)
        (if MAX_FAILS < n then _ else _)
      rw [if_neg hcap]
      exact prove_settle_obeys sid
    · rw [if_neg hfirst, GuessPhase.counted, if_neg hfirst]
      show (guessProtocol sub b.guesses).Obeys _ _ (if MAX_FAILS < n then _ else _)
      by_cases hcap : n ≤ MAX_FAILS
      · rw [if_pos hcap, if_neg (by omega)]
        exact prove_settle_obeys sid
      · rw [if_neg hcap, if_pos (by omega)]
        exact over_obeys (only_await_bind trivial fun _ => trivial)
  unfold stepupVerify ownSession
  split_ifs
  · rfl
  split
  · rfl
  · refine Protocol.obeys_bind.mpr (Protocol.obeys_await_bind.mpr ⟨trivial, rfl, fun row => ?_⟩)
    generalize Option.map _ (Option.filter _ row) = found
    cases found with
    | none => rfl
    | some sid => exact hcounted sid

/-- What is left of a request in the opening phase begins with the EXPIRE. -/
theorem opening_program {α : Type} {p : Handler α} {g : GuessPhase}
    (h : (guessProtocol sub guesses).Obeys guessPost g p) (hg : g.isOpening = true) :
    ∃ k, p = .call (.expire (.stepupFail sub) FAIL_WINDOW) k := by
  have hnot : ¬ g.isOpening = false := by
    rw [hg]
    exact Bool.noConfusion
  cases p with
  | done a => exact absurd h hnot
  | thrown => exact absurd h hnot
  | call c k =>
    obtain ⟨hok, -⟩ := h
    cases g with
    | opening guesses =>
      cases c with
      | expire key ttlSeconds =>
        obtain ⟨rfl, rfl⟩ := hok
        exact ⟨k, rfl⟩
      | _ => cases hok
    | _ => cases hg

end Program

end DreamSso.Factors
