import DreamSso.ResetRoutes
import DreamSso.Library.ExpiringCommands

/-!
Second factors: the TOTP and passkey tables, the step markers and the step-up
failure counter in Redis, and the functions of `mfa.ts` over them. A code is
verified against the clock of the verifying process; the marker of a credential
is compared and set by one script.
-/
namespace DreamSso.Factors

open Interleaving JsStrings KeyedTables

/-- `openSecret` and `verifySync`; both may throw. A code that is valid names its
time step. -/
structure Primitives where
  openSecret : JsString → Option JsString
  verifySync : (token secret : JsString) → (now : ℤ) → Option (Option ℕ)

structure TotpCredential where
  userSub : Uuid
  secretEnc : JsString
  label : Option JsString
  confirmedAt : Option ℤ
  createdAt : ℤ
  lastUsedAt : Option ℤ
  deriving DecidableEq

inductive Key
  | totpStep (credentialId : Uuid)
  | stepupFail (sub : Uuid)
  | stepupPasskey (sid : JsString)
  deriving DecidableEq

abbrev Key.Value : Key → Type
  | .totpStep _ => ℕ
  | .stepupFail _ => ℕ
  | .stepupPasskey _ => JsString

/-- What is decided by code whose own tables are not modelled here. -/
inductive Question
  | middleware (name : String)
  | passwordMatches (hash password : JsString)
  | loginAssertion (credential challenge : JsString) (sub : Uuid)
  | emailOtp (sub : Uuid) (purpose : String) (code : JsString)

abbrev Question.Answer : Question → Type
  | .middleware _ => Bool
  | .passwordMatches _ _ => Bool
  | .loginAssertion _ _ _ => Except String Uuid
  | .emailOtp _ _ _ => EmailOtpCheck

structure Outside where
  answer : (q : Question) → Option q.Answer

inductive Command
  -- Redis
  | evalClaimStep (credentialId : Uuid) (timeStep : ℕ)
  | incr (sub : Uuid)
  | expire (k : Key) (ttlSeconds : ℕ)
  | ttl (k : Key)
  | del (keys : List Key)
  | getdel (k : Key)
  -- reads
  | pendingSecret (id sub : Uuid)
  | confirmedSecrets (sub : Uuid)
  | strongFactorCount (sub : Uuid)
  | orgRoleRow (sub : Uuid)
  | roleEffects (sub : Uuid)
  | permissionOverrides (sub : Uuid)
  | sessionRow (sid : Uuid)
  | passwordHash (sub : Uuid)
  | emailVerified (sub : Uuid)
  -- writes
  | confirmCredential (id sub : Uuid) (label : Option JsString)
  | touchCredential (id : Uuid)
  | removeAuthenticator (sub id : Uuid)
  | removePasskey (sub id : Uuid)
  | stampStepup (sid : Uuid) (method : StepupMethod)
  -- neither
  | ask (q : Question)
  | dateNow

abbrev Command.Reply : Command → Type
  | .evalClaimStep _ _ => ℕ
  | .incr _ => ℕ
  | .expire _ _ => Unit
  | .ttl _ => ℤ
  | .del _ => Unit
  | .getdel k => Option k.Value
  | .pendingSecret _ _ => Option JsString
  | .confirmedSecrets _ => List (Uuid × JsString)
  | .strongFactorCount _ => ℕ
  | .orgRoleRow _ => Option (Slug × OrgRole)
  | .roleEffects _ => List (PermKey × Effect)
  | .permissionOverrides _ => List (PermKey × Effect)
  | .sessionRow _ => Option SessionRow
  | .passwordHash _ => Option (Option JsString)
  | .emailVerified _ => Option Bool
  | .confirmCredential _ _ _ => Unit
  | .touchCredential _ => Unit
  | .removeAuthenticator _ _ => ℕ
  | .removePasskey _ _ => ℕ
  | .stampStepup _ _ => Unit
  | .ask q => q.Answer
  | .dateNow => ℤ

structure FactorDb where
  clock : ℤ
  redis : ExpiringStore.Store Key Key.Value
  db : Db
  sessions : Table Uuid SessionRow
  totpCredentials : Table Uuid TotpCredential
  webauthnCredentials : Table Uuid PasskeyRow

def TOTP_STEP_TTL : ℕ := 300

def SETUP_TTL_MINUTES : ℕ := 15

namespace FactorDb

def milliseconds (seconds : ℕ) : ℤ := 1000 * seconds

/-- The script of `claimTotpStep`: SET only if the step is newer than the stored
one, an absent one counting as zero. -/
def claimStep (s : FactorDb) (credentialId : Uuid) (timeStep : ℕ) : ℕ × FactorDb :=
  let cur := (ExpiringStore.get s.redis s.clock (.totpStep credentialId)).getD 0
  let deadline := s.clock + milliseconds TOTP_STEP_TTL
  if cur < timeStep then
    (1, { s with redis := ExpiringStore.setEx s.redis (.totpStep credentialId) timeStep deadline })
  else (0, s)

/-- A confirmed TOTP credential of the user. -/
def isConfirmed (sub : Uuid) (r : TotpCredential) : Bool :=
  decide (r.userSub = sub) && r.confirmedAt.isSome

/-- A confirmed TOTP or a passkey. -/
def strongFactorCount (s : FactorDb) (sub : Uuid) : ℕ :=
  s.totpCredentials.rows.countP (fun r => isConfirmed sub r.2) +
    s.webauthnCredentials.rows.countP fun r => decide (r.2.userSub = sub)

/-- Only a row that is still in its setup window can be confirmed. -/
def pendingSecret (s : FactorDb) (id sub : Uuid) : Option JsString :=
  ((s.totpCredentials.find? id).filter fun r => decide (r.userSub = sub) && r.confirmedAt.isNone &&
    decide (s.clock - milliseconds (60 * SETUP_TTL_MINUTES) < r.createdAt)).map fun r => r.secretEnc

def confirmedSecrets (s : FactorDb) (sub : Uuid) : List (Uuid × JsString) :=
  (s.totpCredentials.rows.filter fun r => isConfirmed sub r.2).map fun r => (r.1, r.2.secretEnc)

def confirmCredential (s : FactorDb) (id sub : Uuid) (label : Option JsString) : FactorDb :=
  let named := fun (k : Uuid) (r : TotpCredential) => decide (k = id) && decide (r.userSub = sub)
  let confirm := fun (r : TotpCredential) =>
    { r with confirmedAt := some s.clock, label := label.or r.label }
  { s with totpCredentials := s.totpCredentials.updateWhere named fun _ => confirm }

def touchCredential (s : FactorDb) (id : Uuid) : FactorDb :=
  let touch := fun (r : TotpCredential) => { r with lastUsedAt := some s.clock }
  { s with
    totpCredentials := s.totpCredentials.updateWhere (fun k _ => decide (k = id)) fun _ => touch }

/-- DELETE FROM totp_credentials WHERE id = $1 AND user_sub = $2, confirmed or not. -/
def removeAuthenticator (s : FactorDb) (sub id : Uuid) : ℕ × FactorDb :=
  let named := fun (k : Uuid) (r : TotpCredential) => decide (k = id) && decide (r.userSub = sub)
  (s.totpCredentials.rows.countP fun r => named r.1 r.2,
    { s with totpCredentials := s.totpCredentials.deleteWhere named })

def removePasskey (s : FactorDb) (sub id : Uuid) : ℕ × FactorDb :=
  let named := fun (k : Uuid) (r : PasskeyRow) => decide (k = id) && decide (r.userSub = sub)
  (s.webauthnCredentials.rows.countP fun r => named r.1 r.2,
    { s with webauthnCredentials := s.webauthnCredentials.deleteWhere named })

def stampStepup (s : FactorDb) (sid : Uuid) (method : StepupMethod) : FactorDb :=
  let stamp := fun (r : SessionRow) =>
    { r with stepupAt := some s.clock, stepupMethod := some method }
  { s with sessions := s.sessions.updateWhere (fun k _ => decide (k = sid)) fun _ => stamp }

/-- The identity of a user who is not deleted. -/
def presentRow (s : FactorDb) (sub : Uuid) : Option Identity :=
  (s.db.identities.find? sub).filter Identity.present

def roleEffects (db : Db) (sub : Uuid) : List (PermKey × Effect) :=
  (db.rolePermissions.rows.filter fun r =>
    decide (db.userOrgRoles.find? sub = some r.1.1)).map fun r => (r.1.2, r.2)

def permissionOverrides (db : Db) (sub : Uuid) : List (PermKey × Effect) :=
  (db.userPermissionOverrides.rows.filter fun r => decide (r.1.1 = sub)).map fun r => (r.1.2, r.2)

def incr (s : FactorDb) (sub : Uuid) : ℕ × FactorDb :=
  let count := (ExpiringStore.get s.redis s.clock (.stepupFail sub)).getD 0 + 1
  (count, { s with redis := ExpiringStore.setKeepTtl s.redis s.clock (.stepupFail sub) count })

def perform (out : Outside) : (c : Command) → FactorDb → Option c.Reply × FactorDb
  | .evalClaimStep credentialId timeStep, s =>
      let claimed := s.claimStep credentialId timeStep
      (some claimed.1, claimed.2)
  | .incr sub, s =>
      let counted := s.incr sub
      (some counted.1, counted.2)
  | .expire k ttl, s => (some (), { s with
      redis := ExpiringStore.expire s.redis s.clock k (s.clock + milliseconds ttl) })
  | .ttl k, s => (some (ExpiringStore.ttl s.redis s.clock k), s)
  | .del keys, s => (some (), { s with redis := ExpiringStore.del s.redis keys })
  | .getdel k, s => (some (ExpiringStore.get s.redis s.clock k),
      { s with redis := ExpiringStore.del s.redis [k] })
  | .pendingSecret id sub, s => (some (s.pendingSecret id sub), s)
  | .confirmedSecrets sub, s => (some (s.confirmedSecrets sub), s)
  | .strongFactorCount sub, s => (some (s.strongFactorCount sub), s)
  | .orgRoleRow sub, s => (some (orgRoleOf s.db sub), s)
  | .roleEffects sub, s => (some (roleEffects s.db sub), s)
  | .permissionOverrides sub, s => (some (permissionOverrides s.db sub), s)
  | .sessionRow sid, s => (some (s.sessions.find? sid), s)
  | .passwordHash sub, s => (some ((s.presentRow sub).map Identity.passwordHash), s)
  | .emailVerified sub, s => (some ((s.presentRow sub).map Identity.emailVerified), s)
  | .confirmCredential id sub label, s => (some (), s.confirmCredential id sub label)
  | .touchCredential id, s => (some (), s.touchCredential id)
  | .removeAuthenticator sub id, s =>
      let removed := s.removeAuthenticator sub id
      (some removed.1, removed.2)
  | .removePasskey sub id, s =>
      let removed := s.removePasskey sub id
      (some removed.1, removed.2)
  | .stampStepup sid method, s => (some (), s.stampStepup sid method)
  | .ask q, s => (out.answer q, s)
  | .dateNow, s => (some s.clock, s)

/-- Time passes. -/
def drift (milliseconds : ℕ) (s : FactorDb) : Option FactorDb :=
  some { s with clock := s.clock + milliseconds }

theorem claimStep_clock (s : FactorDb) (id : Uuid) (timeStep : ℕ) :
    (s.claimStep id timeStep).2.clock = s.clock := by
  simp only [claimStep]
  split_ifs <;> rfl

/-- No command moves the clock. -/
theorem perform_clock (out : Outside) (c : Command) (s : FactorDb) :
    (perform out c s).2.clock = s.clock := by
  cases c with
  | evalClaimStep id timeStep => exact claimStep_clock s id timeStep
  | _ => rfl

end FactorDb

def factorServer : Server Command Command.Reply FactorDb Outside ℕ where
  perform := FactorDb.perform
  drift := FactorDb.drift

abbrev Handler := Prog Command Command.Reply

def await (c : Command) : Handler c.Reply := Prog.await c

def ask (q : Question) : Handler q.Answer := await (.ask q)

-- mfa.ts

def claimTotpStep (credentialId : Uuid) (timeStep : ℕ) : Handler Bool := do
  let r ← await (.evalClaimStep credentialId timeStep)
  pure (decide (r = 1))

/-- `verifySync` at the moment it is called. -/
def verifyToken (P : Primitives) (token secret : JsString) : Handler (Option ℕ) := do
  let now ← await .dateNow
  match P.verifySync token secret now with
  | none => .thrown
  | some valid => pure valid

/-- Confirms the pending row with a 6-digit code. The step is recorded whether or
not it was still free. -/
def confirmAuthenticator (P : Primitives) (sub id : Uuid) (code : JsString)
    (label : Option JsString) : Handler (Except String Unit) := do
  match ← await (.pendingSecret id sub) with
  | none => pure (.error "not_found")
  | some enc => match P.openSecret enc with
    | none => pure (.error "decrypt_failed")
    | some secret => do
        match ← verifyToken P code secret with
        | none => pure (.error "invalid_code")
        | some timeStep => do
            let _claimed ← claimTotpStep id timeStep
            await (.confirmCredential id sub label)
            pure (.ok ())

/-- The first credential that matches the code and whose step is still free. -/
def tryCredentials (P : Primitives) (code : JsString) : List (Uuid × JsString) → Handler Bool
  | [] => pure false
  | (id, enc) :: rest => match P.openSecret enc with
    | none => tryCredentials P code rest
    | some secret => do
        match ← verifyToken P code secret with
        | none => tryCredentials P code rest
        | some timeStep => do
            let claimed ← claimTotpStep id timeStep
            if claimed then do
              await (.touchCredential id)
              pure true
            else tryCredentials P code rest

def verifyLoginTotp (P : Primitives) (sub : Uuid) (code : JsString) : Handler Bool :=
  if isSixDigits code = false then pure false
  else do
    let rows ← await (.confirmedSecrets sub)
    tryCredentials P code rows

end DreamSso.Factors
