import DreamSso.PendingLinks
import DreamSso.ResetRoutes
import DreamSso.Library.SoloRuns

/-!
Registration with invitation codes. The row of a code remembers the address it is in
use for, the pending registration of an address remembers its code; each is written
and dropped by a command of its own. A completion checks that its code is live, creates
the account in one transaction and consumes the code afterwards.
-/
namespace DreamSso.Registration

open Interleaving JsConversions JsStrings

structure InviteRow where
  invitedRoleSlug : Option JsString
  expiresAt : ℤ
  useCount : ℕ
  pendingEmail : Option JsString
  pendingAt : Option ℤ
  usedBy : Option Uuid
  usedAt : Option ℤ
  voidedAt : Option ℤ
  clearAt : Option ℤ
  deriving DecidableEq

/-- A code usable at the start of a registration. -/
structure LiveInvite where
  code : JsString
  invitedRoleSlug : Option JsString
  useCount : ℕ
  pendingEmail : Option JsString
  deriving DecidableEq

structure Account where
  sub : Uuid
  username : JsString
  displayName : JsString
  email : JsString
  passwordHash : JsString
  roleSlug : JsString
  deriving DecidableEq

/-- What the routes ask of the settings, the limiter, the mail service and the
password hash. -/
inductive Question
  | portalAssertion
  | registrationEnabled
  | invitationRequired
  | emailConfigured
  | reserveSend (email : JsString)
  | releaseSend (email : JsString)
  | sendEmail (email token : JsString)
  | uuidv7
  | hashPassword (password : JsString)
  | mintLoginTicket (sub : Uuid)
  | defaultOrgRole

abbrev Question.Answer : Question → Type
  | .portalAssertion => Bool
  | .registrationEnabled => Bool
  | .invitationRequired => Bool
  | .emailConfigured => Bool
  | .reserveSend _ => Links.SendReservation
  | .releaseSend _ => Unit
  | .sendEmail _ _ => Bool
  | .uuidv7 => Uuid
  | .hashPassword _ => JsString
  | .mintLoginTicket _ => JsString
  | .defaultOrgRole => Option JsString

/-- How the transaction that creates an account ends. -/
inductive Creation
  | committed
  | duplicate
  | unavailable
  deriving DecidableEq

inductive Command
  | link (c : Links.Command)
  | ask (q : Question)
  | liveInvite (code : JsString)
  | touchInvite (code : JsString)
  | countUse (code email : JsString)
  | voidInvite (code : JsString)
  | consumeInvite (code : JsString) (sub : Uuid)
  | emailTaken (email : JsString)
  | duplicates (username email : JsString)
  | createAccount (sub : Uuid) (username displayName email passwordHash : JsString)
      (invitedRole : Option JsString)

/-- Whether another account has the username, and whether one has the address. -/
structure Duplicates where
  username : Bool
  email : Bool

abbrev Command.Reply : Command → Type
  | .link c => c.Reply
  | .ask q => q.Answer
  | .liveInvite _ => Option LiveInvite
  | .touchInvite _ => Unit
  | .countUse _ _ => Unit
  | .voidInvite _ => Unit
  | .consumeInvite _ _ => Bool
  | .emailTaken _ => Bool
  | .duplicates _ _ => Duplicates
  | .createAccount _ _ _ _ _ _ => Creation

structure Primitives extends Links.Primitives where
  toUpperCase : JsString → JsString
  citext : JsString → JsString

structure Outside where
  links : Links.Outside
  answer : (q : Question) → q.Answer
  /-- The lock of the role writers is granted in time. -/
  lockGranted : Bool

structure Db where
  links : Links.LinkDb
  invites : JsString → Option InviteRow
  accounts : List Account

def MAX_CODE_USES : ℕ := 3

def DAY : ℤ := 24 * 3600 * 1000

namespace Db

def clock (s : Db) : ℤ := s.links.clock

/-- A code that nobody has used, that is not voided and has not expired. -/
def usable (now : ℤ) (row : InviteRow) : Bool :=
  decide (row.usedBy = none ∧ row.voidedAt = none ∧ now < row.expiresAt)

def liveInvite (s : Db) (code : JsString) : Option LiveInvite :=
  ((s.invites code).filter (usable s.clock)).map fun row =>
    ⟨code, row.invitedRoleSlug, row.useCount, row.pendingEmail⟩

/-- `UPDATE` of the row of a code, where it matches. -/
def updateInvite (s : Db) (code : JsString) (matching : InviteRow → Bool) (f : InviteRow → InviteRow) :
    Db :=
  let row := (s.invites code).map fun row => if matching row then f row else row
  { s with invites := Function.update s.invites code row }

def touchInvite (s : Db) (code : JsString) : Db :=
  s.updateInvite code (fun _ => true) fun row => { row with pendingAt := some s.clock }

def countUse (s : Db) (code email : JsString) : Db :=
  s.updateInvite code (fun _ => true) fun row =>
    { row with useCount := row.useCount + 1, pendingEmail := some email, pendingAt := some s.clock }

def open_ (row : InviteRow) : Bool := decide (row.usedBy = none ∧ row.voidedAt = none)

def voidInvite (s : Db) (code : JsString) : Db :=
  s.updateInvite code open_ fun row =>
    { row with voidedAt := some s.clock, clearAt := some (s.clock + DAY), pendingEmail := none,
               pendingAt := none }

def consumeInvite (s : Db) (code : JsString) (sub : Uuid) : Db :=
  s.updateInvite code open_ fun row =>
    { row with usedBy := some sub, usedAt := some s.clock, clearAt := none, pendingEmail := none,
               pendingAt := none }

def hasUsername (P : Primitives) (s : Db) (username : JsString) : Bool :=
  s.accounts.any fun a => decide (P.citext a.username = P.citext username)

def hasEmail (P : Primitives) (s : Db) (email : JsString) : Bool :=
  s.accounts.any fun a => decide (P.citext a.email = P.citext email)

/-- The invited role, else the default one of the organisation. -/
def resolveRegistrationRole (out : Outside) (invitedRole : Option JsString) : JsString :=
  match invitedRole.filter fun slug => decide (slug ≠ []) with
  | some slug => slug
  | none =>
      ((out.answer .defaultOrgRole).filter fun slug => decide (slug ≠ [])).getD (js "standard_user")

/-- One transaction: the usernames, the addresses and the subjects of the accounts are unique. -/
def createAccount (P : Primitives) (out : Outside) (s : Db) (sub : Uuid)
    (username displayName email passwordHash : JsString) (invitedRole : Option JsString) :
    Creation × Db :=
  if out.lockGranted = false then (.unavailable, s)
  else if s.hasUsername P username || s.hasEmail P email ||
      s.accounts.any fun a => decide (a.sub = sub) then (.duplicate, s)
  else
    let account : Account :=
      ⟨sub, username, displayName, email, passwordHash, resolveRegistrationRole out invitedRole⟩
    (.committed, { s with accounts := s.accounts ++ [account] })

def perform (P : Primitives) (out : Outside) : (c : Command) → Db → Option c.Reply × Db
  | .link c, s => let answer := s.links.perform P.toPrimitives out.links c
    (answer.1, { s with links := answer.2 })
  | .ask q, s => (some (out.answer q), s)
  | .liveInvite code, s => (some (s.liveInvite code), s)
  | .touchInvite code, s => (some (), s.touchInvite code)
  | .countUse code email, s => (some (), s.countUse code email)
  | .voidInvite code, s => (some (), s.voidInvite code)
  | .consumeInvite code sub, s =>
    (some ((s.invites code).any open_), s.consumeInvite code sub)
  | .emailTaken email, s => (some (s.hasEmail P email), s)
  | .duplicates username email, s => (some ⟨s.hasUsername P username, s.hasEmail P email⟩, s)
  | .createAccount sub username displayName email passwordHash invitedRole, s =>
    let answer := s.createAccount P out sub username displayName email passwordHash invitedRole
    (some answer.1, answer.2)

def drift (milliseconds : ℕ) (s : Db) : Option Db :=
  (s.links.drift milliseconds).map fun links => { s with links := links }

end Db

def registrationServer (P : Primitives) : Server Command Command.Reply Db Outside ℕ where
  perform := Db.perform P
  drift := Db.drift

abbrev Handler := Prog Command Command.Reply

def await (c : Command) : Handler c.Reply := Prog.await c

def ask (q : Question) : Handler q.Answer := await (.ask q)

/-- A program over the pending links. -/
def links (p : Links.Handler α) : Handler α := p.within Command.link fun _ r => r

-- registration.ts

def isCode (code : JsString) : Bool :=
  decide (code.length = 12) &&
    code.all fun u => isDigitUnit u || decide (0x41 ≤ u ∧ u ≤ 0x5a)

def getLiveInvite (code : JsString) : Handler (Option LiveInvite) :=
  if isCode code then await (.liveInvite code) else pure none

/-- The address a row remembers; an empty one counts as none. -/
def remembered (pendingEmail : Option JsString) : Option JsString :=
  pendingEmail.filter fun email => decide (email ≠ [])

def dropRemembered (P : Primitives) (pendingEmail : Option JsString) : Handler Unit :=
  match remembered pendingEmail with
  | some email => links (Links.dropPending P.toPrimitives email)
  | none => pure ()

def voidInvite (P : Primitives) (code : JsString) (pendingEmail : Option JsString) :
    Handler Unit := do
  dropRemembered P pendingEmail
  await (.voidInvite code)

inductive Use
  | resend
  | claimed
  | voided
  deriving DecidableEq

def sameAddress (P : Primitives) (invite : LiveInvite) (email : JsString) : Bool :=
  (remembered invite.pendingEmail).any fun held =>
    decide (P.toLowerCase held = P.toLowerCase email)

def claimInviteUse (P : Primitives) (invite : LiveInvite) (email : JsString) : Handler Use :=
  if sameAddress P invite email then do
    await (.touchInvite invite.code)
    pure .resend
  else if MAX_CODE_USES ≤ invite.useCount then do
    voidInvite P invite.code invite.pendingEmail
    pure .voided
  else do
    dropRemembered P invite.pendingEmail
    await (.countUse invite.code email)
    pure .claimed

def consumeInvite (code : JsString) (sub : Uuid) : Handler Bool := await (.consumeInvite code sub)

-- routes/register.ts

inductive Response
  | error (status : ℕ) (code : String)
  | errors (status : ℕ) (fields : List (String × String))
  | sent (resendBackoff : ℤ)
  | rateLimited (retryAfter : ℤ) (canRetry : Bool)
  | complete (ticket : JsString)
  deriving DecidableEq

/-- `[^\s@]+@[^\s@]+\.[^\s@]+` -/
def isEmail (email : JsString) : Bool :=
  let name := email.takeWhile fun u => decide (u ≠ 0x40)
  let domain := (email.dropWhile fun u => decide (u ≠ 0x40)).tail
  !email.any isSpaceUnit && decide (name ≠ []) && decide (email.count 0x40 = 1) &&
    (domain.dropLast.tail.contains 0x2e)

/-- `[A-Za-z0-9_-]{3,20}` -/
def isUsername (username : JsString) : Bool :=
  decide (3 ≤ username.length ∧ username.length ≤ 20) &&
    username.all fun u => isDigitUnit u || decide (0x41 ≤ u ∧ u ≤ 0x5a) ||
      decide (0x61 ≤ u ∧ u ≤ 0x7a) || decide (u = 0x5f) || decide (u = 0x2d)

structure StartBody where
  email : JsString
  code : JsString

def StartBody.address (body : StartBody) : JsString := trim body.email

def StartBody.invitation (P : Primitives) (body : StartBody) : JsString :=
  P.toUpperCase (trim body.code)

/-- The checks between the invitation code and the claim of a use. -/
def admitAddress (P : Primitives) (email : JsString) : Handler (Except Response ℤ) :=
  if !isEmail email || decide (254 < email.length) then
    pure (.error (.errors 422 [("email", "invalid_email")]))
  else do
    let taken : Bool ← await (.emailTaken email)
    let pendingChange ← if taken then pure true
      else links (Links.changePendingForAddress P.toPrimitives email)
    if pendingChange then pure (.error (.errors 422 [("email", "email_taken")]))
    else if !(← ask .emailConfigured) then pure (.error (.error 503 "email_not_configured"))
    else do
      match ← ask (.reserveSend email) with
      | .denied retryAfter canRetry => pure (.error (.rateLimited retryAfter canRetry))
      | .ok nextBackoff => pure (.ok nextBackoff)

/-- The registration is pending and its link is sent. -/
def sendLink (P : Primitives) (email : JsString) (code : Option JsString) (nextBackoff : ℤ) :
    Handler Response := do
  let issued ← links (Links.issuePending P.toPrimitives email code)
  if ← ask (.sendEmail email issued.token) then pure (.sent nextBackoff)
  else do
    ask (.releaseSend email)
    pure (.error 503 "send_failed")

def claimAndSend (P : Primitives) (invite : Option LiveInvite) (email : JsString)
    (nextBackoff : ℤ) : Handler Response :=
  match invite with
  | none => sendLink P email none nextBackoff
  | some invite => do
      match ← claimInviteUse P invite email with
      | .voided => do
          ask (.releaseSend email)
          pure (.errors 422 [("code", "invalid_code")])
      | _ => sendLink P email (some invite.code) nextBackoff

def startWith (P : Primitives) (invite : Option LiveInvite) (email : JsString) :
    Handler Response := do
  match ← admitAddress P email with
  | .error response => pure response
  | .ok nextBackoff => claimAndSend P invite email nextBackoff

/-- POST /internal/register/start -/
def startRegistration (P : Primitives) (body : StartBody) : Handler Response := do
  if !(← ask .portalAssertion) then pure (.error 401 "invalid_client")
  else if !(← ask .registrationEnabled) then pure (.error 403 "registration_closed")
  else do
    let needCode ← ask .invitationRequired
    if needCode || decide (body.invitation P ≠ []) then do
      match ← getLiveInvite (body.invitation P) with
      | none => pure (.errors 422 [("code", "invalid_code")])
      | some invite => startWith P (some invite) body.address
    else startWith P none body.address

structure CompleteBody where
  email : JsString
  token : JsString
  username : JsString
  displayName : JsString
  password : JsString

def CompleteBody.fieldErrors (body : CompleteBody) : List (String × String) :=
  (if isUsername (trim body.username) then [] else [("username", "invalid_username")]) ++
    (if trim body.displayName = [] ∨ 100 < (trim body.displayName).length then
      [("display_name", "invalid_display_name")] else []) ++
    if body.password.any isSpaceUnit || !passwordComplexityOk body.password then
      [("password", "weak_password")] else []

def Duplicates.fieldErrors (d : Duplicates) : List (String × String) :=
  (if d.username then [("username", "username_taken")] else []) ++
    if d.email then [("email", "email_taken")] else []

/-- The role the code of a pending registration invites to, unless the code is gone. -/
def invitedRole (pending : Links.PendingRegistration) : Handler (Option (Option JsString)) :=
  match pending.code.filter fun code => decide (code ≠ []) with
  | none => pure (some none)
  | some code => do
      let invite ← getLiveInvite code
      pure (invite.map LiveInvite.invitedRoleSlug)

/-- What follows the commit of an account: the code is consumed, whether or not it is still there. -/
def finishRegistration (P : Primitives) (pending : Links.PendingRegistration) (email : JsString)
    (sub : Uuid) : Handler Response := do
  match pending.code.filter fun code => decide (code ≠ []) with
  | none => pure ()
  | some code => do
      let _ ← consumeInvite code sub
      pure ()
  links (Links.dropPending P.toPrimitives email)
  let ticket ← ask (.mintLoginTicket sub)
  pure (.complete ticket)

def createAndFinish (P : Primitives) (body : CompleteBody) (pending : Links.PendingRegistration)
    (role : Option JsString) : Handler Response := do
  let sub : Uuid ← ask .uuidv7
  let hash : JsString ← ask (.hashPassword body.password)
  match ← await (.createAccount sub (trim body.username) (trim body.displayName)
    (trim body.email) hash role) with
  | .duplicate => pure (.errors 422 [("username", "username_taken")])
  | .unavailable => pure (.error 503 "registration_unavailable")
  | .committed => finishRegistration P pending (trim body.email) sub

/-- POST /internal/register/complete -/
def completeRegistration (P : Primitives) (body : CompleteBody) : Handler Response := do
  if !(← ask .portalAssertion) then pure (.error 401 "invalid_client")
  else if !(← ask .registrationEnabled) then pure (.error 403 "registration_closed")
  else do
    match ← links (Links.validatePending P.toPrimitives (trim body.email) body.token) with
    | none => pure (.error 422 "invalid_token")
    | some pending =>
        if body.fieldErrors ≠ [] then pure (.errors 422 body.fieldErrors)
        else do
          let taken : Duplicates ← await (.duplicates (trim body.username) (trim body.email))
          if taken.fieldErrors ≠ [] then pure (.errors 422 taken.fieldErrors)
          else do
            match ← invitedRole pending with
            | none => pure (.error 409 "invitation_gone")
            | some role => createAndFinish P body pending role

end DreamSso.Registration
