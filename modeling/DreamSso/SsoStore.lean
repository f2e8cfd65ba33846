import DreamSso.LoginRecords
import DreamSso.RoleTransactions
import DreamSso.Library.Interleaving

/-!
The store behind the request handlers and the commands they await. Each command
is one Redis command or one SQL statement and takes effect at once; statements
that are issued without being awaited wait in the store until they are executed.
What is decided outside the tables modelled here (settings behind a cache, mail,
one-time codes, signatures of clients) is asked of the surroundings.
-/
namespace DreamSso

open JsStrings JsonValues KeyedTables

/-- A WebAuthn assertion as the browser sends it, its credential id decoded. -/
structure Assertion where
  credentialId : JsString
  response : JsString
  deriving DecidableEq

/-- Third-party and platform primitives and the configured id of the account
portal. `randomBytes n` is the `n`-th value drawn; `verifyAuthenticationResponse`
returns the new counter of an assertion that is valid for the challenge and the
credential. -/
structure Primitives where
  sha256 : JsString → Digest
  randomBytes : ℕ → JsString
  foldCase : JsString → JsString
  s256 : JsString → JsString
  claimedIssuer : JsString → Option (Option JsString)
  accountClientId : ClientId
  verifyAuthenticationResponse : Assertion → JsString → PasskeyRow → Option ℕ

inductive EmailOtpIssue
  | ok (code : JsString)
  | cooldown (retryAfter : ℕ)
  | dailyLimit (retryAfter : ℕ)
  deriving DecidableEq

/-- `valid`, or not and whether a new code has to be sent. -/
inductive EmailOtpCheck
  | valid
  | invalid (mustResend : Bool)
  deriving DecidableEq

/-- What a handler asks of code whose own tables are not modelled. -/
inductive Question
  | setting (key : String)
  | middleware (name : String)
  | clientKeySet (clientId : ClientId)
  | clientAssertion (clientId : ClientId) (assertion : JsString)
  | passwordMatches (hash password : JsString)
  | passwordHash (password : JsString)
  | totp (sub : Uuid) (code : JsString)
  | emailOtp (sub : Uuid) (purpose : String) (code : JsString)
  | issueEmailOtp (sub : Uuid) (purpose : String)
  | sendEmail (address : JsString)
  | reserveResetSend (email : JsString)
  | appAccess (clientId : ClientId) (sub : Uuid)
  | emailReserved (email : JsString)
  | signingKey

abbrev Question.Answer : Question → Type
  | .setting _ => Option JsString
  | .middleware _ => Bool
  | .clientKeySet _ => Bool
  | .clientAssertion _ _ => Bool
  | .passwordMatches _ _ => Bool
  | .passwordHash _ => JsString
  | .totp _ _ => Bool
  | .emailOtp _ _ _ => EmailOtpCheck
  | .issueEmailOtp _ _ => EmailOtpIssue
  | .sendEmail _ => Bool
  | .reserveResetSend _ => Bool
  | .appAccess _ _ => Bool
  | .emailReserved _ => Bool
  | .signingKey => Unit

/-- What one step takes from its surroundings. A question without an answer
throws. -/
structure Outside where
  answer : (q : Question) → Option q.Answer
  uuid : Uuid
  eventId : ℕ → Uuid

structure NewSession where
  userSub : Uuid
  tokenHash : Digest
  amr : List JsString
  acr : Option JsString
  stepupMethod : StepupMethod
  deriving DecidableEq

/-- The rows a DELETE FROM sessions names. A single session is named by the text of a URL,
which the statement reads as a uuid. -/
inductive SessionFilter
  | ofUser (sub : Uuid)
  | ofUserExcept (sub : Uuid) (keep : Uuid)
  | one (sid : JsString) (sub : Uuid)
  | expired (idleBefore maxBefore transientBefore : ℤ)
  deriving DecidableEq

def SessionFilter.names : SessionFilter → Uuid → SessionRow → Bool
  | .ofUser sub, _, r => decide (r.userSub = sub)
  | .ofUserExcept sub keep, sid, r => decide (r.userSub = sub) && decide (sid ≠ keep)
  | .one sid sub, sid', r => decide (Uuid.parse? sid = some sid') && decide (r.userSub = sub)
  | .expired idle max transient, _, r => decide (r.lastSeen < idle) ||
      decide (r.createdAt < if r.persistent then max else transient)

structure RevokedSession where
  userSub : Uuid
  sid : Uuid
  clients : List ClientId
  deriving DecidableEq

structure IdentityRow where
  sub : Uuid
  identity : Identity
  columns : LoginColumns
  deriving DecidableEq

/-- One row of the admin routes' target query. -/
structure TargetRow extends IdentityRow where
  role : Option (Slug × OrgRole)

/-- The profile columns a PATCH sets; an empty email clears the column. -/
structure ProfileChanges where
  displayName : Option JsString
  email : Option JsString
  username : Option JsString
  deriving DecidableEq

inductive ProfileWrite
  | written
  | emailTaken
  | usernameTaken
  deriving DecidableEq

inductive Command
  -- Redis
  | get (k : Key)
  | set (k : Key) (v : k.Value) (ttlSeconds : ℕ)
  | setKeepTtl (k : Key) (v : k.Value)
  | del (keys : List Key)
  | getdel (k : Key)
  | incr (sub : Uuid)
  | expire (k : Key) (ttlSeconds : ℕ)
  -- reads
  | clientRow (clientId : ClientId)
  | identityByUsername (username : JsString)
  | identityByEmail (email : JsString)
  | identityRow (sub : Uuid) (present : Bool)
  | countPasskeys (sub : Uuid)
  | countAuthenticators (sub : Uuid)
  | passkeyIds (sub : Uuid)
  | passkeyRow (credentialId : JsString)
  | sessionRow (sid : Uuid)
  | accessState (clientId : ClientId) (subjects : List Uuid)
  | orgRoleRow (sub : Uuid)
  | roleEffects (sub : Uuid)
  | permissionOverrides (sub : Uuid)
  | targetRow (sub : Uuid)
  | emailTaken (email : JsString) (except : Uuid)
  | usernameTaken (username : JsString) (except : Uuid)
  -- writes
  | updateProfile (sub : Uuid) (changes : ProfileChanges)
  | removeAvatar (sub : Uuid)
  | setPassword (sub : Uuid) (hash : JsString)
  | setMfaEnabled (sub : Uuid) (enabled : Bool)
  | setStatus (sub : Uuid) (status : AccountStatus)
  | deleteTotp (sub : Uuid)
  | deletePasskeys (sub : Uuid)
  | insertSession (session : NewSession)
  | persistSession (sid : Uuid) (tokenHash : Digest)
  | stampStepup (sid : Uuid) (method : StepupMethod)
  | deleteSessions (filter : SessionFilter)
  | updateSignCount (id : Uuid) (signCount : ℕ)
  | appendClient (sid : Uuid) (clientId : ClientId)
  | enqueueLogout (clientId : ClientId) (sub : Uuid) (sid : JsString)
  | roleTransaction (transaction : RoleTransaction)
  -- neither
  | verifyAuthentication (assertion : Assertion) (challenge : JsString) (row : PasskeyRow)
  | ask (q : Question)
  | dateNow
  | randomBytes

abbrev Command.Reply : Command → Type
  | .get k => Option k.Value
  | .set _ _ _ => Unit
  | .setKeepTtl _ _ => Unit
  | .del _ => Unit
  | .getdel k => Option k.Value
  | .incr _ => ℕ
  | .expire _ _ => Unit
  | .clientRow _ => Option OauthClient
  | .identityByUsername _ => Option IdentityRow
  | .identityByEmail _ => Option IdentityRow
  | .identityRow _ _ => Option IdentityRow
  | .countPasskeys _ => ℕ
  | .countAuthenticators _ => ℕ
  | .passkeyIds _ => List JsString
  | .passkeyRow _ => Option (Uuid × PasskeyRow)
  | .sessionRow _ => Option SessionRow
  | .accessState _ _ => AccessStateSnapshot
  | .orgRoleRow _ => Option (Slug × OrgRole)
  | .roleEffects _ => List (PermKey × Effect)
  | .permissionOverrides _ => List (PermKey × Effect)
  | .targetRow _ => Option TargetRow
  | .emailTaken _ _ => Bool
  | .usernameTaken _ _ => Bool
  | .updateProfile _ _ => ProfileWrite
  | .removeAvatar _ => Unit
  | .setPassword _ _ => Unit
  | .setMfaEnabled _ _ => Unit
  | .setStatus _ _ => Unit
  | .deleteTotp _ => ℕ
  | .deletePasskeys _ => ℕ
  | .insertSession _ => Uuid
  | .persistSession _ _ => Bool
  | .stampStepup _ _ => Unit
  | .deleteSessions _ => List RevokedSession
  | .updateSignCount _ _ => Unit
  | .appendClient _ _ => Unit
  | .enqueueLogout _ _ _ => Unit
  | .roleTransaction _ => Unit
  | .verifyAuthentication _ _ _ => Option ℕ
  | .ask q => q.Answer
  | .dateNow => ℤ
  | .randomBytes => JsString

/-- An append to `clients` that was issued without being awaited. -/
structure PendingAppend where
  sid : Uuid
  clientId : ClientId
  deriving DecidableEq

structure Sso where
  clock : ℤ
  draws : ℕ
  redis : Redis
  db : Db
  loginColumns : Table Uuid LoginColumns
  sessions : Table Uuid SessionRow
  totpCredentials : Table Uuid TotpRow
  webauthnCredentials : Table Uuid PasskeyRow
  unawaited : List PendingAppend

namespace Sso

variable (P : Primitives)

def columnsOf (s : Sso) (sub : Uuid) : LoginColumns :=
  (s.loginColumns.find? sub).getD ⟨false, none⟩

def identityRow? (s : Sso) (sub : Uuid) (present : Bool) : Option IdentityRow :=
  ((s.db.identities.find? sub).filter fun i => !present || i.present).map fun i =>
    ⟨sub, i, s.columnsOf sub⟩

/-- The present identity a citext column names. -/
def identityBy? (s : Sso) (column : Identity → Option JsString) (value : JsString) :
    Option IdentityRow :=
  (s.db.identities.rows.find? fun r => r.2.present &&
    decide ((column r.2).map P.foldCase = some (P.foldCase value))).map fun r =>
      ⟨r.1, r.2, s.columnsOf r.1⟩

def takenBy (s : Sso) (column : Identity → Option JsString) (value : JsString) (sub : Uuid) :
    Bool :=
  s.db.identities.any fun other i => decide (other ≠ sub) && i.present &&
    decide ((column i).map P.foldCase = some (P.foldCase value))

def targetRow? (s : Sso) (sub : Uuid) : Option TargetRow :=
  (s.identityRow? sub true).map fun row => ⟨row, orgRoleOf s.db sub⟩

def updateIdentity (s : Sso) (sub : Uuid) (f : Identity → Identity) : Sso :=
  { s with db.identities := s.db.identities.updateWhere (fun k _ => decide (k = sub)) fun _ => f }

def setColumns (s : Sso) (sub : Uuid) (f : LoginColumns → LoginColumns) : Sso :=
  { s with loginColumns := s.loginColumns.upsert sub (f (s.columnsOf sub)) }

def applyProfile (changes : ProfileChanges) (i : Identity) : Identity :=
  { i with
    displayName := changes.displayName.getD i.displayName
    username := changes.username.getD i.username
    email := match changes.email with
      | some v => if v = [] then none else some v
      | none => i.email
    emailVerified := match changes.email with
      | some v => decide (v ≠ [])
      | none => i.emailVerified }

/-- UPDATE identities SET …; the unique indexes refuse a duplicate. -/
def updateProfile (s : Sso) (sub : Uuid) (changes : ProfileChanges) : ProfileWrite × Sso :=
  if (changes.email.filter fun v => decide (v ≠ [])).any fun v =>
      s.takenBy P Identity.email v sub then (.emailTaken, s)
  else if changes.username.any fun v => s.takenBy P (fun i => some i.username) v sub then
    (.usernameTaken, s)
  else (.written, s.updateIdentity sub (applyProfile changes))

def newSessionRow (s : Sso) (session : NewSession) : SessionRow where
  userSub := session.userSub
  tokenHash := session.tokenHash
  amr := session.amr
  acr := session.acr
  authTime := s.clock
  lastSeen := s.clock
  createdAt := s.clock
  persistent := false
  stepupAt := some s.clock
  stepupMethod := some session.stepupMethod
  clients := []

def revoked (s : Sso) (filter : SessionFilter) : List RevokedSession :=
  (s.sessions.rows.filter fun r => filter.names r.1 r.2).map fun r =>
    ⟨r.2.userSub, r.1, r.2.clients⟩

/-- The append the token route issues: SET clients = array_append(clients, $2)
WHERE sid = $1 AND NOT ($2 = ANY(clients)). -/
def executeAppend (s : Sso) (a : PendingAppend) : Sso :=
  let lacks := fun (sid : Uuid) (r : SessionRow) =>
    decide (sid = a.sid) && !decide (a.clientId ∈ r.clients)
  let append := fun (r : SessionRow) => { r with clients := r.clients ++ [a.clientId] }
  { s with sessions := s.sessions.updateWhere lacks fun _ => append }

/-- UPDATE sessions … WHERE sid = $1 -/
def updateSession (s : Sso) (sid : Uuid) (f : SessionRow → SessionRow) : Sso :=
  { s with sessions := s.sessions.updateWhere (fun k _ => decide (k = sid)) fun _ => f }

def setSignCount (s : Sso) (id : Uuid) (signCount : ℕ) : Sso :=
  let setCount := fun (r : PasskeyRow) => { r with signCount := signCount }
  { s with
    webauthnCredentials :=
      s.webauthnCredentials.updateWhere (fun k _ => decide (k = id)) fun _ => setCount }

def deleteTotp (s : Sso) (sub : Uuid) : Sso :=
  let owned := fun (_ : Uuid) (r : TotpRow) => decide (r.userSub = sub)
  { s with totpCredentials := s.totpCredentials.deleteWhere owned }

def deletePasskeys (s : Sso) (sub : Uuid) : Sso :=
  let owned := fun (_ : Uuid) (r : PasskeyRow) => decide (r.userSub = sub)
  { s with webauthnCredentials := s.webauthnCredentials.deleteWhere owned }

/-- The KMSI upgrade is bound to the caller's cookie. -/
def holdsCookie (s : Sso) (sid : Uuid) (tokenHash : Digest) : Bool :=
  (s.sessions.find? sid).any fun r => decide (r.tokenHash = tokenHash)

def logoutPayload (sub : Uuid) (sid : JsString) : Json :=
  Json.ofObject [("sub", .str sub.text), ("sid", .str sid)]

def logoutEvent (sub : Uuid) (sid : JsString) : OutboundEvent where
  type := js "logout"
  payload := logoutPayload sub sid
  version := none
  id := none

/-- One transaction of `enqueueEvents`. -/
def enqueueLogout (out : Outside) (s : Sso) (clientId : ClientId) (sub : Uuid)
    (sid : JsString) : Option Unit × Sso :=
  match insertEvents s.clock out.eventId s.db.toChannel clientId [logoutEvent sub sid] with
  | .ok (_, channel) => (some (), { s with db.toChannel := channel })
  | .error _ => (none, s)

def milliseconds (seconds : ℕ) : ℤ := 1000 * seconds

open ExpiringStore in
def perform (out : Outside) : (c : Command) → Sso → Option c.Reply × Sso
  | .get k, s => (some (ExpiringStore.get s.redis s.clock k), s)
  | .set k v ttl, s =>
      (some (), { s with redis := setEx s.redis k v (s.clock + milliseconds ttl) })
  | .setKeepTtl k v, s =>
      (some (), { s with redis := ExpiringStore.setKeepTtl s.redis s.clock k v })
  | .del keys, s => (some (), { s with redis := ExpiringStore.del s.redis keys })
  | .getdel k, s =>
      (some (ExpiringStore.get s.redis s.clock k),
        { s with redis := ExpiringStore.del s.redis [k] })
  | .incr sub, s =>
      let count := (ExpiringStore.get s.redis s.clock (.stepupFail sub)).getD 0 + 1
      (some count, { s with
        redis := ExpiringStore.setKeepTtl s.redis s.clock (.stepupFail sub) count })
  | .expire k ttl, s => (some (),
      { s with redis := ExpiringStore.expire s.redis s.clock k (s.clock + milliseconds ttl) })
  | .clientRow clientId, s => (some (s.db.oauthClients.find? clientId), s)
  | .identityByUsername username, s =>
      (some (s.identityBy? P (fun i => some i.username) username), s)
  | .identityByEmail email, s => (some (s.identityBy? P Identity.email email), s)
  | .identityRow sub present, s => (some (s.identityRow? sub present), s)
  | .countPasskeys sub, s => (some
      (s.webauthnCredentials.rows.countP fun r => decide (r.2.userSub = sub)), s)
  | .countAuthenticators sub, s => (some
      (s.totpCredentials.rows.countP fun r => decide (r.2.userSub = sub) && r.2.confirmed), s)
  | .passkeyIds sub, s => (some ((s.webauthnCredentials.rows.filter fun r =>
      decide (r.2.userSub = sub)).map fun r => r.2.credentialId), s)
  | .passkeyRow credentialId, s => (some (s.webauthnCredentials.rows.find? fun r =>
      decide (r.2.credentialId = credentialId)), s)
  | .sessionRow sid, s => (some (s.sessions.find? sid), s)
  | .accessState clientId subjects, s =>
      ((readAccessStateSnapshot s.db clientId subjects).toOption, s)
  | .orgRoleRow sub, s => (some (orgRoleOf s.db sub), s)
  | .roleEffects sub, s => (some ((s.db.rolePermissions.rows.filter fun r =>
      decide (s.db.userOrgRoles.find? sub = some r.1.1)).map fun r => (r.1.2, r.2)), s)
  | .permissionOverrides sub, s => (some ((s.db.userPermissionOverrides.rows.filter fun r =>
      decide (r.1.1 = sub)).map fun r => (r.1.2, r.2)), s)
  | .targetRow sub, s => (some (s.targetRow? sub), s)
  | .emailTaken email except, s => (some (s.takenBy P Identity.email email except), s)
  | .usernameTaken username except, s =>
      (some (s.takenBy P (fun i => some i.username) username except), s)
  | .updateProfile sub changes, s =>
      let written := s.updateProfile P sub changes
      (some written.1, written.2)
  | .removeAvatar sub, s => (some (), s.setColumns sub fun c => { c with avatar := none })
  | .setPassword sub hash, s => (some (), s.updateIdentity sub fun i =>
      { i with passwordHash := some hash, passwordChangedAt := some s.clock })
  | .setMfaEnabled sub enabled, s =>
      (some (), s.setColumns sub fun c => { c with mfaEnabled := enabled })
  | .setStatus sub status, s => (some (), s.updateIdentity sub fun i => { i with status := status })
  | .deleteTotp sub, s =>
      (some (s.totpCredentials.rows.countP fun r => decide (r.2.userSub = sub)),
        s.deleteTotp sub)
  | .deletePasskeys sub, s =>
      (some (s.webauthnCredentials.rows.countP fun r => decide (r.2.userSub = sub)),
        s.deletePasskeys sub)
  | .insertSession session, s =>
      match s.sessions.insertNew out.uuid (s.newSessionRow session) with
      | some sessions => (some out.uuid, { s with sessions := sessions })
      | none => (none, s)
  | .persistSession sid tokenHash, s =>
      if s.holdsCookie sid tokenHash then
        (some true, s.updateSession sid fun r => { r with persistent := true })
      else (some false, s)
  | .stampStepup sid method, s => (some (), s.updateSession sid fun r =>
      { r with stepupAt := some s.clock, stepupMethod := some method })
  | .deleteSessions filter, s =>
      (some (s.revoked filter), { s with sessions := s.sessions.deleteWhere filter.names })
  | .updateSignCount id signCount, s => (some (), s.setSignCount id signCount)
  | .appendClient sid clientId, s =>
      (some (), { s with unawaited := s.unawaited ++ [⟨sid, clientId⟩] })
  | .enqueueLogout clientId sub sid, s => s.enqueueLogout out clientId sub sid
  | .roleTransaction transaction, s =>
      (some (), { s with db := transaction.commit P.sha256 s.db })
  | .verifyAuthentication assertion challenge row, s =>
      (some (P.verifyAuthenticationResponse assertion challenge row), s)
  | .ask q, s => (out.answer q, s)
  | .dateNow, s => (some s.clock, s)
  | .randomBytes, s => (some (P.randomBytes s.draws), { s with draws := s.draws + 1 })

/-- What happens without a request: time passes, and a statement nobody awaits
is executed or fails. -/
inductive Drift
  | tick (milliseconds : ℕ)
  | settle (index : ℕ) (succeeds : Bool)
  deriving DecidableEq

def drift : Drift → Sso → Option Sso
  | .tick ms, s => some { s with clock := s.clock + ms }
  | .settle index succeeds, s =>
      match s.unawaited[index]? with
      | none => none
      | some a =>
          let settled := { s with unawaited := s.unawaited.eraseIdx index }
          some (if succeeds then settled.executeAppend a else settled)

end Sso

abbrev Handler := Interleaving.Prog Command Command.Reply

/-- The service in which every command is executed and answered. -/
def ssoServer (P : Primitives) : Interleaving.Server Command Command.Reply Sso Outside
    Sso.Drift where
  perform := Sso.perform P
  drift := Sso.drift

end DreamSso
