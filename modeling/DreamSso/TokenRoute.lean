import DreamSso.OidcState

/-!
`POST /token`: authenticate the client, redeem the authorization code, collect
the claims and mint the two tokens.
-/
namespace DreamSso

open Interleaving JsStrings KeyedTables

structure IdTokenExtra where
  name : Option JsString
  preferredUsername : Option JsString
  picture : Option JsString
  email : Option (Option JsString)
  emailVerified : Option Bool
  siteName : JsString
  sessPersistent : Option Bool
  sessExp : Option ℤ
  appRole : Option (Option ℤ)
  appAuthority : Option Authority
  deriving DecidableEq

structure IdToken where
  sub : Uuid
  clientId : ClientId
  nonce : Option JsString
  acr : Option JsString
  amr : List JsString
  authTime : ℤ
  sid : Uuid
  extra : IdTokenExtra
  deriving DecidableEq

structure AccessToken where
  sub : Uuid
  clientId : ClientId
  scope : JsString
  deriving DecidableEq

/-- An error answer. -/
structure Refusal where
  status : ℕ
  error : String
  description : Option String
  deriving DecidableEq

/-- What a handler answers: an error, a page, a redirect with the code it
carries, or a success. -/
inductive Response
  | failed (refusal : Refusal)
  | noContent
  | tokens (idToken : IdToken) (accessToken : AccessToken)
  | page (status : ℕ) (name : String)
  | redirect (target : JsString) (error : Option String) (code : Option JsString)
  | json (status : ℕ) (body : String)
  deriving DecidableEq

structure TokenBody where
  grantType : Option JsString
  clientAssertionType : Option JsString
  clientAssertion : Option JsString
  code : Option JsString
  redirectUri : Option JsString
  codeVerifier : Option JsString
  deriving DecidableEq

def siteNameSetting : Handler JsString := do
  let name ← getSetting "site_name"
  pure (name.getD (js "DreamSSO"))

/-- private_key_jwt client authentication. -/
def authenticateClient (P : Primitives) (b : TokenBody) : Handler (Except Refusal ClientId) :=
  match b.clientAssertion.filter fun a => decide (a ≠ []) with
  | none => pure (.error ⟨401, "invalid_client", some "private_key_jwt required"⟩)
  | some assertion =>
    if b.clientAssertionType ≠
        some (js "urn:ietf:params:oauth:client-assertion-type:jwt-bearer") then
      pure (.error ⟨401, "invalid_client", some "private_key_jwt required"⟩)
    else match P.claimedIssuer assertion with
      | none => pure (.error ⟨401, "invalid_client", some "malformed assertion"⟩)
      | some none => pure (.error ⟨401, "invalid_client", some "unknown client"⟩)
      | some (some clientId) => do
          match ← await (.clientRow clientId) with
          | none => pure (.error ⟨401, "invalid_client", some "unknown client"⟩)
          | some client =>
              if client.disabledAt.isSome then
                pure (.error ⟨401, "invalid_client", some "client disabled"⟩)
              else do
                let keySet ← ask (.clientKeySet clientId)
                if keySet = false then
                  pure (.error ⟨401, "invalid_client", some "no registered key"⟩)
                else do
                  let verified ← ask (.clientAssertion clientId assertion)
                  if verified then pure (.ok clientId)
                  else pure (.error
                    ⟨401, "invalid_client", some "assertion verification failed"⟩)

/-- The checks on a redeemed code: client, redirect and PKCE. -/
def codeRefusal (P : Primitives) (b : TokenBody) (clientId : ClientId) (ac : AuthCode) :
    Option Refusal :=
  if ac.clientId ≠ clientId then some ⟨400, "invalid_grant", some "client mismatch"⟩
  else if b.redirectUri ≠ some ac.redirectUri then
    some ⟨400, "invalid_grant", some "redirect_uri mismatch"⟩
  else if (b.codeVerifier.filter fun v => decide (v ≠ [])).map P.s256 ≠ some ac.codeChallenge then
    some ⟨400, "invalid_grant", some "PKCE verification failed"⟩
  else none

def scopesOf (scope : JsString) : List JsString := scope.splitOn 0x20

/-- The claims the granted scopes allow. -/
def claimsOf (scopes : List JsString) (row : Option IdentityRow) (siteName : JsString) :
    IdTokenExtra :=
  let profile := row.filter fun _ => decide (js "profile" ∈ scopes)
  let email := row.filter fun _ => decide (js "email" ∈ scopes)
  { name := profile.map fun r => r.identity.displayName
    preferredUsername := profile.map fun r => r.identity.username
    picture := profile.bind fun r => r.columns.avatar.filter fun a => decide (a ≠ [])
    email := email.map fun r => r.identity.email
    emailVerified := email.map fun r => r.identity.emailVerified
    siteName := siteName
    sessPersistent := none
    sessExp := none
    appRole := none
    appAuthority := none }

/-- The identity row, read only when a scope asks for it. -/
def claimedIdentity (ac : AuthCode) : Handler (Option IdentityRow) :=
  if js "profile" ∈ scopesOf ac.scope ∨ js "email" ∈ scopesOf ac.scope then
    await (.identityRow ac.userSub false)
  else pure none

def identityClaims (ac : AuthCode) : Handler IdTokenExtra := do
  let row ← claimedIdentity ac
  let name ← siteNameSetting
  pure (claimsOf (scopesOf ac.scope) row name)

/-- EXTRACT(EPOCH FROM …)::bigint -/
def epochSeconds (at_ : ℤ) : ℤ := (at_ + 500) / 1000

/-- Record the client under the session without waiting for it, then tell how
durable the session is. -/
def sessionClaims (clientId : ClientId) (ac : AuthCode) (extra : IdTokenExtra) :
    Handler IdTokenExtra := do
  await (.appendClient ac.sid clientId)
  match ← await (.sessionRow ac.sid) with
  | none => pure extra
  | some session => do
      let windows ← getSessionWindows
      let hours := if session.persistent then windows.maxHours else windows.transientMaxHours
      pure { extra with
        sessPersistent := some session.persistent
        sessExp := some (epochSeconds session.createdAt + hours * 3600) }

/-- The app role at login. -/
def roleClaims (clientId : ClientId) (ac : AuthCode) (extra : IdTokenExtra) :
    Handler (Except Refusal IdTokenExtra) := do
  match ← (await (.accessState clientId [ac.userSub])).attempt with
  | none => pure (.error ⟨503, "temporarily_unavailable", none⟩)
  | some snapshot =>
      match snapshot.states with
      | [state] =>
          if state.allowed = false then pure (.error ⟨403, "access_denied", none⟩)
          else if state.catalogSynced then
            match snapshot.authority with
            | none => pure (.error ⟨503, "temporarily_unavailable", none⟩)
            | some authority => pure (.ok { extra with
                appRole := some state.roleId
                appAuthority := some authority })
          else pure (.ok extra)
      | _ => pure (.error ⟨403, "access_denied", none⟩)

def mintTokens (clientId : ClientId) (ac : AuthCode) (extra : IdTokenExtra) : Handler Response := do
  ask .signingKey
  let idToken : IdToken :=
    ⟨ac.userSub, clientId, ac.nonce, ac.acr, ac.amr, ac.authTime, ac.sid, extra⟩
  ask .signingKey
  pure (.tokens idToken ⟨ac.userSub, clientId, ac.scope⟩)

/-- Everything after the redemption of the code. -/
def issueTokens (P : Primitives) (b : TokenBody) (clientId : ClientId) (ac : AuthCode) :
    Handler Response :=
  match codeRefusal P b clientId ac with
  | some refusal => pure (.failed refusal)
  | none => do
      let identity ← identityClaims ac
      let session ← sessionClaims clientId ac identity
      match ← roleClaims clientId ac session with
      | .error refusal => pure (.failed refusal)
      | .ok extra => mintTokens clientId ac extra

def postToken (P : Primitives) (b : TokenBody) : Handler Response :=
  if b.grantType ≠ some (js "authorization_code") then
    pure (.failed ⟨400, "unsupported_grant_type", none⟩)
  else do
    match ← authenticateClient P b with
    | .error refusal => pure (.failed refusal)
    | .ok clientId => do
        match ← consumeCode (b.code.getD []) with
        | none => pure (.failed ⟨400, "invalid_grant", some "code invalid or expired"⟩)
        | some ac => issueTokens P b clientId ac

-- a small service to run the handlers on

def plainPrimitives : Primitives where
  sha256 := id
  randomBytes n := [n]
  foldCase := id
  s256 := id
  claimedIssuer assertion := some (some assertion)
  accountClientId := js "account"
  verifyAuthenticationResponse _ _ row := some (row.signCount + 1)

/-- Surroundings that say yes and have no settings. -/
def agreeable : Outside where
  answer
    | .setting _ => some none
    | .middleware _ => some true
    | .clientKeySet _ => some true
    | .clientAssertion _ _ => some true
    | .passwordMatches hash password => some (decide (hash = password))
    | .passwordHash password => some password
    | .totp _ _ => some true
    | .emailOtp _ _ _ => some .valid
    | .issueEmailOtp _ _ => some (.ok [])
    | .sendEmail _ => some true
    | .reserveResetSend _ => some true
    | .appAccess _ _ => some true
    | .emailReserved _ => some false
    | .signingKey => some ()
  uuid := Uuid.numbered 9
  eventId _ := Uuid.numbered 8

/-- The same surroundings, but the authenticator code is wrong. -/
def wrongTotp : Outside :=
  { agreeable with
    answer := fun
      | .totp _ _ => some false
      | q => agreeable.answer q }

def plainIdentity (name : JsString) : Identity where
  username := name
  displayName := name
  email := none
  emailVerified := false
  passwordHash := some (js "old")
  passwordChangedAt := none
  status := .active
  deletedAt := none

/-- One user, one client with a code for that user, and nothing else. -/
def oneCodeSso : Sso where
  clock := 0
  draws := 0
  redis := ExpiringStore.setEx (fun _ => none) (.code (js "code"))
    { clientId := js "app", redirectUri := js "/cb", userSub := Uuid.numbered 1
      sid := Uuid.numbered 2, codeChallenge := js "v", codeChallengeMethod := js "S256"
      nonce := none, scope := js "openid", amr := [js "pwd"], acr := none, authTime := 0 } 60000
  db := { Db.empty with
    oauthClients := (∅ : Table _ _).upsert (js "app") ⟨js "App", none, none⟩
    identities := (∅ : Table _ _).upsert (Uuid.numbered 1) (plainIdentity (js "alice")) }
  loginColumns := ∅
  sessions := ∅
  totpCredentials := ∅
  webauthnCredentials := ∅
  unawaited := []

def oneCodeBody : TokenBody where
  grantType := some (js "authorization_code")
  clientAssertionType := some (js "urn:ietf:params:oauth:client-assertion-type:jwt-bearer")
  clientAssertion := some (js "app")
  code := some (js "code")
  redirectUri := some (js "/cb")
  codeVerifier := some (js "v")

end DreamSso
