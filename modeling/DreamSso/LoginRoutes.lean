import DreamSso.ResetRoutes

/-!
The interactive sign-in over one login transaction: password, first-factor
passkey, second factor and "Stay signed in?". Each handler reads the whole
transaction once, changes it in memory and writes it back or deletes it.
-/
namespace DreamSso

open Interleaving JsConversions JsStrings

/-- What every card POST carries. The origin headers are already checked. -/
structure CardRequest where
  txn : JsString
  csrf : Option JsString
  sameOrigin : Bool
  cookie : Option JsString
  deriving DecidableEq

def csrfOk (req : CardRequest) (txn : LoginTxn) : Bool :=
  decide (req.csrf = some txn.csrf) && req.sameOrigin

def STEPUP_ACR : JsString := js "urn:dreamsso:stepup"

def txnExpired : Handler Response := do
  let _site ← siteNameSetting
  pure (.page 400 "txn_expired")

def badRequest : Response := .page 403 "bad_request"

/-- `display_name || username` -/
def IdentityRow.label (row : IdentityRow) : JsString :=
  if row.identity.displayName = [] then row.identity.username else row.identity.displayName

def avatarOf (sub : Uuid) : Handler (Option JsString) := do
  let row ← await (.identityRow sub true)
  pure (row.bind fun r => r.columns.avatar)

def renderKmsi (kmsi : TxnKmsi) : Handler Response := do
  let _avatar ← avatarOf kmsi.sub
  let _site ← siteNameSetting
  pure (.page 200 "kmsi")

/-- Open the master session and ask "Stay signed in?". -/
def finishLogin (P : Primitives) (txnId : JsString) (txn : LoginTxn) (sub : Uuid)
    (amr : List JsString) (acr : JsString) (userLabel : JsString) : Handler Response := do
  let sid ← createSession P sub amr (some acr)
  let now ← await .dateNow
  let kmsi : TxnKmsi := ⟨sid, sub, userLabel, amr, acr, now / 1000⟩
  updateTxn txnId { txn with kmsi := some kmsi }
  renderKmsi kmsi

/-- The requested method when it is offered, else the strongest one. -/
def shownMethod (mfa : TxnMfa) (method : Option JsString) : Option JsString :=
  match method with
  | some m => if m ∈ mfa.methods then some m else mfa.methods.head?
  | none => mfa.methods.head?

/-- Showing the passkey state mints a fresh challenge into the transaction. -/
def mintChallenge (txnId : JsString) (txn : LoginTxn) (mfa : TxnMfa) (method : Option JsString) :
    Handler Unit :=
  if shownMethod mfa method = some (js "passkey") then do
    let challenge ← loginAuthOptions (some mfa.sub)
    updateTxn txnId { txn with mfa := some { mfa with passkeyChallenge := some challenge } }
  else pure ()

def renderChallenge (txnId : JsString) (txn : LoginTxn) (mfa : TxnMfa) (method : Option JsString)
    (status : ℕ) : Handler Response := do
  mintChallenge txnId txn mfa method
  let _avatar ← avatarOf mfa.sub
  let _site ← siteNameSetting
  pure (.page status "challenge")

/-- The first-factor challenge is minted once and reused. -/
def loginPasskeyOptions (txnId : JsString) (txn : LoginTxn) : Handler JsString :=
  match txn.passkey.filter fun c => decide (c ≠ []) with
  | some challenge => pure challenge
  | none => do
      let challenge ← loginAuthOptions none
      updateTxn txnId { txn with passkey := some challenge }
      pure challenge

/-- The login form, shown with its portal links. -/
def renderLogin (txnId : JsString) (txn : LoginTxn) (status : ℕ) : Handler Response := do
  let _options ← loginPasskeyOptions txnId txn
  let _site ← siteNameSetting
  let _portal ← getSetting "account_portal_url"
  let _registration ← getSetting "enable_registration"
  pure (.page status "login")

/-- A transaction past authentication shows its current phase. -/
def renderPhase (txnId : JsString) (txn : LoginTxn) (otherwise : Handler Response) :
    Handler Response :=
  match txn.kmsi, txn.mfa with
  | some kmsi, _ => renderKmsi kmsi
  | none, some mfa => renderChallenge txnId txn mfa none 200
  | none, none => otherwise

/-- GET /login, and GET /login/passkey with its smaller page. -/
def getLogin (txnId : JsString) (use : Option JsString) : Handler Response := do
  match ← getTxn txnId with
  | none => txnExpired
  | some txn => match txn.kmsi, txn.mfa with
    | some kmsi, _ => renderKmsi kmsi
    | none, some mfa => renderChallenge txnId txn mfa use 200
    | none, none => renderLogin txnId txn 200

def getLoginPasskey (txnId : JsString) : Handler Response := do
  match ← getTxn txnId with
  | none => txnExpired
  | some txn =>
      renderPhase txnId txn do
        let _options ← loginPasskeyOptions txnId txn
        let _site ← siteNameSetting
        pure (.page 200 "passkey")

-- POST /login

/-- Username first, then the email when the input looks like one. -/
def findByUsernameOrEmail (identifier : JsString) : Handler (Option IdentityRow) := do
  match ← await (.identityByUsername identifier) with
  | some row => pure (some row)
  | none => if 0x40 ∈ identifier then await (.identityByEmail identifier) else pure none

def verifyPassword (row : IdentityRow) (password : JsString) : Handler Bool :=
  match row.identity.passwordHash.filter fun h => decide (h ≠ []) with
  | none => pure false
  | some hash => do
      let valid ← (ask (.passwordMatches hash password)).attempt
      pure (valid.getD false)

/-- `maskEmail`: at most two units of the local part are shown. -/
def maskEmail (email : JsString) : JsString :=
  match email.splitOn 0x40 with
  | address :: domain :: _ =>
      if domain = [] then List.replicate 5 0x2022
      else address.take (min 2 (max 1 (address.length - 1))) ++ List.replicate 5 0x2022 ++
        0x40 :: domain
  | _ => List.replicate 5 0x2022

/-- What the user owns, strongest first; email is the floor. -/
def loginMethods (row : IdentityRow) (passkeys totp : ℕ) : List JsString :=
  if strongMethods passkeys totp ≠ [] then strongMethods passkeys totp
  else if (row.identity.email.filter fun e => decide (e ≠ [])).isSome then [js "email"] else []

def newMfa (row : IdentityRow) (username : JsString) (methods : List JsString) : TxnMfa where
  sub := row.sub
  userLabel := trim username
  kmsiLabel := some row.label
  methods := methods
  attempts := 0
  maskedEmail := if js "email" ∈ methods then row.identity.email.map maskEmail else none
  emailSent := false
  passkeyChallenge := none
  stepupSid := none
  stepupReturn := none

/-- The second factors that are demanded; none while the MFA toggle is off. -/
def demandedMethods (row : IdentityRow) : Handler (List JsString) :=
  if row.columns.mfaEnabled = false then pure []
  else do
    let passkeys ← await (.countPasskeys row.sub)
    let totp ← await (.countAuthenticators row.sub)
    pure (loginMethods row passkeys totp)

/-- The password is verified: go on to the challenge or to "Stay signed in?". -/
def passwordVerified (P : Primitives) (txnId : JsString) (txn : LoginTxn) (row : IdentityRow)
    (username : JsString) : Handler Response := do
  let methods ← demandedMethods row
  if methods = [] then
    finishLogin P txnId txn row.sub [js "pwd"] (js "urn:dreamsso:1fa") row.label
  else do
    let mfa := newMfa row username methods
    let pending := { txn with mfa := some mfa }
    updateTxn txnId pending
    renderChallenge txnId pending mfa none 200

/-- The identity a correct password signs in. -/
def checkPassword (username password : JsString) : Handler (Option IdentityRow) := do
  match ← findByUsernameOrEmail (trim username) with
  | none => pure none
  | some row =>
      if row.identity.status ≠ .active then pure none
      else do
        let valid ← verifyPassword row password
        pure (if valid then some row else none)

def submitPassword (P : Primitives) (req : CardRequest) (txn : LoginTxn)
    (username password : JsString) : Handler Response :=
  if csrfOk req txn = false then pure badRequest
  else do
    match ← checkPassword username password with
    | none => renderLogin req.txn txn 401
    | some row => passwordVerified P req.txn txn row username

def postLogin (P : Primitives) (req : CardRequest) (username password : JsString) :
    Handler Response := do
  match ← getTxn req.txn with
  | none => txnExpired
  | some txn => renderPhase req.txn txn (submitPassword P req txn username password)

-- POST /login/stay

def denied (txn : LoginTxn) : Response := .redirect txn.redirectUri (some "access_denied") none

def codeOf (txn : LoginTxn) (sub sid : Uuid) (amr : List JsString) (acr : JsString) (authTime : ℤ) :
    AuthCode where
  clientId := txn.clientId
  redirectUri := txn.redirectUri
  userSub := sub
  sid := sid
  codeChallenge := txn.codeChallenge
  codeChallengeMethod := txn.codeChallengeMethod
  nonce := txn.nonce
  scope := txn.scope
  amr := amr
  acr := some acr
  authTime := authTime

/-- Create the code of a completed transaction and delete the transaction. -/
def redirectWithCode (txnId : JsString) (txn : LoginTxn) (data : AuthCode) : Handler Response := do
  let code ← createCode data
  consumeTxn txnId
  pure (.redirect txn.redirectUri none (some code))

def completeStay (txnId : JsString) (txn : LoginTxn) (kmsi : TxnKmsi) : Handler Response :=
  match txn.localNext.filter fun next => decide (next ≠ []) with
  | some next => do
      consumeTxn txnId
      pure (.redirect next none none)
  | none => do
      let allowed ← ask (.appAccess txn.clientId kmsi.sub)
      if allowed = false then do
        consumeTxn txnId
        pure (denied txn)
      else
        redirectWithCode txnId txn
          (codeOf txn kmsi.sub kmsi.sid kmsi.amr kmsi.acr kmsi.authTime)

/-- "Yes" upgrades the session when the caller holds its cookie. -/
def answerStay (P : Primitives) (req : CardRequest) (choice : JsString) (kmsi : TxnKmsi) :
    Handler Bool :=
  if choice = js "yes" then persistSession P req.cookie kmsi.sid else pure false

def postLoginStay (P : Primitives) (req : CardRequest) (choice : JsString) : Handler Response := do
  match ← getTxn req.txn with
  | none => txnExpired
  | some txn =>
      match txn.kmsi with
      | none => txnExpired
      | some kmsi =>
          if csrfOk req txn = false then pure badRequest
          else do
            let _persisted ← answerStay P req choice kmsi
            completeStay req.txn txn kmsi

-- POST /login/passkey

/-- Drop the used challenge, mint a fresh one and show the form again. -/
def failBack (txnId : JsString) (txn : LoginTxn) : Handler Response := do
  let dropped := { txn with passkey := none }
  updateTxn txnId dropped
  renderLogin txnId dropped 401

/-- The active account an accepted assertion signs in. -/
def passkeyAccount (credential : Option Assertion) (challenge : JsString) :
    Handler (Option IdentityRow) :=
  match credential with
  | none => pure none
  | some assertion => do
      match ← verifyLoginAssertion assertion challenge none with
      | .error _ => pure none
      | .ok sub => liveIdentity sub

def submitPasskey (P : Primitives) (req : CardRequest) (txn : LoginTxn)
    (credential : Option Assertion) : Handler Response :=
  if csrfOk req txn = false then pure badRequest
  else match txn.passkey.filter fun c => decide (c ≠ []) with
    | none => failBack req.txn txn
    | some challenge => do
        match ← passkeyAccount credential challenge with
        | none => failBack req.txn txn
        | some row =>
            finishLogin P req.txn txn row.sub [js "passkey"] (js "urn:dreamsso:2fa") row.label

def postLoginPasskey (P : Primitives) (req : CardRequest) (credential : Option Assertion) :
    Handler Response := do
  match ← getTxn req.txn with
  | none => txnExpired
  | some txn => renderPhase req.txn txn (submitPasskey P req txn credential)

-- POST /login/challenge/send-email

/-- Mail a code to the address of the row, if it has one. -/
def mailCode (row : Option IdentityRow) : Handler Bool :=
  match (row.bind fun r => r.identity.email).filter fun e => decide (e ≠ []) with
  | none => pure false
  | some email => do
      let _site ← siteNameSetting
      ask (.sendEmail email)

/-- Send the issued code; a failed mail is reported on the page. -/
def sendIssued (txnId : JsString) (txn : LoginTxn) (mfa : TxnMfa) : Handler Response := do
  let row ← await (.identityRow mfa.sub false)
  let sent ← mailCode row
  if sent = false then renderChallenge txnId txn mfa (some (js "email")) 401
  else do
    let marked := { mfa with emailSent := true }
    let pending := { txn with mfa := some marked }
    updateTxn txnId pending
    renderChallenge txnId pending marked (some (js "email")) 200

def postSendEmail (req : CardRequest) : Handler Response := do
  match ← getTxn req.txn with
  | none => txnExpired
  | some txn =>
      match txn.mfa with
      | none => txnExpired
      | some mfa =>
          if csrfOk req txn = false ∨ js "email" ∉ mfa.methods then pure badRequest
          else do
            match ← ask (.issueEmailOtp mfa.sub "login") with
            | .dailyLimit _ => renderChallenge req.txn txn mfa (some (js "email")) 401
            | .cooldown _ => renderChallenge req.txn txn mfa (some (js "email")) 401
            | .ok _ => sendIssued req.txn txn mfa

-- POST /login/challenge

/-- The shared failure path: count the attempt, burn the transaction at the cap. -/
def strongFail (txnId : JsString) (txn : LoginTxn) (mfa : TxnMfa) (method : JsString) :
    Handler Response :=
  let counted := { mfa with attempts := mfa.attempts + 1 }
  if counted.attempts ≥ MAX_CHALLENGE_ATTEMPTS then do
    consumeTxn txnId
    if mfa.stepupReturn.isSome then
      pure (.redirect txn.redirectUri (some "login_required") none)
    else do
      let _site ← siteNameSetting
      pure (.page 403 "too_many_attempts")
  else do
    let pending := { txn with mfa := some counted }
    updateTxn txnId pending
    renderChallenge txnId pending counted (some method) 401

/-- OIDC step-up: a code for the existing session. -/
def succeedReturn (txnId : JsString) (txn : LoginTxn) (mfa : TxnMfa) (sid : Uuid)
    (amr : List JsString) : Handler Response := do
  let allowed ← ask (.appAccess txn.clientId mfa.sub)
  if allowed = false then do
    consumeTxn txnId
    pure (denied txn)
  else do
    let now ← await .dateNow
    redirectWithCode txnId txn
      (codeOf txn mfa.sub sid (amr.filter fun a => decide (a ≠ js "pwd")) STEPUP_ACR (now / 1000))

/-- A verified second factor: a code, a stamp, or a new session. -/
def succeed (P : Primitives) (txnId : JsString) (txn : LoginTxn) (mfa : TxnMfa)
    (amr : List JsString) (acr : JsString) : Handler Response :=
  match mfa.stepupReturn, mfa.stepupSid with
  | some sid, _ => succeedReturn txnId txn mfa sid amr
  | none, some sid => do
      await (.stampStepup sid (methodFromAmr amr))
      consumeTxn txnId
      pure (.redirect (txn.localNext.getD (js "/admin")) none none)
  | none, none => finishLogin P txnId { txn with mfa := some mfa } mfa.sub amr acr
      (mfa.kmsiLabel.getD mfa.userLabel)

def challengeTotp (P : Primitives) (txnId : JsString) (txn : LoginTxn) (mfa : TxnMfa)
    (code : JsString) : Handler Response := do
  let valid ← ask (.totp mfa.sub (trim code))
  if valid then succeed P txnId txn mfa [js "pwd", js "otp"] (js "urn:dreamsso:2fa")
  else strongFail txnId txn mfa (js "totp")

/-- The assertion challenge is dropped in memory before the attempt. -/
def challengePasskey (P : Primitives) (txnId : JsString) (txn : LoginTxn) (mfa : TxnMfa)
    (credential : Option Assertion) : Handler Response :=
  let used := { mfa with passkeyChallenge := none }
  match mfa.passkeyChallenge.filter fun c => decide (c ≠ []), credential with
  | none, _ => strongFail txnId txn used (js "passkey")
  | some _, none => strongFail txnId txn used (js "passkey")
  | some challenge, some assertion => do
      match ← verifyLoginAssertion assertion challenge (some mfa.sub) with
      | .error _ => strongFail txnId txn used (js "passkey")
      | .ok _ => succeed P txnId txn used [js "pwd", js "passkey"] (js "urn:dreamsso:2fa")

/-- The emailed code keeps its own attempt counter. -/
def challengeEmail (P : Primitives) (txnId : JsString) (txn : LoginTxn) (mfa : TxnMfa)
    (code : JsString) : Handler Response := do
  match ← ask (.emailOtp mfa.sub "login" (trim code)) with
  | .invalid _ => renderChallenge txnId txn mfa (some (js "email")) 401
  | .valid =>
      finishLogin P txnId txn mfa.sub [js "pwd", js "email"] (js "urn:dreamsso:2fa")
        (mfa.kmsiLabel.getD mfa.userLabel)

def postLoginChallenge (P : Primitives) (req : CardRequest) (method code : JsString)
    (credential : Option Assertion) : Handler Response := do
  match ← getTxn req.txn with
  | none => txnExpired
  | some txn => match txn.kmsi, txn.mfa with
    | some kmsi, _ => renderKmsi kmsi
    | none, none => txnExpired
    | none, some mfa =>
        if csrfOk req txn = false ∨ method ∉ mfa.methods then pure badRequest
        else if method = js "totp" then challengeTotp P req.txn txn mfa code
        else if method = js "passkey" then challengePasskey P req.txn txn mfa credential
        else challengeEmail P req.txn txn mfa code

end DreamSso
