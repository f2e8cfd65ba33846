import DreamSso.AccessState
import DreamSso.Library.ExpiringStore

/-!
What sign-in keeps between requests. Redis holds authorization codes, login
transactions, reset tokens and challenges, each kind under its own prefix;
PostgreSQL holds sessions and second factors. Columns no modelled statement
reads are left out, and a JSON record is the value it parses to.
-/
namespace DreamSso

open JsStrings

/-- A single-use authorization code, bound to the client, redirect, PKCE
challenge, user and session. A session id is never empty. -/
structure AuthCode where
  clientId : ClientId
  redirectUri : JsString
  userSub : Uuid
  sid : Uuid
  codeChallenge : JsString
  codeChallengeMethod : JsString
  nonce : Option JsString
  scope : JsString
  amr : List JsString
  acr : Option JsString
  authTime : ℤ
  deriving DecidableEq

/-- Set once the password is verified and a second factor is required. -/
structure TxnMfa where
  sub : Uuid
  userLabel : JsString
  kmsiLabel : Option JsString
  methods : List JsString
  attempts : ℕ
  maskedEmail : Option JsString
  emailSent : Bool
  passkeyChallenge : Option JsString
  stepupSid : Option Uuid
  stepupReturn : Option Uuid
  deriving DecidableEq

/-- Set once authentication is complete and "Stay signed in?" is pending. -/
structure TxnKmsi where
  sid : Uuid
  sub : Uuid
  userLabel : JsString
  amr : List JsString
  acr : JsString
  authTime : ℤ
  deriving DecidableEq

structure LoginTxn where
  clientId : ClientId
  redirectUri : JsString
  state : Option JsString
  nonce : Option JsString
  codeChallenge : JsString
  codeChallengeMethod : JsString
  scope : JsString
  clientName : Option JsString
  localNext : Option JsString
  passkey : Option JsString
  mfa : Option TxnMfa
  kmsi : Option TxnKmsi
  csrf : JsString
  deriving DecidableEq

structure ResetTokenRecord where
  sub : Uuid
  attempts : ℕ
  deriving DecidableEq

/-- The one-time login ticket of a finished password reset. -/
structure LoginTicket where
  sub : Uuid
  amr : List JsString
  acr : JsString
  userLabel : JsString
  deriving DecidableEq

/-- What a single-use action token was minted for. -/
structure ActionToken where
  actor : Uuid
  action : JsString
  target : JsString
  deriving DecidableEq

/-- The Redis keys, one constructor for each prefix. -/
inductive Key
  | code (code : JsString)
  | txn (id : JsString)
  | resetToken (hash : Digest)
  | resetUser (sub : Uuid)
  | resetPasskey (hash : Digest)
  | ticket (hash : Digest)
  | stepupPasskey (sid : Uuid)
  | stepupFail (sub : Uuid)
  | actionToken (token : JsString)
  | actionPasskey (sub : Uuid)
  deriving DecidableEq

abbrev Key.Value : Key → Type
  | .code _ => AuthCode
  | .txn _ => LoginTxn
  | .resetToken _ => ResetTokenRecord
  | .resetUser _ => Digest
  | .resetPasskey _ => JsString
  | .ticket _ => LoginTicket
  | .stepupPasskey _ => JsString
  | .stepupFail _ => ℕ
  | .actionToken _ => ActionToken
  | .actionPasskey _ => JsString

abbrev Redis := ExpiringStore.Store Key Key.Value

inductive StepupMethod
  | passkey
  | totp
  | email
  | password
  deriving DecidableEq

/-- A master session. -/
structure SessionRow where
  userSub : Uuid
  tokenHash : Digest
  amr : List JsString
  acr : Option JsString
  authTime : ℤ
  lastSeen : ℤ
  createdAt : ℤ
  persistent : Bool
  stepupAt : Option ℤ
  stepupMethod : Option StepupMethod
  clients : List ClientId
  deriving DecidableEq

structure PasskeyRow where
  userSub : Uuid
  credentialId : JsString
  publicKey : JsString
  signCount : ℕ
  deriving DecidableEq

structure TotpRow where
  userSub : Uuid
  confirmed : Bool
  deriving DecidableEq

/-- The columns of `identities` that only sign-in reads. -/
structure LoginColumns where
  mfaEnabled : Bool
  avatar : Option JsString
  deriving DecidableEq

end DreamSso
