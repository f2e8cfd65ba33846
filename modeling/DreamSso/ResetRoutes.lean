import DreamSso.PasswordReset
import DreamSso.TokenRoute
import DreamSso.Webauthn

/-!
The password-reset routes: validate a link, hand out assertion options for it,
and confirm, which verifies the strong factor when one is required, writes the
password, consumes the token and revokes every session.
-/
namespace DreamSso

open Interleaving JsConversions JsStrings

structure ResetBody where
  clientAssertionType : Option JsString
  clientAssertion : Option JsString
  token : JsString
  password : Option JsString
  method : JsString
  code : JsString
  credential : Option Assertion
  deriving DecidableEq

/-- The assertion the account portal presents at `/token`, from that client only. -/
def isPortalAssertion (P : Primitives) (body : ResetBody) : Handler Bool :=
  match body.clientAssertion with
  | none => pure false
  | some assertion =>
    if body.clientAssertionType ≠
        some (js "urn:ietf:params:oauth:client-assertion-type:jwt-bearer") then pure false
    else do
      match ← await (.clientRow P.accountClientId) with
      | none => pure false
      | some client =>
          if client.disabledAt.isSome then pure false
          else do
            let keySet ← ask (.clientKeySet P.accountClientId)
            if keySet = false then pure false
            else ask (.clientAssertion P.accountClientId assertion)

/-- At least 8 characters and 3 of: uppercase, lowercase, digit, other. -/
def passwordComplexityOk (pw : JsString) : Bool :=
  let upper := pw.any fun u => decide (0x41 ≤ u ∧ u ≤ 0x5a)
  let lower := pw.any fun u => decide (0x61 ≤ u ∧ u ≤ 0x7a)
  let digit := pw.any isDigitUnit
  let other := pw.any fun u => !(decide (0x41 ≤ u ∧ u ≤ 0x5a) || decide (0x61 ≤ u ∧ u ≤ 0x7a) ||
    isDigitUnit u)
  decide (8 ≤ pw.length) &&
    decide (3 ≤ upper.toNat + lower.toNat + digit.toNat + other.toNat)

def isSixDigits (code : JsString) : Bool := decide (code.length = 6) && code.all isDigitUnit

/-- An active identity that is not deleted. -/
def liveIdentity (sub : Uuid) : Handler (Option IdentityRow) := do
  let row ← await (.identityRow sub true)
  pure (row.filter fun r => decide (r.identity.status = .active))

def strongMethods (passkeys totp : ℕ) : List JsString :=
  (if passkeys > 0 then [js "passkey"] else []) ++ if totp > 0 then [js "totp"] else []

/-- The strong factors a reset demands; none when the MFA toggle is off. -/
def challengeFor (row : IdentityRow) : Handler (Option (List JsString)) :=
  if row.columns.mfaEnabled = false then pure none
  else do
    let passkeys ← await (.countPasskeys row.sub)
    let totp ← await (.countAuthenticators row.sub)
    pure (if strongMethods passkeys totp = [] then none else some (strongMethods passkeys totp))

def resetIdentity (P : Primitives) (token : JsString) :
    Handler (Option (ResetTokenRecord × Digest × IdentityRow)) := do
  match ← getResetToken P token with
  | none => pure none
  | some (record, hash) => do
      let identity ← liveIdentity record.sub
      pure (identity.map fun row => (record, hash, row))

def postValidate (P : Primitives) (body : ResetBody) : Handler Response := do
  let portal ← isPortalAssertion P body
  if portal = false then pure (.failed ⟨401, "invalid_client", none⟩)
  else do
    match ← resetIdentity P body.token with
    | none => pure (.json 200 "valid: false")
    | some (_, _, row) => do
        let _challenge ← challengeFor row
        pure (.json 200 "valid: true")

def postPasskeyOptions (P : Primitives) (body : ResetBody) : Handler Response := do
  let portal ← isPortalAssertion P body
  if portal = false then pure (.failed ⟨401, "invalid_client", none⟩)
  else do
    match ← resetIdentity P body.token with
    | none => pure (.failed ⟨422, "invalid_token", none⟩)
    | some (_, hash, row) => do
        let methods ← challengeFor row
        if js "passkey" ∈ methods.getD [] then do
          let challenge ← loginAuthOptions (some row.sub)
          storeResetPasskeyChallenge hash challenge
          pure (.json 200 "options")
        else pure (.failed ⟨400, "method_unavailable", none⟩)

/-- A failed challenge is counted before it is answered. -/
def challengeFailed (record : ResetTokenRecord) (hash : Digest) : Handler (Except Refusal JsString) := do
  let left ← bumpResetAttempts record hash
  pure (.error (if left = 0 then ⟨403, "too_many_attempts", none⟩
    else ⟨401, "challenge_failed", none⟩))

def confirmTotp (body : ResetBody) (record : ResetTokenRecord) (hash : Digest) (row : IdentityRow) :
    Handler (Except Refusal JsString) :=
  if isSixDigits (trim body.code) = false then challengeFailed record hash
  else do
    let valid ← ask (.totp row.sub (trim body.code))
    if valid then pure (.ok (js "otp")) else challengeFailed record hash

/-- The challenge is taken whatever comes of the attempt. -/
def confirmPasskey (body : ResetBody) (record : ResetTokenRecord) (hash : Digest)
    (row : IdentityRow) : Handler (Except Refusal JsString) := do
  match ← takeResetPasskeyChallenge hash with
  | none => pure (.error ⟨401, "challenge_expired", none⟩)
  | some expected =>
      match body.credential with
      | none => challengeFailed record hash
      | some credential => do
          match ← verifyLoginAssertion credential expected (some row.sub) with
          | .error _ => challengeFailed record hash
          | .ok _ => pure (.ok (js "passkey"))

/-- The strong factor a confirmation has to prove, if any. -/
def confirmChallenge (body : ResetBody) (record : ResetTokenRecord) (hash : Digest)
    (row : IdentityRow) : Handler (Except Refusal (Option JsString)) := do
  match ← challengeFor row with
  | none => pure (.ok none)
  | some methods =>
      if body.method = js "totp" ∧ js "totp" ∈ methods then do
        let amr ← confirmTotp body record hash row
        pure (amr.map some)
      else if body.method = js "passkey" ∧ js "passkey" ∈ methods then do
        let amr ← confirmPasskey body record hash row
        pure (amr.map some)
      else pure (.error ⟨401, "challenge_required", none⟩)

/-- Write the password, consume the token, end every session, mint the ticket. -/
def completeReset (P : Primitives) (record : ResetTokenRecord) (hash : Digest) (row : IdentityRow)
    (password : JsString) (amr : Option JsString) : Handler Response := do
  let passwordHash ← ask (.passwordHash password)
  await (.setPassword row.sub passwordHash)
  consumeResetToken record hash
  let revoked ← await (.deleteSessions (.ofUser row.sub))
  fanOutAll revoked
  let _ticket ← mintLoginTicket P
    { sub := row.sub
      amr := js "email" :: amr.toList
      acr := if amr.isSome then js "urn:dreamsso:2fa" else js "urn:dreamsso:1fa"
      userLabel := if row.identity.displayName = [] then row.identity.username
        else row.identity.displayName }
  pure (.json 200 "complete_url")

/-- A password is a text without white space that is complex enough. -/
def acceptablePassword (password : Option JsString) : Option JsString :=
  password.filter fun pw => !pw.any isSpaceUnit && passwordComplexityOk pw

def postConfirm (P : Primitives) (body : ResetBody) : Handler Response := do
  let portal ← isPortalAssertion P body
  if portal = false then pure (.failed ⟨401, "invalid_client", none⟩)
  else do
    match ← resetIdentity P body.token with
    | none => pure (.failed ⟨422, "invalid_token", none⟩)
    | some (record, hash, row) =>
        match acceptablePassword body.password with
        | none => pure (.failed ⟨422, "weak_password", none⟩)
        | some password => do
            match ← confirmChallenge body record hash row with
            | .error refusal => pure (.failed refusal)
            | .ok amr => completeReset P record hash row password amr

end DreamSso
