import DreamSso.OidcState

/-!
WebAuthn at sign-in: options with a fresh challenge, and the verification of an
assertion, which reads the credential, checks the signature and overwrites the
stored counter.
-/
namespace DreamSso

open Interleaving JsStrings

/-- The challenge of fresh request options; with a user, scoped to the user's
credentials. -/
def loginAuthOptions (sub : Option Uuid) : Handler JsString := do
  match sub with
  | none => await .randomBytes
  | some sub => do
      let _allowed ← await (.passkeyIds sub)
      await .randomBytes

/-- The signature check and the counter update, inside one `try`. -/
def verifyAndCount (assertion : Assertion) (challenge : JsString) (id : Uuid) (row : PasskeyRow) :
    Handler (Except String Uuid) := do
  match ← (await (.verifyAuthentication assertion challenge row)).attempt with
  | none => pure (.error "verify_failed")
  | some none => pure (.error "not_verified")
  | some (some newCounter) => do
      match ← (await (.updateSignCount id newCounter)).attempt with
      | none => pure (.error "verify_failed")
      | some () => pure (.ok row.userSub)

/-- Look the credential up by id, verify, and pin the user when one is expected. -/
def verifyLoginAssertion (assertion : Assertion) (expectedChallenge : JsString)
    (expectedSub : Option Uuid) : Handler (Except String Uuid) :=
  if assertion.credentialId = [] then pure (.error "malformed")
  else do
    match ← await (.passkeyRow assertion.credentialId) with
    | none => pure (.error "unknown_credential")
    | some (id, row) =>
        if expectedSub.any fun sub => decide (row.userSub ≠ sub) then pure (.error "wrong_user")
        else verifyAndCount assertion expectedChallenge id row

end DreamSso
