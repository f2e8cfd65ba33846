import DreamSso.ResetRoutes

/-!
The account routes that end sessions: terminating one or all other sessions,
and changing the password.
-/
namespace DreamSso

open Interleaving JsStrings

/-- DELETE /account/sessions/:sid -/
def deleteAccountSession (sub : Uuid) (sid : JsString) : Handler Response := do
  let allowed ← ask (.middleware "profile.security.sessions.terminate")
  if allowed = false then pure (.failed ⟨403, "permission_denied", none⟩)
  else match Uuid.parse? sid with
    | none => pure (.failed ⟨404, "not_found", none⟩)
    | some _ => do
        match ← await (.deleteSessions (.one sid sub)) with
        | [] => pure (.failed ⟨404, "not_found", none⟩)
        | r :: _ => do
            -- the clients are told the id as it stands in the URL
            fanOutLogout sub sid r.clients
            pure .noContent

/-- POST /account/sessions/terminate-others -/
def terminateOthers (sub : Uuid) (keepSid : JsString) : Handler Response := do
  let allowed ← ask (.middleware "profile.security.sessions.terminate")
  if allowed = false then pure (.failed ⟨403, "permission_denied", none⟩)
  else match Uuid.parse? keepSid with
    | none => pure (.failed ⟨400, "invalid_keep_sid", none⟩)
    | some keep => do
        let revoked ← await (.deleteSessions (.ofUserExcept sub keep))
        fanOutAll revoked
        pure .noContent

/-- The session id form the routes test before they use a header. -/
def looksLikeSid (sid : JsString) : Bool :=
  decide (sid.length = 36) && sid.all fun u => isDigitUnit u || decide (0x61 ≤ u ∧ u ≤ 0x66) ||
    decide (u = 0x2d)

/-- Every session of the user but the caller's own; all of them without a valid
session id. A text that is no uuid makes the statement fail. -/
def revokeOthers (sub : Uuid) (currentSid : JsString) : Handler (List RevokedSession) :=
  if looksLikeSid currentSid then
    match Uuid.parse? currentSid with
    | none => .thrown
    | some keep => await (.deleteSessions (.ofUserExcept sub keep))
  else await (.deleteSessions (.ofUser sub))

/-- POST /account/password -/
def postAccountPassword (sub : Uuid) (newPassword : Option JsString) (stepupSid : JsString) :
    Handler Response := do
  let allowed ← ask (.middleware "profile.security.password.change")
  if allowed = false then pure (.failed ⟨403, "step_up_required", none⟩)
  else match newPassword.filter fun pw => passwordComplexityOk pw with
    | none => pure (.failed ⟨400, "weak_password", some
        "min 8 chars and 3 of: uppercase, lowercase, digit, special"⟩)
    | some password => do
        match ← await (.identityRow sub true) with
        | none => pure (.failed ⟨404, "not_found", none⟩)
        | some _ => do
            let hash ← ask (.passwordHash password)
            await (.setPassword sub hash)
            let revoked ← revokeOthers sub stepupSid
            fanOutAll revoked
            pure .noContent

end DreamSso
