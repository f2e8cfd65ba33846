import DreamSso.OidcState

/-!
Password-reset state in Redis: the live token of a user with its failed
attempts, a pointer to it, the challenge of the strong-factor step and the
one-time login ticket.
-/
namespace DreamSso

open Interleaving JsStrings

def TOKEN_TTL_SECONDS : ℕ := 1800
def TICKET_TTL_SECONDS : ℕ := 60
def PK_TTL_SECONDS : ℕ := 300
def MAX_CHALLENGE_ATTEMPTS : ℕ := 5

/-- Kill the previous outstanding link and any half-done ceremony. -/
def dropPrevious : Option Digest → Handler Unit
  | none => pure ()
  | some prev => await (.del [.resetToken prev, .resetPasskey prev])

/-- Latest wins: issuing a link invalidates the previous one. -/
def issueResetToken (P : Primitives) (sub : Uuid) : Handler JsString := do
  let token ← await .randomBytes
  let hash := P.sha256 token
  let prev ← await (.get (.resetUser sub))
  dropPrevious prev
  await (.set (.resetToken hash) ⟨sub, 0⟩ TOKEN_TTL_SECONDS)
  await (.set (.resetUser sub) hash TOKEN_TTL_SECONDS)
  pure token

/-- The record of a live token with the hash it is stored under. -/
def getResetToken (P : Primitives) (token : JsString) :
    Handler (Option (ResetTokenRecord × Digest)) :=
  if token.length < 20 ∨ token.length > 100 then pure none
  else do
    let record ← await (.get (.resetToken (P.sha256 token)))
    pure (record.map fun r => (r, P.sha256 token))

def resetKeys (record : ResetTokenRecord) (hash : Digest) : List Key :=
  [.resetToken hash, .resetPasskey hash, .resetUser record.sub]

/-- Count a failed challenge; returns the remaining attempts, 0 when the token
is burned. -/
def bumpResetAttempts (record : ResetTokenRecord) (hash : Digest) : Handler ℕ :=
  let attempts := record.attempts + 1
  if attempts ≥ MAX_CHALLENGE_ATTEMPTS then do
    await (.del (resetKeys record hash))
    pure 0
  else do
    await (.setKeepTtl (.resetToken hash) ⟨record.sub, attempts⟩)
    pure (MAX_CHALLENGE_ATTEMPTS - attempts)

def consumeResetToken (record : ResetTokenRecord) (hash : Digest) : Handler Unit :=
  await (.del (resetKeys record hash))

def storeResetPasskeyChallenge (hash : Digest) (challenge : JsString) : Handler Unit :=
  await (.set (.resetPasskey hash) challenge PK_TTL_SECONDS)

def takeResetPasskeyChallenge (hash : Digest) : Handler (Option JsString) :=
  await (.getdel (.resetPasskey hash))

def mintLoginTicket (P : Primitives) (t : LoginTicket) : Handler JsString := do
  let ticket ← await .randomBytes
  await (.set (.ticket (P.sha256 ticket)) t TICKET_TTL_SECONDS)
  pure ticket

end DreamSso
