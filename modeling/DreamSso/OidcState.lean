import DreamSso.SsoStore

/-!
The OIDC layer under the routes: authorization codes, login transactions,
master sessions and the logout fan-out.
-/
namespace DreamSso

open Interleaving JsConversions JsStrings KeyedTables

def await (c : Command) : Handler c.Reply := Prog.await c

def ask (q : Question) : Handler q.Answer := await (.ask q)

/-- `getSetting`: an empty value counts as unset. -/
def getSetting (key : String) : Handler (Option JsString) := do
  let value ← ask (.setting key)
  pure (value.filter fun v => decide (v ≠ []))

-- authorization codes

def createCode (data : AuthCode) : Handler JsString := do
  let code ← await .randomBytes
  await (.set (.code code) data 60)
  pure code

def consumeCode (code : JsString) : Handler (Option AuthCode) := do
  match ← await (.get (.code code)) with
  | none => pure none
  | some data => do
      await (.del [.code code])
      pure (some data)

-- login transactions

def getTxn (id : JsString) : Handler (Option LoginTxn) :=
  if id = [] then pure none else await (.get (.txn id))

/-- Rewrite a transaction in place, preserving its time to live. -/
def updateTxn (id : JsString) (txn : LoginTxn) : Handler Unit := await (.setKeepTtl (.txn id) txn)

def consumeTxn (id : JsString) : Handler Unit := await (.del [.txn id])

-- sessions

structure SessionWindows where
  idleHours : ℕ
  maxHours : ℕ
  transientMaxHours : ℕ

/-- `parseInt(s, 10)`, NaN as `none`. -/
def parseInt (s : JsString) : Option ℤ :=
  let (negative, digits) := takeSign (trim s)
  let shown := digits.takeWhile isDigitUnit
  if shown = [] then none
  else some (if negative then -(digitsValue shown : ℤ) else digitsValue shown)

def clampHours (value : Option JsString) (fallback maxRange : ℕ) : ℕ :=
  match parseInt (value.getD []) with
  | some n => if 1 ≤ n ∧ n ≤ maxRange then n.toNat else fallback
  | none => fallback

def getSessionWindows : Handler SessionWindows := do
  let idle ← getSetting "session_idle_hours"
  let max ← getSetting "session_max_hours"
  let transient ← getSetting "session_transient_max_hours"
  let maxHours := clampHours max 168 8760
  pure ⟨min (clampHours idle 72 2160) maxHours, maxHours, min (clampHours transient 24 8760) maxHours⟩

def hoursBefore (now : ℤ) (hours : ℕ) : ℤ := now - hours * 3600000

/-- The strongest factor an amr proves. -/
def methodFromAmr (amr : List JsString) : StepupMethod :=
  if js "passkey" ∈ amr then .passkey
  else if js "otp" ∈ amr then .totp
  else if js "email" ∈ amr then .email
  else .password

/-- Open a master session; the cookie carries the drawn token. -/
def createSession (P : Primitives) (userSub : Uuid) (amr : List JsString) (acr : Option JsString) :
    Handler Uuid := do
  let token ← await .randomBytes
  let _windows ← getSessionWindows
  await (.insertSession ⟨userSub, P.sha256 token, amr, acr, methodFromAmr amr⟩)

/-- The KMSI "Yes": a no-op when the cookie does not match the session. -/
def persistSession (P : Primitives) (cookie : Option JsString) (sid : Uuid) : Handler Bool := do
  match cookie with
  | none => pure false
  | some token => do
      let _windows ← getSessionWindows
      await (.persistSession sid (P.sha256 token))

/-- Within the idle window and the absolute window its persistence selects. -/
def SessionRow.live (r : SessionRow) (windows : SessionWindows) (now : ℤ) : Bool :=
  decide (hoursBefore now windows.idleHours < r.lastSeen) &&
    decide (hoursBefore now (if r.persistent then windows.maxHours else windows.transientMaxHours) <
      r.createdAt)

/-- The user a session belongs to is active and not deleted. -/
def activeUser (s : Sso) (sub : Uuid) : Bool :=
  (s.db.identities.find? sub).any fun i => decide (i.status = .active) && i.present

/-- What `loadSessionBySid` accepts. -/
def loadSessionBySid (s : Sso) (windows : SessionWindows) (sid : Uuid) : Option SessionRow :=
  (s.sessions.find? sid).filter fun r => r.live windows s.clock && activeUser s r.userSub

-- logout fan-out

/-- Every enqueue is attempted; `allSettled` ignores the ones that fail. -/
def fanOutLogout (sub : Uuid) (sid : JsString) : List ClientId → Handler Unit
  | [] => pure ()
  | clientId :: rest => do
      let _settled ← (await (.enqueueLogout clientId sub sid)).attempt
      fanOutLogout sub sid rest

def fanOutAll : List RevokedSession → Handler Unit
  | [] => pure ()
  | r :: rest => do
      fanOutLogout r.userSub r.sid.text r.clients
      fanOutAll rest

/-- Prune the sessions past either window and log their clients out. -/
def cleanExpiredSessions : Handler Unit := do
  let windows ← getSessionWindows
  let now ← await .dateNow
  let revoked ← await (.deleteSessions (.expired (hoursBefore now windows.idleHours)
    (hoursBefore now windows.maxHours) (hoursBefore now windows.transientMaxHours)))
  fanOutAll revoked

end DreamSso
