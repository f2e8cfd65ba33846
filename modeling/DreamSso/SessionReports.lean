import DreamSso.CodeRedemption
import DreamSso.Library.SoloRuns
import Mathlib.Algebra.Order.Floor.Ring
import Mathlib.Data.Rat.Floor

/-!
`POST /internal/session-activity`: a client reports that a session is in use. One
statement checks that the client is recorded under the session and that the session is
live, and moves its last use forward; without a row the client gets a signed verdict
that the session is gone.
-/
namespace DreamSso.Activity

open Interleaving JsStrings KeyedTables

/-- The parameters of the update: the reported time in seconds, and the windows with the time
their bounds are computed from. -/
structure Report where
  sid : Uuid
  clientId : ClientId
  seconds : ℚ
  windows : SessionWindows
  computedAt : ℤ

inductive ActivityCommand
  | sso (c : Command)
  | report (r : Report)

abbrev ActivityCommand.Reply : ActivityCommand → Type
  | .sso c => c.Reply
  | .report _ => Bool

/-- to_timestamp; none where the timestamp is out of range. -/
def toTimestamp (seconds : ℚ) : Option ℤ :=
  if seconds < 9224318016000 then some ⌊seconds * 1000 + 1 / 2⌋ else none

/-- The rows the update reaches. -/
def Report.names (s : Sso) (r : Report) (sid : Uuid) (row : SessionRow) : Bool :=
  decide (sid = r.sid) && decide (r.clientId ∈ row.clients) && row.live r.windows r.computedAt &&
    activeUser s row.userSub

/-- SET last_seen = GREATEST(s.last_seen, LEAST(to_timestamp($3), now())) -/
def bump (reported clock : ℤ) (row : SessionRow) : SessionRow :=
  { row with lastSeen := max row.lastSeen (min reported clock) }

/-- UPDATE … RETURNING s.sid -/
def reportActivity (s : Sso) (r : Report) : Option Bool × Sso :=
  if s.sessions.any (r.names s) then
    match toTimestamp r.seconds with
    | some reported => (some true,
        { s with sessions := s.sessions.updateWhere (r.names s) fun _ => bump reported s.clock })
    | none => (none, s)
  else (some false, s)

def perform (P : Primitives) (out : Outside) :
    (c : ActivityCommand) → Sso → Option c.Reply × Sso
  | .sso c, s => Sso.perform P out c s
  | .report r, s => reportActivity s r

/-- Besides, a session that was loaded is touched by an update nobody awaits. -/
inductive ActivityDrift
  | sso (e : Sso.Drift)
  | touch (sid : Uuid)

def touchSession (s : Sso) (sid : Uuid) : Sso :=
  s.updateSession sid fun row => { row with lastSeen := s.clock }

def drift : ActivityDrift → Sso → Option Sso
  | .sso e, s => Sso.drift e s
  | .touch sid, s => some (touchSession s sid)

def activityServer (P : Primitives) :
    Server ActivityCommand ActivityCommand.Reply Sso Outside ActivityDrift where
  perform := perform P
  drift := drift

abbrev ActivityHandler := Prog ActivityCommand ActivityCommand.Reply

def awaitUpdate (r : Report) : ActivityHandler Bool := Prog.await (ActivityCommand.report r)

/-- A handler of the other routes. -/
def sso {α : Type} (p : Handler α) : ActivityHandler α := p.within .sso fun _ r => r

/-- The body of a report: `String(body.sid ?? '')`, and `Number(body.last_seen)` where it is
finite. -/
structure ActivityBody where
  clientAssertionType : Option JsString
  clientAssertion : Option JsString
  sid : JsString
  lastSeen : Option ℚ

/-- A signed statement to a client that a session is gone. -/
structure Verdict where
  clientId : ClientId
  sid : JsString
  iat : ℤ
  exp : ℤ
  deriving DecidableEq

inductive Answer
  | noContent
  | failed (refusal : Refusal)
  | gone (verdict : Verdict)
  | response (r : Response)
  deriving DecidableEq

/-- The client whose assertion this is; none for every failure. -/
def assertedClient (P : Primitives) (b : ActivityBody) : Handler (Option ClientId) :=
  if b.clientAssertionType ≠
      some (js "urn:ietf:params:oauth:client-assertion-type:jwt-bearer") then pure none
  else match b.clientAssertion with
    | none => pure none
    | some assertion => match (P.claimedIssuer assertion).bind id with
      | none => pure none
      | some clientId => do
          match ← await (.clientRow clientId) with
          | none => pure none
          | some client =>
              if client.disabledAt.isSome then pure none
              else do
                let keySet ← ask (.clientKeySet clientId)
                if keySet = false then pure none
                else do
                  let verified ← ask (.clientAssertion clientId assertion)
                  pure (if verified then some clientId else none)

/-- The reported time; the present second where nothing useful is reported. -/
def reportedSeconds (lastSeen : Option ℚ) (now : ℤ) : ℚ :=
  match lastSeen.filter fun t => decide (0 < t) with
  | some t => t / 1000
  | none => ((now / 1000 : ℤ) : ℚ)

def signVerdict (clientId : ClientId) (sid : JsString) : Handler Verdict := do
  ask .signingKey
  let now ← await .dateNow
  pure ⟨clientId, sid, now / 1000, now / 1000 + 120⟩

/-- The update and what its row, or the lack of one, is answered with. -/
def report (clientId : ClientId) (sid : JsString) (r : Report) : ActivityHandler Answer := do
  match ← awaitUpdate r with
  | true => pure .noContent
  | false => do
      let verdict ← sso (signVerdict clientId sid)
      pure (.gone verdict)

def reportAs (b : ActivityBody) (clientId : ClientId) (sid : Uuid) : ActivityHandler Answer := do
  let windows ← sso getSessionWindows
  let now ← sso (await .dateNow)
  report clientId b.sid ⟨sid, clientId, reportedSeconds b.lastSeen now, windows, now⟩

def postSessionActivity (P : Primitives) (b : ActivityBody) : ActivityHandler Answer := do
  match ← sso (assertedClient P b) with
  | none => pure (.failed ⟨401, "invalid_client", none⟩)
  | some clientId =>
      match Uuid.parse? b.sid with
      | none => pure (.failed ⟨400, "invalid_sid", none⟩)
      | some sid => reportAs b clientId sid

end DreamSso.Activity
