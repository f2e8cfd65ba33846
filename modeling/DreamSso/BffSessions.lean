import DreamSso.Library.ExpiringCommands
import DreamSso.Library.Interleaving
import DreamSso.Library.JsStrings

/-!
Sessions of the account console in its Redis. A session and the index from its SSO
session to it are written by separate commands; an update reads the remaining time
to live and writes the record again; a revocation reads the index, deletes the
sessions it lists and then the index.
-/
namespace DreamSso.Bff

open Interleaving JsStrings

/-- The fields of a session that some function here reads or writes. -/
structure SessionData where
  sub : JsString
  ssoSid : Option JsString
  accessToken : JsString
  accessExpiresAt : ℤ
  deriving DecidableEq

inductive Key
  | session (sid : JsString)
  | ssoSid (ssoSid : JsString)
  | seen (id : JsString)
  deriving DecidableEq

/-- Markers are numbered in the order in which they are set; no program looks at
the number. -/
abbrev Key.Value : Key → Type
  | .session _ => SessionData
  | .ssoSid _ => List JsString
  | .seen _ => ℕ

/-- What the receiver reads of one event of an envelope: its id and type where they
are texts, and the `sid` of its payload where that is one. -/
structure RawEvent where
  id : Option JsString
  type : JsString
  sid : Option JsString
  deriving DecidableEq

/-- `randomBytes n` is the text of the `n`-th value drawn; `sessionTtl` is
configured; `signedEvents` are the events of a token that the SSO has signed for
this client, an empty list where they are no array. -/
structure Primitives where
  randomBytes : ℕ → JsString
  sessionTtl : ℕ
  signedEvents : JsString → Option (List RawEvent)

inductive Command
  | randomBytes
  | setSession (sid : JsString) (data : SessionData) (ttlSeconds : ℕ)
  | sadd (ssoSid sid : JsString)
  | expire (k : Key) (ttlSeconds : ℕ)
  | smembers (ssoSid : JsString)
  | del (keys : List Key)
  | getSession (sid : JsString)
  | ttl (sid : JsString)
  | setSeen (id : JsString)
  | renew (data : SessionData)
  | jwtVerify (token : JsString)
  | dateNow

abbrev Command.Reply : Command → Type
  | .randomBytes => JsString
  | .setSession _ _ _ => Unit
  | .sadd _ _ => Unit
  | .expire _ _ => Unit
  | .smembers _ => List JsString
  | .del _ => Unit
  | .getSession _ => Option SessionData
  | .ttl _ => ℤ
  | .setSeen _ => Option ℕ
  | .renew _ => Option (JsString × Option ℤ)
  | .jwtVerify _ => Bool
  | .dateNow => ℤ

structure BffDb where
  clock : ℤ
  draws : ℕ
  marks : ℕ
  redis : ExpiringStore.Store Key Key.Value

/-- What the SSO answers to a renewal, and whether a token it has signed verifies
now. -/
structure Outside where
  renew : SessionData → Option (Option (JsString × Option ℤ))
  verifies : JsString → Option Bool

def SEEN_TTL : ℕ := 7 * 24 * 3600

def RENEW_SKEW_S : ℤ := 30

namespace BffDb

def milliseconds (seconds : ℕ) : ℤ := 1000 * seconds

/-- `SADD` keeps the time to live; a new set has none. -/
def sadd (s : BffDb) (ssoSid sid : JsString) : BffDb :=
  let members := (ExpiringStore.get s.redis s.clock (.ssoSid ssoSid)).getD []
  { s with redis := ExpiringStore.setKeepTtl s.redis s.clock (.ssoSid ssoSid) (members.insert sid) }

def storeSession (s : BffDb) (sid : JsString) (data : SessionData) (ttlSeconds : ℕ) : BffDb :=
  let deadline := s.clock + milliseconds ttlSeconds
  { s with redis := ExpiringStore.setEx s.redis (.session sid) data deadline }

/-- `SET` with `EX`, which refuses an expire time of zero. -/
def setSession (s : BffDb) (sid : JsString) (data : SessionData) (ttlSeconds : ℕ) :
    Option Unit × BffDb :=
  if ttlSeconds = 0 then (none, s) else (some (), s.storeSession sid data ttlSeconds)

def expire (s : BffDb) (k : Key) (ttlSeconds : ℕ) : BffDb :=
  let deadline := s.clock + milliseconds ttlSeconds
  { s with redis := ExpiringStore.expire s.redis s.clock k deadline }

def del (s : BffDb) (keys : List Key) : BffDb :=
  { s with redis := ExpiringStore.del s.redis keys }

/-- `SET` with `NX`: the number of the new marker, or nothing if there is one. -/
def setSeen (s : BffDb) (id : JsString) : Option ℕ × BffDb :=
  let deadline := s.clock + milliseconds SEEN_TTL
  if ExpiringStore.holds s.redis s.clock (.seen id) then (none, s)
  else (some s.marks, { s with
    redis := ExpiringStore.setEx s.redis (.seen id) s.marks deadline
    marks := s.marks + 1 })

def perform (P : Primitives) (out : Outside) : (c : Command) → BffDb → Option c.Reply × BffDb
  | .randomBytes, s => (some (P.randomBytes s.draws), { s with draws := s.draws + 1 })
  | .setSession sid data ttlSeconds, s => s.setSession sid data ttlSeconds
  | .sadd ssoSid sid, s => (some (), s.sadd ssoSid sid)
  | .expire k ttlSeconds, s => (some (), s.expire k ttlSeconds)
  | .smembers ssoSid, s =>
      (some ((ExpiringStore.get s.redis s.clock (.ssoSid ssoSid)).getD []), s)
  | .del keys, s => (some (), s.del keys)
  | .getSession sid, s => (some (ExpiringStore.get s.redis s.clock (.session sid)), s)
  | .ttl sid, s => (some (ExpiringStore.ttl s.redis s.clock (.session sid)), s)
  | .setSeen id, s =>
      let answer := s.setSeen id
      (some answer.1, answer.2)
  | .renew data, s => (out.renew data, s)
  | .jwtVerify token, s =>
      ((out.verifies token).map fun ok => ok && (P.signedEvents token).isSome, s)
  | .dateNow, s => (some s.clock, s)

/-- Time passes. -/
def drift (milliseconds : ℕ) (s : BffDb) : Option BffDb :=
  some { s with clock := s.clock + milliseconds }

section Frames

variable {s : BffDb} {k : Key} {sid ssoSid : JsString} {data : SessionData} {ttlSeconds : ℕ}
  {keys : List Key}

theorem storeSession_self : (s.storeSession sid data ttlSeconds).redis (.session sid) =
    some ⟨data, some (s.clock + milliseconds ttlSeconds)⟩ := ExpiringStore.setEx_self ..

theorem storeSession_other (hk : k ≠ .session sid) :
    (s.storeSession sid data ttlSeconds).redis k = s.redis k := by
  rw [storeSession]
  exact ExpiringStore.setEx_ne _ _ _ hk

theorem setSession_other (hk : k ≠ .session sid) :
    (s.setSession sid data ttlSeconds).2.redis k = s.redis k := by
  unfold setSession
  split_ifs
  · rfl
  · exact storeSession_other hk

theorem sadd_other (hk : k ≠ .ssoSid ssoSid) : (s.sadd ssoSid sid).redis k = s.redis k := by
  rw [sadd]
  exact ExpiringStore.setKeepTtl_ne _ _ _ hk

theorem expire_self : (s.expire k ttlSeconds).redis k =
    (ExpiringStore.visible? s.redis s.clock k).map fun e =>
      ⟨e.value, some (s.clock + milliseconds ttlSeconds)⟩ := ExpiringStore.expire_self ..

theorem expire_other {k' : Key} (hk : k ≠ k') : (s.expire k' ttlSeconds).redis k = s.redis k :=
  ExpiringStore.expire_ne _ _ _ hk

theorem setSeen_other {id : JsString} (hk : k ≠ .seen id) :
    (s.setSeen id).2.redis k = s.redis k := by
  unfold setSeen
  split_ifs
  · rfl
  · exact ExpiringStore.setEx_ne _ _ _ hk

theorem del_of_mem (h : k ∈ keys) : (s.del keys).redis k = none := ExpiringStore.del_of_mem _ h

theorem del_of_notMem (h : k ∉ keys) : (s.del keys).redis k = s.redis k :=
  ExpiringStore.del_of_notMem _ h

end Frames

end BffDb

def bffServer (P : Primitives) : Server Command Command.Reply BffDb Outside ℕ where
  perform := BffDb.perform P
  drift := BffDb.drift

abbrev Handler := Prog Command Command.Reply

def await (c : Command) : Handler c.Reply := Prog.await c

-- session.ts

/-- A session without an SSO session, or with the empty one, is not indexed. -/
def SessionData.indexed (data : SessionData) : Option JsString :=
  data.ssoSid.filter fun ssoSid => decide (ssoSid ≠ [])

def createSession (data : SessionData) (ttlSeconds : ℕ) : Handler JsString := do
  let sid ← await .randomBytes
  await (.setSession sid data ttlSeconds)
  match data.indexed with
  | none => pure sid
  | some ssoSid => do
      await (.sadd ssoSid sid)
      await (.expire (.ssoSid ssoSid) ttlSeconds)
      pure sid

def revokeBySsoSid (ssoSid : JsString) : Handler ℕ := do
  let sids ← await (.smembers ssoSid)
  if sids ≠ [] then do
    await (.del (sids.map .session))
    await (.del [.ssoSid ssoSid])
    pure sids.length
  else do
    await (.del [.ssoSid ssoSid])
    pure sids.length

/-- A missing cookie is the empty text. -/
def getSession (sid : JsString) : Handler (Option SessionData) :=
  if sid = [] then pure none else await (.getSession sid)

def updateTtl (P : Primitives) (ttl : ℤ) : ℕ := if 0 < ttl then ttl.toNat else P.sessionTtl

def updateSession (P : Primitives) (sid : JsString) (data : SessionData) : Handler Unit := do
  let ttl ← await (.ttl sid)
  await (.setSession sid data (updateTtl P ttl))

def destroySession (sid : JsString) : Handler Unit :=
  if sid = [] then pure () else await (.del [.session sid])

-- routes/api.ts

/-- The session with a new access token, or nothing if it cannot be renewed. -/
def renewAccessToken (s : SessionData) : Handler (Option SessionData) :=
  if s.indexed = none then pure none
  else do
    match (← (await (.renew s)).attempt).join.filter fun d => decide (d.1 ≠ []) with
    | none => pure none
    | some (accessToken, expiresIn) => do
        let now ← await .dateNow
        pure (some { s with
          accessToken := accessToken
          accessExpiresAt := now / 1000 + expiresIn.getD 900 })

/-- `requireSession`; without a session the request is answered 401. -/
def requireSession (P : Primitives) (sid : JsString) : Handler (Option SessionData) := do
  match ← getSession sid with
  | none => pure none
  | some sess => do
      let now ← await .dateNow
      if sess.accessExpiresAt ≤ now / 1000 + RENEW_SKEW_S then do
        match ← renewAccessToken sess with
        | none => pure (some sess)
        | some renewed => do
            updateSession P sid renewed
            pure (some renewed)
      else pure (some sess)

end DreamSso.Bff
