import DreamSso.Identifiers
import DreamSso.Library.ExpiringCommands
import DreamSso.Library.Interleaving
import DreamSso.Library.JsConversions

/-!
Pending links in Redis: registrations by address, and email verifications with a
token, a pointer from the user to it and a reservation of the new address. Each
key is written and deleted by a command of its own; a resend within five minutes
writes the record again and keeps its time to live.
-/
namespace DreamSso.Links

open Interleaving JsConversions JsStrings

structure PendingRegistration where
  token : JsString
  code : Option JsString
  createdAt : ℤ
  lastSent : ℤ
  deriving DecidableEq

inductive ChangeKind
  | change
  | confirm
  deriving DecidableEq

structure EmailChange where
  sub : Uuid
  kind : ChangeKind
  newEmail : JsString
  token : JsString
  createdAt : ℤ
  lastSent : ℤ
  deriving DecidableEq

/-- The token hash a user points to. No program looks at when its link was created. -/
structure Pointer where
  hash : JsString
  createdAt : ℤ
  deriving DecidableEq

/-- The owner of a reserved address. No program looks at which link it was reserved
for. -/
structure Reservation where
  sub : Uuid
  hash : JsString
  createdAt : ℤ
  deriving DecidableEq

inductive Key
  | pending (email : JsString)
  | tok (hash : JsString)
  | user (sub : Uuid)
  | addr (email : JsString)
  deriving DecidableEq

abbrev Key.Value : Key → Type
  | .pending _ => PendingRegistration
  | .tok _ => EmailChange
  | .user _ => Pointer
  | .addr _ => Reservation

/-- When the link was created that a key belongs to, in seconds. -/
def Key.createdAt : (k : Key) → k.Value → ℤ
  | .pending _, v => PendingRegistration.createdAt v
  | .tok _, v => EmailChange.createdAt v
  | .user _, v => Pointer.createdAt v
  | .addr _, v => Reservation.createdAt v

inductive Encoding
  | hex
  | base64url
  deriving DecidableEq

/-- `randomBytes size encoding n` is the text of the `n`-th value drawn. -/
structure Primitives where
  sha256 : JsString → JsString
  randomBytes : ℕ → Encoding → ℕ → JsString
  toLowerCase : JsString → JsString

def Primitives.pendKey (P : Primitives) (email : JsString) : Key := .pending (P.toLowerCase email)

def Primitives.tokKey (P : Primitives) (token : JsString) : Key := .tok (P.sha256 token)

def Primitives.addrKey (P : Primitives) (email : JsString) : Key := .addr (P.toLowerCase email)

structure Identity where
  sub : Uuid
  email : Option JsString
  emailVerified : Bool

inductive SendReservation
  | ok (nextBackoff : ℤ)
  | denied (retryAfter : ℤ) (canRetry : Bool)

/-- What the routes ask of the database, the settings, the send limiter and the mail
service. `taken` is whether another present identity has the address. -/
inductive Question
  | portalAssertion
  | loadIdentity (sub : Uuid)
  | hasPerm (sub : Uuid) (permKey : String)
  | taken (email : JsString) (sub : Uuid)
  | freshStepup (sub : Uuid)
  | emailConfigured
  | reserveRegistrationSend (email : JsString)
  | releaseRegistrationSend (email : JsString)
  | sendEmail (recipient : JsString) (kind : ChangeKind) (token : JsString)
  | verifyEmail (sub : Uuid) (email : JsString)
  | updateEmail (sub : Uuid) (email : JsString)

abbrev Question.Answer : Question → Type
  | .portalAssertion => Bool
  | .loadIdentity _ => Option Identity
  | .hasPerm _ _ => Bool
  | .taken _ _ => Bool
  | .freshStepup _ => Bool
  | .emailConfigured => Bool
  | .reserveRegistrationSend _ => SendReservation
  | .releaseRegistrationSend _ => Unit
  | .sendEmail _ _ _ => Bool
  | .verifyEmail _ _ => Bool
  | .updateEmail _ _ => Unit

inductive Command
  | dateNow
  | randomBytes (size : ℕ) (encoding : Encoding)
  | get (k : Key)
  | set (k : Key) (v : k.Value) (ttlSeconds : ℕ)
  | setKeepTtl (k : Key) (v : k.Value)
  | getdel (k : Key)
  | del (keys : List Key)
  | existsKey (k : Key)
  | ask (q : Question)

abbrev Command.Reply : Command → Type
  | .dateNow => ℤ
  | .randomBytes _ _ => JsString
  | .get k => Option k.Value
  | .set _ _ _ => Unit
  | .setKeepTtl _ _ => Unit
  | .getdel k => Option k.Value
  | .del _ => Unit
  | .existsKey _ => Bool
  | .ask q => q.Answer

structure LinkDb where
  clock : ℤ
  draws : ℕ
  redis : ExpiringStore.Store Key Key.Value

abbrev Outside := (q : Question) → q.Answer

def TOKEN_TTL_SECONDS : ℕ := 30 * 60

def TOKEN_REUSE_SECONDS : ℤ := 5 * 60

namespace LinkDb

def milliseconds (seconds : ℕ) : ℤ := 1000 * seconds

def get (s : LinkDb) (k : Key) : Option k.Value := ExpiringStore.get s.redis s.clock k

def set (s : LinkDb) (k : Key) (v : k.Value) (ttlSeconds : ℕ) : LinkDb :=
  let deadline := s.clock + milliseconds ttlSeconds
  { s with redis := ExpiringStore.setEx s.redis k v deadline }

def setKeepTtl (s : LinkDb) (k : Key) (v : k.Value) : LinkDb :=
  { s with redis := ExpiringStore.setKeepTtl s.redis s.clock k v }

def del (s : LinkDb) (keys : List Key) : LinkDb :=
  { s with redis := ExpiringStore.del s.redis keys }

def perform (P : Primitives) (out : Outside) : (c : Command) → LinkDb → Option c.Reply × LinkDb
  | .dateNow, s => (some s.clock, s)
  | .randomBytes size encoding, s =>
    (some (P.randomBytes size encoding s.draws), { s with draws := s.draws + 1 })
  | .get k, s => (some (s.get k), s)
  | .set k v ttlSeconds, s => (some (), s.set k v ttlSeconds)
  | .setKeepTtl k v, s => (some (), s.setKeepTtl k v)
  | .getdel k, s => (some (s.get k), s.del [k])
  | .del keys, s => (some (), s.del keys)
  | .existsKey k, s => (some (s.get k).isSome, s)
  | .ask q, s => (some (out q), s)

/-- Time passes. -/
def drift (milliseconds : ℕ) (s : LinkDb) : Option LinkDb :=
  some { s with clock := s.clock + milliseconds }

section Frames

variable {s : LinkDb} {k k' : Key} {v : k.Value} {ttlSeconds : ℕ} {keys : List Key}

theorem set_self : (s.set k v ttlSeconds).redis k =
    some ⟨v, some (s.clock + milliseconds ttlSeconds)⟩ := ExpiringStore.setEx_self ..

theorem set_other (h : k' ≠ k) : (s.set k v ttlSeconds).redis k' = s.redis k' :=
  ExpiringStore.setEx_ne _ _ _ h

theorem setKeepTtl_self : (s.setKeepTtl k v).redis k =
    some ⟨v, (ExpiringStore.visible? s.redis s.clock k).bind ExpiringStore.Stored.deadline⟩ :=
  ExpiringStore.setKeepTtl_self ..

theorem setKeepTtl_other (h : k' ≠ k) : (s.setKeepTtl k v).redis k' = s.redis k' :=
  ExpiringStore.setKeepTtl_ne _ _ _ h

theorem del_of_mem (h : k ∈ keys) : (s.del keys).redis k = none := ExpiringStore.del_of_mem _ h

theorem del_of_notMem (h : k ∉ keys) : (s.del keys).redis k = s.redis k :=
  ExpiringStore.del_of_notMem _ h

end Frames

end LinkDb

def linkServer (P : Primitives) : Server Command Command.Reply LinkDb Outside ℕ where
  perform := LinkDb.perform P
  drift := LinkDb.drift

abbrev Handler := Prog Command Command.Reply

def await (c : Command) : Handler c.Reply := Prog.await c

/-- `Math.floor(Date.now() / 1000)` -/
def nowSeconds : Handler ℤ := do
  let now : ℤ ← await .dateNow
  pure (now / 1000)

/-- A token and whether it is the one sent before. -/
structure Issued where
  token : JsString
  reused : Bool
  deriving DecidableEq

-- registration.ts

def getPending (P : Primitives) (email : JsString) : Handler (Option PendingRegistration) :=
  await (.get (P.pendKey email))

def PendingRegistration.reusable (cur : PendingRegistration) (code : Option JsString) (now : ℤ) :
    Bool := decide (cur.code = code ∧ now - cur.lastSent < TOKEN_REUSE_SECONDS)

def issuePending (P : Primitives) (email : JsString) (code : Option JsString) :
    Handler Issued := do
  let now ← nowSeconds
  let cur ← getPending P email
  match cur.filter fun cur => cur.reusable code now with
  | some cur => do
      await (.setKeepTtl (P.pendKey email) { cur with lastSent := now })
      pure ⟨cur.token, true⟩
  | none => do
      let token : JsString ← await (.randomBytes 48 .hex)
      await (.set (P.pendKey email) (⟨token, code, now, now⟩ : PendingRegistration)
        TOKEN_TTL_SECONDS)
      pure ⟨token, false⟩

def validatePending (P : Primitives) (email token : JsString) :
    Handler (Option PendingRegistration) :=
  if token.length < 32 ∨ 128 < token.length then pure none
  else do
    let cur ← getPending P email
    pure (cur.filter fun cur => decide (P.sha256 cur.token = P.sha256 token))

def dropPending (P : Primitives) (email : JsString) : Handler Unit :=
  await (.del [P.pendKey email])

def pendingEmailExists (P : Primitives) (email : JsString) : Handler Bool :=
  await (.existsKey (P.pendKey email))

-- emailChange.ts

def getEmailChange (sub : Uuid) : Handler (Option EmailChange) := do
  let pointer : Option Pointer ← await (.get (.user sub))
  match pointer with
  | none => pure none
  | some pointer => await (.get (.tok pointer.hash))

/-- The reservation of a change. A confirmation has none. -/
def deleteReservation (P : Primitives) (change : EmailChange) : Handler Unit :=
  match change.kind with
  | .change => await (.del [P.addrKey change.newEmail])
  | .confirm => pure ()

def dropEmailChange (P : Primitives) (change : EmailChange) : Handler Unit := do
  await (.del [P.tokKey change.token, .user change.sub])
  deleteReservation P change

def EmailChange.reusable (P : Primitives) (cur : EmailChange) (kind : ChangeKind)
    (newEmail : JsString) (now : ℤ) : Bool :=
  decide (cur.kind = kind ∧ P.toLowerCase cur.newEmail = P.toLowerCase newEmail ∧
    now - cur.lastSent < TOKEN_REUSE_SECONDS)

def dropCurrent (P : Primitives) : Option EmailChange → Handler Unit
  | none => pure ()
  | some cur => dropEmailChange P cur

/-- A new link is stored under its token, its user and its address. -/
def storeEmailChange (P : Primitives) (change : EmailChange) : Handler Unit := do
  await (.set (P.tokKey change.token) change TOKEN_TTL_SECONDS)
  await (.set (.user change.sub) (⟨P.sha256 change.token, change.createdAt⟩ : Pointer)
    TOKEN_TTL_SECONDS)
  match change.kind with
  | .change => await (.set (P.addrKey change.newEmail)
      (⟨change.sub, P.sha256 change.token, change.createdAt⟩ : Reservation) TOKEN_TTL_SECONDS)
  | .confirm => pure ()

def issueEmailChange (P : Primitives) (sub : Uuid) (kind : ChangeKind) (newEmail : JsString) :
    Handler Issued := do
  let now ← nowSeconds
  let cur ← getEmailChange sub
  match cur.filter fun cur => cur.reusable P kind newEmail now with
  | some cur => do
      await (.setKeepTtl (P.tokKey cur.token) { cur with lastSent := now })
      pure ⟨cur.token, true⟩
  | none => do
      dropCurrent P cur
      let token : JsString ← await (.randomBytes 32 .base64url)
      storeEmailChange P ⟨sub, kind, newEmail, token, now, now⟩
      pure ⟨token, false⟩

def redeemEmailChange (P : Primitives) (token : JsString) : Handler (Option EmailChange) :=
  if token.length < 20 ∨ 100 < token.length then pure none
  else do
    let found : Option EmailChange ← await (.getdel (P.tokKey token))
    match found with
    | none => pure none
    | some change => do
        await (.del [.user change.sub])
        deleteReservation P change
        pure (some change)

def cancelEmailChange (P : Primitives) (sub : Uuid) : Handler Bool := do
  match ← getEmailChange sub with
  | none => pure false
  | some cur => do
      dropEmailChange P cur
      pure true

def changePendingForAddress (P : Primitives) (email : JsString) : Handler Bool :=
  await (.existsKey (P.addrKey email))

def emailReserved (P : Primitives) (email : JsString) : Handler Bool := do
  if ← pendingEmailExists P email then pure true else changePendingForAddress P email

end DreamSso.Links
