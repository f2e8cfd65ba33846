import DreamSso.Identifiers
import DreamSso.Library.GuardedRuns

/-!
Rotation of the keys the SSO signs its tokens with. The keys are rows of one table; every
change is a transaction under an advisory lock that reads the rows again, and transactions
of any number of processes run one after another. The time is the time of the database in
microseconds; a process gets its stamps in whole milliseconds. Each process keeps the
served key set for up to a minute.
-/
namespace DreamSso.SigningKeys

open Interleaving JsStrings KeyedTables

inductive KeyStatus
  | current
  | next
  | retired
  deriving DecidableEq

/-- A row of `signing_keys` but for its kid, which the row is stored under, and the key itself. -/
structure SigningKeyRow where
  status : KeyStatus
  created_at : ℕ
  activated_at : Option ℕ
  retired_at : Option ℕ
  rotation_id : Option Uuid
  published_at : Option ℕ
  activate_after : Option ℕ
  deriving DecidableEq

abbrev KeyRow := JsString × SigningKeyRow

def SECOND : ℕ := 1000000

def SIGNING_KEY_PREPUBLICATION_SECONDS : ℕ := 300

/-- A stamp as a JavaScript date has it. -/
def milliseconds (at_ : ℕ) : ℕ := at_ / 1000

def OneWith (t : Table JsString SigningKeyRow) (p : SigningKeyRow → Prop) : Prop :=
  ∀ x ∈ t.rows, ∀ y ∈ t.rows, p x.2 → p y.2 → x.1 = y.1

instance (t : Table JsString SigningKeyRow) (p : SigningKeyRow → Prop) [DecidablePred p] :
    Decidable (OneWith t p) := by
  unfold OneWith
  infer_instance

/-- The CHECK constraints of one row. -/
def SigningKeyRow.Checked (r : SigningKeyRow) : Prop :=
  (r.published_at = none ↔ r.activate_after = none) ∧
    (∀ p ∈ r.published_at, ∀ a ∈ r.activate_after,
      p + SIGNING_KEY_PREPUBLICATION_SECONDS * SECOND ≤ a) ∧
    (r.status = .next →
      r.rotation_id.isSome = true ∧ r.activated_at = none ∧ r.retired_at = none)

instance (r : SigningKeyRow) : Decidable r.Checked := by
  unfold SigningKeyRow.Checked
  infer_instance

/-- The constraints of the table: those of each row, and the unique indexes. -/
def Admitted (t : Table JsString SigningKeyRow) : Prop :=
  (∀ x ∈ t.rows, x.2.Checked) ∧ OneWith t (fun r => r.status = .current) ∧
    OneWith t (fun r => r.status = .next) ∧
    ∀ x ∈ t.rows, ∀ y ∈ t.rows, x.2.rotation_id.isSome = true →
      x.2.rotation_id = y.2.rotation_id → x.1 = y.1

instance (t : Table JsString SigningKeyRow) : Decidable (Admitted t) := by
  unfold Admitted
  infer_instance

structure KeyTable where
  table : Table JsString SigningKeyRow
  admitted : Admitted table

namespace KeyTable

instance : EmptyCollection KeyTable := ⟨⟨∅, by decide⟩⟩

instance : DecidableEq KeyTable := fun s t =>
  decidable_of_iff (s.table = t.table) (by cases s; cases t; simp)

/-- A statement leaves the rows it makes if the constraints admit them. -/
def store? (rows : Table JsString SigningKeyRow) : Option KeyTable :=
  if h : Admitted rows then some ⟨rows, h⟩ else none

def find? (t : KeyTable) (kid : JsString) : Option SigningKeyRow := t.table.find? kid

def insert (t : KeyTable) (kid : JsString) (row : SigningKeyRow) : Option KeyTable :=
  (t.table.insertNew kid row).bind store?

/-- UPDATE with the number of rows it changes. -/
def update (t : KeyTable) (kid : JsString) (p : SigningKeyRow → Bool)
    (f : SigningKeyRow → SigningKeyRow) : Option (ℕ × KeyTable) :=
  (store? (t.table.updateWhere (fun k r => decide (k = kid) && p r) fun _ r => f r)).map fun t' =>
    (if (t.find? kid).any p then 1 else 0, t')

/-- ORDER BY created_at DESC -/
def newestFirst (rows : List KeyRow) : List KeyRow :=
  rows.insertionSort fun x y => y.2.created_at ≤ x.2.created_at

/-- The rows of status 'current' and 'next'. -/
def active (t : KeyTable) : List KeyRow :=
  newestFirst (t.table.rows.filter fun x => decide (x.2.status ≠ .retired))

end KeyTable

/-- What every reader of the active rows checks of them. -/
def consistent (rows : List KeyRow) : Bool :=
  decide (rows.length ≤ 2) && decide ((rows.filter fun x => x.2.status = .current).length ≤ 1) &&
    decide ((rows.filter fun x => x.2.status = .next).length ≤ 1) &&
    rows.all fun x => decide (x.1 ≠ []) &&
      decide (x.2.published_at = none ↔ x.2.activate_after = none) &&
      decide (∀ p ∈ x.2.published_at, ∀ a ∈ x.2.activate_after,
        milliseconds p + SIGNING_KEY_PREPUBLICATION_SECONDS * 1000 ≤ milliseconds a) &&
      decide (x.2.status = .next →
        x.2.rotation_id.isSome = true ∧ x.2.activated_at = none ∧ x.2.retired_at = none)

def need (rows : List KeyRow) : Option (List KeyRow) := if consistent rows then some rows else none

def current? (rows : List KeyRow) : Option KeyRow := rows.find? fun x => x.2.status = .current

def next? (rows : List KeyRow) : Option KeyRow := rows.find? fun x => x.2.status = .next

/-- What a transaction takes from outside: `now()`, the clock_timestamp of its statements
one after another, the kids of the keys it generates and a random uuid. -/
structure Given where
  now : ℕ
  at_ : ℕ → ℕ
  kid : ℕ → JsString
  id : Uuid

def bootstrapRow (g : Given) : SigningKeyRow :=
  ⟨.current, g.now, some (g.at_ 1), none, none, none, none⟩

/-- Missing current with historical/pending material is not a fresh install. -/
def bootstrap (g : Given) (rows : List KeyRow) (t : KeyTable) : Option KeyTable :=
  match current? rows with
  | some _ => some t
  | none =>
      if rows = [] ∧ t.table.rows = [] then do
        let t ← t.insert (g.kid 0) (bootstrapRow g)
        let _rows ← need t.active
        some t
      else none

/-- The transaction in which a signer is first selected. -/
def firstKey (g : Given) (t : KeyTable) : Option (Unit × KeyTable) := do
  let rows ← need t.active
  let t ← bootstrap g rows t
  some ((), t)

def nextRow (g : Given) : SigningKeyRow := ⟨.next, g.now, none, none, some g.id, none, none⟩

/-- The transaction of `schedule`, with the kid of the pending key. -/
def scheduleKey (g : Given) (t : KeyTable) : Option (JsString × KeyTable) := do
  let rows ← need t.active
  let t ← bootstrap g rows t
  match next? rows with
  | some next => some (next.1, t)
  | none => do
      let t ← t.insert (g.kid 1) (nextRow g)
      some (g.kid 1, t)

def SigningKeyRow.marked (at_ : ℕ) (r : SigningKeyRow) : SigningKeyRow :=
  { r with
    published_at := some at_
    activate_after := some (at_ + SIGNING_KEY_PREPUBLICATION_SECONDS * SECOND) }

def SigningKeyRow.retire (at_ : ℕ) (r : SigningKeyRow) : SigningKeyRow :=
  { r with status := .retired, retired_at := some at_ }

def SigningKeyRow.activate (at_ : ℕ) (r : SigningKeyRow) : SigningKeyRow :=
  { r with status := .current, activated_at := some at_ }

/-- The transaction of `reconcile`, which says whether it modified a row. Its marker is
written after the key was published by an earlier commit. -/
def reconcileKey (g : Given) (kid : JsString) (t : KeyTable) : Option (Bool × KeyTable) := do
  let rows ← need t.active
  let current ← current? rows
  match next? rows with
  | none => some (false, t)
  | some next =>
      if next.1 ≠ kid then some (false, t)
      else
        match next.2.published_at, next.2.activate_after with
        | none, _ => do
            let (_, t) ← t.update kid (fun r => r.status = .next && r.published_at.isNone)
              (SigningKeyRow.marked (g.at_ 1))
            some (true, t)
        | some _, none => none
        | some _, some after =>
            if milliseconds (g.at_ 0) < milliseconds after then some (false, t)
            else do
              let (_, t) ← t.update current.1 (fun r => r.status = .current)
                (SigningKeyRow.retire (g.at_ 1))
              let (n, t) ← t.update kid (fun r => r.status = .next)
                (SigningKeyRow.activate (g.at_ 2))
              if n = 1 then some (true, t) else none

def RETIRED_JWKS_WINDOW : ℕ := 24 * 3600 * SECOND

def JWKS_CACHE : ℕ := 60 * SECOND

def READ_LIMIT : ℕ := 5 * SECOND

/-- Rows whose keys are published: current, next, and retired for less than a day. -/
def SigningKeyRow.Published (now : ℕ) (r : SigningKeyRow) : Prop :=
  r.status = .retired → ∃ at_ ∈ r.retired_at, now < at_ + RETIRED_JWKS_WINDOW

instance (now : ℕ) (r : SigningKeyRow) : Decidable (r.Published now) := by
  unfold SigningKeyRow.Published
  infer_instance

def KeyTable.jwks (t : KeyTable) (now : ℕ) : List JsString :=
  (KeyTable.newestFirst (t.table.rows.filter fun x => decide (x.2.Published now))).map Prod.fst

/-- A key set by its kids, with the time its read was started. -/
structure JwksCache where
  value : List JsString
  at_ : ℕ
  deriving DecidableEq

/-- The table, the time, when the advisory lock was last released, and the cached key set
of every process. -/
structure KeyService (ρ : Type) where
  keys : KeyTable
  clock : ℕ
  released : ℕ
  jwksCache : ρ → Option JwksCache

inductive JwksLookup
  | hit (value : List JsString)
  | miss (started : ℕ)
  deriving DecidableEq

/-- What a process does between two awaits: a statement on the pool, a transaction, or a
look at its cache. -/
inductive KeyCommand (ρ : Type)
  | select
  | firstKey
  | scheduleKey
  | reconcileKey (kid : JsString)
  | changed (process : ρ)
  | lookup (process : ρ)
  | selectJwks
  | publish (process : ρ) (value : List JsString) (started : ℕ)

abbrev KeyCommand.Reply {ρ : Type} : KeyCommand ρ → Type
  | .select => List KeyRow × ℕ
  | .firstKey => Unit
  | .scheduleKey => JsString
  | .reconcileKey _ => Bool
  | .changed _ => Unit
  | .lookup _ => JwksLookup
  | .selectJwks => List JsString
  | .publish _ _ _ => Bool

section Service

variable {ρ : Type}

/-- The statements of a transaction are executed while it holds the lock. -/
def Given.Within (g : Given) (s : KeyService ρ) : Prop :=
  g.now ≤ g.at_ 0 ∧ s.released ≤ g.at_ 0 ∧ g.at_ 0 ≤ g.at_ 1 ∧ g.at_ 1 ≤ g.at_ 2 ∧ g.at_ 2 ≤ s.clock

instance (g : Given) (s : KeyService ρ) : Decidable (g.Within s) := by
  unfold Given.Within
  infer_instance

/-- A transaction commits or is rolled back; when its answer is lost it may have committed. -/
def KeyService.transaction {α : Type} (s : KeyService ρ) (w : Interleaving.Outcome × Given)
    (work : KeyTable → Option (α × KeyTable)) : Option α × KeyService ρ :=
  if w.2.Within s then
    match w.1, work s.keys with
    | .refused, _ => (none, s)
    | _, none => (none, { s with released := s.clock })
    | .answered, some (a, keys) => (some a, { s with keys := keys, released := s.clock })
    | .lost, some (_, keys) => (none, { s with keys := keys, released := s.clock })
  else (none, s)

def KeyService.lookup (s : KeyService ρ) (process : ρ) : JwksLookup :=
  match s.jwksCache process with
  | some c => if s.clock < c.at_ + JWKS_CACHE then .hit c.value else .miss s.clock
  | none => .miss s.clock

variable [DecidableEq ρ]

def KeyService.setCache (s : KeyService ρ) (process : ρ) (v : Option JwksCache) : KeyService ρ :=
  { s with jwksCache := Function.update s.jwksCache process v }

/-- A stalled read is not cached, and neither is an empty key set. -/
def KeyService.publish (s : KeyService ρ) (process : ρ) (value : List JsString) (started : ℕ) :
    Option Bool × KeyService ρ :=
  if started + READ_LIMIT < s.clock ∨ value = [] then (some false, s)
  else (some true, s.setCache process (some ⟨value, started⟩))

def perform (w : Interleaving.Outcome × Given) :
    (c : KeyCommand ρ) → KeyService ρ → Option c.Reply × KeyService ρ
  | .select, s => (if w.1 = .answered then some (s.keys.active, s.clock) else none, s)
  | .firstKey, s => s.transaction w (SigningKeys.firstKey w.2)
  | .scheduleKey, s => s.transaction w (SigningKeys.scheduleKey w.2)
  | .reconcileKey kid, s => s.transaction w (SigningKeys.reconcileKey w.2 kid)
  | .changed process, s => (some (), s.setCache process none)
  | .lookup process, s => (some (s.lookup process), s)
  | .selectJwks, s => (if w.1 = .answered then some (s.keys.jwks s.clock) else none, s)
  | .publish process value started, s => s.publish process value started

/-- Time passes by itself. -/
def keyServer (ρ : Type) [DecidableEq ρ] :
    Server (KeyCommand ρ) KeyCommand.Reply (KeyService ρ) (Interleaving.Outcome × Given) ℕ where
  perform := perform
  drift elapsed s := some { s with clock := s.clock + elapsed }

abbrev KeyProg (ρ : Type) (α : Type) := Prog (KeyCommand ρ) KeyCommand.Reply α

end Service

section Calls

variable {ρ : Type}

def await (c : KeyCommand ρ) : KeyProg ρ c.Reply := Prog.await c

def orThrow {α : Type} : Option α → KeyProg ρ α
  | some a => pure a
  | none => .thrown

def rows : KeyProg ρ (List KeyRow × ℕ) := do
  let (found, observed) ← await .select
  let found ← orThrow (need found)
  pure (found, observed)

def reconcile (process : ρ) (kid : JsString) : KeyProg ρ Unit := do
  let modified ← await (.reconcileKey kid)
  if modified then await (.changed process) else pure ()

/-- The pending key is to be marked, or is to be activated. -/
def due (next : KeyRow) (observed : ℕ) : Bool :=
  match next.2.published_at with
  | none => true
  | some _ => next.2.activate_after.any fun after =>
      decide (milliseconds after ≤ milliseconds observed)

def bootstrapped (process : ρ) : KeyProg ρ (List KeyRow × ℕ) := do
  let (found, observed) ← rows
  match current? found with
  | some _ => pure (found, observed)
  | none => do
      await .firstKey
      await (.changed process)
      rows

/-- Whether a failure to reconcile ends the call is the caller's choice; the signer is
read again either way. -/
def reconciled (process : ρ) (strictReconcile : Bool) (found : List KeyRow) (observed : ℕ) :
    KeyProg ρ (List KeyRow) :=
  match next? found with
  | none => pure found
  | some next =>
      if due next observed then do
        match ← (reconcile process next.1).attempt with
        | some () => do
            let (found, _) ← rows
            pure found
        | none =>
            if strictReconcile then .thrown
            else do
              let (found, _) ← rows
              pure found
      else pure found

def current (process : ρ) (strictReconcile : Bool) : KeyProg ρ KeyRow := do
  let (found, observed) ← bootstrapped process
  let found ← reconciled process strictReconcile found observed
  orThrow (current? found)

structure RotationStatus where
  id : Option Uuid
  kid : JsString
  published_at : Option ℕ
  activate_after : Option ℕ
  deriving DecidableEq

structure SigningKeyStatus where
  kid : JsString
  rotated_at : Option ℕ
  rotation : Option RotationStatus
  deriving DecidableEq

def status (process : ρ) : KeyProg ρ SigningKeyStatus := do
  let _signer ← current process true
  let (found, _) ← rows
  let current ← orThrow (current? found)
  pure ⟨current.1, current.2.activated_at.map milliseconds, (next? found).map fun next =>
    ⟨next.2.rotation_id, next.1, next.2.published_at.map milliseconds,
      next.2.activate_after.map milliseconds⟩⟩

def schedule (process : ρ) : KeyProg ρ SigningKeyStatus := do
  let pendingKid ← await .scheduleKey
  await (.changed process)
  reconcile process pendingKid
  status process

def getJwks (process : ρ) : KeyProg ρ (List JsString) := do
  match ← await (.lookup process) with
  | .hit value => pure value
  | .miss started => do
      let value ← await .selectJwks
      if ← await (.publish process value started) then pure value else .thrown

inductive KeyCall (ρ : Type)
  | current (process : ρ)
  | status (process : ρ)
  | schedule (process : ρ)
  | reconcile (process : ρ) (kid : JsString)
  | getJwks (process : ρ)

inductive KeyAnswer
  | signer (kid : JsString)
  | status (s : SigningKeyStatus)
  | reconciled
  | jwks (value : List JsString)
  deriving DecidableEq

def KeyCall.program : KeyCall ρ → KeyProg ρ KeyAnswer
  | .current process => do
      let signer ← SigningKeys.current process false
      pure (.signer signer.1)
  | .status process => do
      let s ← SigningKeys.status process
      pure (.status s)
  | .schedule process => do
      let s ← SigningKeys.schedule process
      pure (.status s)
  | .reconcile process kid => do
      SigningKeys.reconcile process kid
      pure .reconciled
  | .getJwks process => do
      let value ← SigningKeys.getJwks process
      pure (.jwks value)

end Calls

end DreamSso.SigningKeys
