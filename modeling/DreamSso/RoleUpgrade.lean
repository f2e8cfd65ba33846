import DreamSso.RoleChanges
import DreamSso.Library.TableInserts

/-!
Migration 001. A database before the upgrade has no role ledger and no delivery
destinations, its outbox rows have no sequence and its inbox is keyed by the event
id alone. The statements run in one transaction; none of them changes a table that
is already in the new shape, so the same text can be applied again.
-/
namespace DreamSso.Upgrade

open JsStrings JsonValues KeyedTables Fallible

/-- The columns of `event_outbox` that both shapes have. -/
structure PlainEvent where
  id : Uuid
  kind : JsString
  targetClientId : Option ClientId
  payload : Json
  version : ℤ
  status : EventStatus
  attempts : ℤ
  nextAttemptAt : ℤ
  createdAt : ℤ
  deliveredAt : Option ℤ
  deriving DecidableEq

structure UpgradedEvent extends PlainEvent where
  sequence : ℕ
  lastErrorCode : Option JsString
  legacyRedisMember : Option JsString
  legacyRedisScore : Option JsNumber
  deriving DecidableEq

structure PlainReceipt where
  source : JsString
  processedAt : ℤ
  deriving DecidableEq

structure UpgradedReceipt where
  processedAt : ℤ
  eventType : Option JsString
  payloadDigest : Option Digest
  deriving DecidableEq

/-- A database before the upgrade. Outbox rows and catalogs name registered clients. -/
structure PlainDb extends RoleTables where
  oauthClients : Table ClientId OauthClient
  eventOutbox : List PlainEvent
  processedEvents : Table Uuid PlainReceipt
  uniqueIds : (eventOutbox.map fun e => e.id).Nodup
  targetsExist : ∀ e ∈ eventOutbox, ∀ c ∈ e.targetClientId, oauthClients.contains c = true
  catalogsExist : ∀ c, appRoleCatalogs.contains c = true → oauthClients.contains c = true

structure UpgradedOutbox where
  rows : List UpgradedEvent
  nextSequence : ℕ
  ordered : rows.Pairwise fun a b => a.sequence < b.sequence
  below : ∀ e ∈ rows, e.sequence < nextSequence
  uniqueIds : (rows.map fun e => e.id).Nodup

structure UpgradedDb extends RoleTables, Ledger where
  oauthClients : Table ClientId OauthClient
  eventOutbox : UpgradedOutbox
  eventDestinations : Table ClientId Destination
  processedEvents : Table (JsString × Uuid) UpgradedReceipt

inductive Schema
  | plain (db : PlainDb)
  | upgraded (db : UpgradedDb)

/-- The added identity column numbers the stored rows from one on. -/
def numberedFrom (n : ℕ) : List PlainEvent → List UpgradedEvent
  | [] => []
  | e :: rest => ⟨e, n, none, none, none⟩ :: numberedFrom (n + 1) rest

theorem numberedFrom_plain (n : ℕ) (rows : List PlainEvent) :
    (numberedFrom n rows).map (fun e => e.toPlainEvent) = rows := by
  induction rows generalizing n with
  | nil => rfl
  | cons e rest ih => simp [numberedFrom, ih]

theorem numberedFrom_bounds {n : ℕ} {rows : List PlainEvent} {e : UpgradedEvent}
    (h : e ∈ numberedFrom n rows) : n ≤ e.sequence ∧ e.sequence < n + rows.length := by
  induction rows generalizing n with
  | nil => simp [numberedFrom] at h
  | cons first rest ih =>
    rw [numberedFrom, List.mem_cons] at h
    rw [List.length_cons]
    rcases h with rfl | h
    · exact ⟨Nat.le_refl n, by show n < n + (rest.length + 1); omega⟩
    · have := ih h
      omega

theorem numberedFrom_ordered (n : ℕ) (rows : List PlainEvent) :
    (numberedFrom n rows).Pairwise fun a b => a.sequence < b.sequence := by
  induction rows generalizing n with
  | nil => exact List.Pairwise.nil
  | cons e rest ih =>
    refine List.Pairwise.cons ?_ (ih (n + 1))
    intro later hlater
    have := (numberedFrom_bounds hlater).1
    show n < later.sequence
    omega

theorem map_id_plain (rows : List UpgradedEvent) :
    (rows.map fun e => e.id) = (rows.map fun e => e.toPlainEvent).map fun e => e.id := by
  rw [List.map_map]
  rfl

def numberedOutbox (rows : List PlainEvent) (h : (rows.map fun e => e.id).Nodup) :
    UpgradedOutbox where
  rows := numberedFrom 1 rows
  nextSequence := rows.length + 1
  ordered := numberedFrom_ordered 1 rows
  below := by
    intro e he
    have := (numberedFrom_bounds he).2
    omega
  uniqueIds := by
    rw [map_id_plain, numberedFrom_plain]
    exact h

/-- The rows of the inbox under PRIMARY KEY(source,id). -/
def rekeyed (inbox : Table Uuid PlainReceipt) : List ((JsString × Uuid) × UpgradedReceipt) :=
  inbox.rows.map fun r => ((r.2.source, r.1), ⟨r.2.processedAt, none, none⟩)

def alterTables : Schema → UpgradedDb
  | .plain db =>
      { db with
        eventOutbox := numberedOutbox db.eventOutbox db.uniqueIds
        eventDestinations := ∅
        processedEvents := (∅ : Table _ _).insertAll (rekeyed db.processedEvents)
        appRoleSyncState := ∅
        appRoleEffective := ∅ }
  | .upgraded db => db

/-- INSERT ... SELECT ... ON CONFLICT DO NOTHING into a table whose rows refer to
another one: a row that is not skipped needs what it refers to. -/
def insertReferenced {κ α : Type} [DecidableEq κ] (constraint : String) (referenced : κ → Bool)
    (t : Table κ α) (rows : List (κ × α)) : Except Failure (Table κ α) :=
  if rows.all fun r => t.contains r.1 || referenced r.1 then .ok (t.insertAll rows)
  else .error (.database constraint)

def baselineStates (env : Surroundings) (db : UpgradedDb) : List (ClientId × RoleSyncState) :=
  db.appRoleCatalogs.rows.map fun r =>
    (r.1, ⟨.legacy, none, r.2.lastSyncIat, env.authorityEpoch r.1, 0, Nat.zero_le _⟩)

def baselineSyncState (env : Surroundings) (db : UpgradedDb) : Except Failure UpgradedDb := do
  let states ← insertReferenced "app_role_sync_state_client_id_fkey"
    (fun c => db.oauthClients.contains c) db.appRoleSyncState (baselineStates env db)
  .ok { db with appRoleSyncState := states }

structure BaselineRow where
  clientId : ClientId
  sub : Uuid
  rawRole : Option ℤ

/-- The common table expression of the baseline: identities crossed with catalogs,
each of the outer joins finding at most one row. -/
def effective (db : RoleTables) : List BaselineRow :=
  (db.identities.rows.filter fun i => i.2.deletedAt.isNone).flatMap fun i =>
    db.appRoleCatalogs.rows.map fun cat =>
      let ov := db.userAppRoleOverrides.find? (i.1, cat.1)
      let ur := db.userOrgRoles.find? i.1
      let od := ur.bind fun slug => db.orgRoleAppDefaults.find? (slug, cat.1)
      {
        clientId := cat.1
        sub := i.1
        rawRole := match ov, od with
          | some appRoleId, _ => appRoleId
          | none, some appRoleId => appRoleId
          | none, none => cat.2.defaultRoleId
      }

/-- A role the catalog no longer has is stored as NULL; a client without a state row
has no baseline. -/
def baselineEntries (db : UpgradedDb) : List ((ClientId × Uuid) × EffectiveEntry) :=
  (effective db.toRoleTables).filterMap fun e =>
    (db.appRoleSyncState.find? e.clientId).map fun s =>
      ((e.clientId, e.sub),
        ⟨e.rawRole.filter fun id => db.appRoles.contains (e.clientId, id), true,
          s.authorityRevision⟩)

def baselineEffective (db : UpgradedDb) : Except Failure UpgradedDb := do
  let entries ← insertReferenced "app_role_effective_client_id_fkey"
    (fun k => db.oauthClients.contains k.1 && db.identities.contains k.2) db.appRoleEffective
    (baselineEntries db)
  .ok { db with appRoleEffective := entries }

def syncRequestType : JsString := js "roles.sync_request"

def upgradePayload : Json := Json.ofObject [("reason", .text "role_event_consistency_upgrade")]

/-- `payload->>'reason'='role_event_consistency_upgrade'`; only a string has that text. -/
def upgradeReason : Json → Bool
  | .obj members =>
      decide (Json.member? members (js "reason") = some (.text "role_event_consistency_upgrade"))
  | _ => false

def isUpgradeRequest (clientId : ClientId) (e : PlainEvent) : Bool :=
  decide (e.targetClientId = some clientId) && decide (e.kind = syncRequestType) &&
    upgradeReason e.payload

/-- The enabled managed clients with a receiver. -/
def activePeer (db : UpgradedDb) (clientId : ClientId) : Bool :=
  (db.oauthClients.find? clientId).any (fun c => c.disabledAt.isNone && c.eventsUri.isSome) &&
    db.appRoleCatalogs.contains clientId

def unaskedPeers (db : UpgradedDb) : List ClientId :=
  db.oauthClients.keys.filter fun c => activePeer db c &&
    !db.eventOutbox.rows.any fun e => isUpgradeRequest c e.toPlainEvent

def upgradeRequest (env : Surroundings) (o : UpgradedOutbox) (clientId : ClientId) :
    UpgradedEvent where
  id := env.eventId o.nextSequence
  kind := syncRequestType
  targetClientId := some clientId
  payload := upgradePayload
  version := 0
  status := .pending
  attempts := 0
  nextAttemptAt := env.now
  createdAt := env.now
  deliveredAt := none
  sequence := o.nextSequence
  lastErrorCode := none
  legacyRedisMember := none
  legacyRedisScore := none

/-- The random id of the row must be new. -/
def insertRequest (env : Surroundings) (o : UpgradedOutbox) (clientId : ClientId) :
    Except Failure UpgradedOutbox :=
  if h : env.eventId o.nextSequence ∈ o.rows.map fun e => e.id then
    .error (.database "event_outbox_pkey")
  else .ok {
    rows := o.rows ++ [upgradeRequest env o clientId]
    nextSequence := o.nextSequence + 1
    ordered := by
      rw [List.pairwise_append]
      refine ⟨o.ordered, List.pairwise_singleton _ _, ?_⟩
      intro a ha b hb
      rw [List.mem_singleton] at hb
      subst hb
      exact o.below a ha
    below := by
      intro e he
      rcases List.mem_append.mp he with hold | hnew
      · have := o.below e hold
        omega
      · rw [List.mem_singleton] at hnew
        subst hnew
        exact Nat.lt_succ_self _
    uniqueIds := by
      rw [List.map_append, List.nodup_append]
      refine ⟨o.uniqueIds, by simp, ?_⟩
      intro a ha b hb hab
      rw [List.map_singleton, List.mem_singleton] at hb
      subst hb
      have hid : a = env.eventId o.nextSequence := hab
      exact h (hid ▸ ha)
  }

def requestSync (env : Surroundings) (db : UpgradedDb) : Except Failure UpgradedDb := do
  let outbox ← (unaskedPeers db).foldlM (insertRequest env) db.eventOutbox
  .ok { db with eventOutbox := outbox }

def pendingTargets (o : UpgradedOutbox) : List ClientId :=
  (o.rows.filterMap fun e => if e.status = .pending then e.targetClientId else none).dedup

def createDestinations (env : Surroundings) (db : UpgradedDb) : Except Failure UpgradedDb := do
  let destinations ← insertReferenced "event_destinations_client_id_fkey"
    (fun c => db.oauthClients.contains c) db.eventDestinations
    ((pendingTargets db.eventOutbox).map fun c => (c, ⟨none, env.now, 0⟩))
  .ok { db with eventDestinations := destinations }

/-- The statements of the migration in their order. -/
def migrate (env : Surroundings) (schema : Schema) : Except Failure UpgradedDb := do
  let db ← baselineSyncState env (alterTables schema)
  let db ← baselineEffective db
  let db ← requestSync env db
  createDestinations env db

/-- What the running server reads in the upgraded tables. The rows of its outbox, its
inbox and its audit log are left open: a publication reads none of them first. -/
structure Serves (up : UpgradedDb) (db : Db) : Prop where
  tables : db.toRoleTables = up.toRoleTables
  ledger : db.toLedger = up.toLedger
  clients : db.oauthClients = up.oauthClients
  destinations : db.eventDestinations = up.eventDestinations

end DreamSso.Upgrade
