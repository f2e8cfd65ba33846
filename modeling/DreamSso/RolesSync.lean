import DreamSso.RoleCatalogs
import DreamSso.RoleChanges

/-!
The inbox of role catalogs. Every event of an envelope is checked against its
receipt, a catalog is ordered against the stored one and replaces it, and the
roles it changes are published; one failing event fails the whole envelope.
-/
namespace DreamSso

open JsStrings JsonValues JsConversions KeyedTables StoredJson Fallible

inductive CatalogOrder
  | apply
  | same
  | stale
  deriving DecidableEq

/-- A version decides alone once the client has one; before, the time of the
envelope does. -/
def catalogOrder (sha256 : JsString → Digest) (state : RoleSyncState) (catalog : RoleCatalog)
    (iat : ℤ) (hasCatalog : Bool) : Except Failure CatalogOrder :=
  let same := decide (state.catalogDigest = some (catalogDigest sha256 catalog.toCatalogContent))
  match state.catalogMode with
  | .revisioned epoch current => match catalog.version with
      | none => .error (.event "catalog_revision_required" 409)
      | some (incomingEpoch, incoming) =>
          if incomingEpoch ≠ epoch then .error (.event "catalog_epoch_conflict" 409)
          else if incoming < current then .ok .stale
          else if incoming = current then
            if same then .ok .same else .error (.event "catalog_revision_conflict" 409)
          else .ok .apply
  | .legacy =>
      if catalog.version.isSome || !hasCatalog then .ok .apply
      else if iat < state.lastSyncIat then .ok .stale
      else if iat = state.lastSyncIat then
        if same then .ok .same else .error (.event "catalog_order_ambiguous" 409)
      else .ok .apply

/-- Times of an envelope in seconds; a number that is no integer is refused like
an integer out of range. -/
structure EnvelopeTime where
  iat : ℤ
  exp : ℤ
  deriving DecidableEq

def MAX_SAFE_INTEGER : ℤ := 9007199254740991

def isSafeInteger (n : ℤ) : Bool := decide (-MAX_SAFE_INTEGER ≤ n) && decide (n ≤ MAX_SAFE_INTEGER)

def envelopeCurrent (time : EnvelopeTime) (now : ℤ) : Bool :=
  let seconds := now / 1000
  isSafeInteger time.iat && isSafeInteger time.exp && decide (0 ≤ time.iat) &&
    decide (time.iat < time.exp) && decide (time.iat ≤ seconds + 10) &&
    decide (seconds - time.iat ≤ 310) && decide (seconds - 10 < time.exp)

def assertEnvelopeCurrent (time : EnvelopeTime) (now : ℤ) : Except Failure Unit :=
  failIf (!envelopeCurrent time now) (.event "invalid_token" 401)

/-- The stored roles of a client, by id. -/
def storedRoles (db : Db) (clientId : ClientId) : List CatalogRole :=
  sortRoles ((db.appRoles.rows.filter fun row => decide (row.1.1 = clientId)).map fun row =>
    ⟨row.1.2, row.2.name, row.2.level, row.2.isSystem⟩)

def existingCatalog (db : Db) (clientId : ClientId) : Option (Option ℤ × JsString) :=
  (db.appRoleCatalogs.find? clientId).bind fun cat =>
    (db.oauthClients.find? clientId).map fun client => (cat.defaultRoleId, client.name)

/-- A migrated catalog has no digest; it is compared by what is stored, with the
site name only if the incoming catalog has one. -/
def comparableState (sha256 : JsString → Digest) (db : Db) (clientId : ClientId)
    (catalog : RoleCatalog) (state : RoleSyncState) : RoleSyncState :=
  match existingCatalog db clientId with
  | some existing =>
      if state.catalogDigest = none ∧ state.catalogMode = .legacy then
        { state with catalogDigest := some (catalogDigest sha256
            ⟨storedRoles db clientId, existing.1, catalog.siteName.map fun _ => existing.2⟩) }
      else state
  | none => state

/-- Where holders of a removed role go: to the default, if it is less privileged. -/
def moveTo (catalog : RoleCatalog) (removed : CatalogRole) : Option ℤ :=
  let defaultLevel := catalog.defaultRole.bind fun id =>
    (catalog.roles.find? fun role => decide (role.roleId = id)).map CatalogRole.level
  if defaultLevel.any fun level => decide (removed.level < level) then catalog.defaultRole else none

def moveRoles {κ : Type} (clientId : ClientId) (catalog : RoleCatalog) (removed : CatalogRole)
    (table : Table (κ × ClientId) (Option ℤ)) : Table (κ × ClientId) (Option ℤ) :=
  table.updateWhere (fun key roleId => decide (key.2 = clientId ∧ roleId = some removed.roleId))
    fun _ _ => moveTo catalog removed

def moveHolders (clientId : ClientId) (catalog : RoleCatalog) (db : Db) (removed : CatalogRole) :
    Db :=
  { db with
    userAppRoleOverrides := moveRoles clientId catalog removed db.userAppRoleOverrides
    orgRoleAppDefaults := moveRoles clientId catalog removed db.orgRoleAppDefaults }

def RoleCatalog.has (catalog : RoleCatalog) (roleId : ℤ) : Bool :=
  decide (roleId ∈ catalog.roles.map CatalogRole.roleId)

def CatalogRole.row (role : CatalogRole) : AppRole := ⟨role.name, role.level, role.isSystem⟩

def replaceRoles (clientId : ClientId) (catalog : RoleCatalog)
    (appRoles : Table (ClientId × ℤ) AppRole) : Table (ClientId × ℤ) AppRole :=
  (catalog.roles.foldl (fun t role => t.upsert (clientId, role.roleId) role.row)
    appRoles).deleteWhere fun key _ => decide (key.1 = clientId) && !catalog.has key.2

def catalogMode (catalog : RoleCatalog) : CatalogMode :=
  match catalog.version with
  | some (epoch, revision) => .revisioned epoch revision
  | none => .legacy

/-- The ordering state a stored catalog leaves. -/
def orderedBy (sha256 : JsString → Digest) (iat : ℤ) (catalog : RoleCatalog)
    (state : RoleSyncState) : RoleSyncState :=
  { state with
    catalogMode := catalogMode catalog
    catalogDigest := some (catalogDigest sha256 catalog.toCatalogContent)
    lastSyncIat := iat }

/-- The rows of the catalog itself: roles, default, ordering state, client name. -/
def storeCatalog (sha256 : JsString → Digest) (clientId : ClientId) (iat : ℤ)
    (catalog : RoleCatalog) (db : Db) : Db :=
  { db with
    appRoles := replaceRoles clientId catalog db.appRoles
    appRoleCatalogs := db.appRoleCatalogs.upsert clientId ⟨catalog.defaultRole, iat⟩
    appRoleSyncState := db.appRoleSyncState.updateWhere (fun key _ => decide (key = clientId))
      (fun _ state => orderedBy sha256 iat catalog state)
    oauthClients := db.oauthClients.updateWhere (fun key _ => decide (key = clientId))
      (fun _ client => { client with name := catalog.siteName.getD client.name }) }

/-- The most privileged role, the one with the smallest id among equals. -/
def topRole (roles : List CatalogRole) : Option CatalogRole :=
  roles.foldl (fun best role => match best with
    | none => some role
    | some top =>
        if role.level < top.level ∨ (role.level = top.level ∧ role.roleId < top.roleId) then
          some role
        else some top) none

/-- Users of the root org roles that do not have the role as their default yet. -/
def rootSubjects (db : Db) (clientId : ClientId) (roleId : ℤ) : List Uuid :=
  (db.userOrgRoles.rows.filter fun row =>
    (db.orgRoles.find? row.2).any (fun role => decide (role.level = 0)) &&
      decide (db.orgRoleAppDefaults.find? (row.2, clientId) ≠ some (some roleId)) &&
      !db.userAppRoleOverrides.contains (row.1, clientId)).map Prod.fst

def rootDefaults (clientId : ClientId) (roleId : ℤ) (db : Db) : Table (Slug × ClientId) (Option ℤ) :=
  (db.orgRoles.rows.filter fun row => decide (row.2.level = 0)).foldl
    (fun t row => t.upsert (row.1, clientId) (some roleId)) db.orgRoleAppDefaults

def grantRoot (clientId : ClientId) (roleId : ℤ) (db : Db) : Db :=
  { db with orgRoleAppDefaults := rootDefaults clientId roleId db }

/-- The root org roles get the most privileged role of the catalog. -/
def grantTop (clientId : ClientId) (catalog : RoleCatalog) (db : Db) : List Uuid × Db :=
  match topRole catalog.roles with
  | none => ([], db)
  | some top => (rootSubjects db clientId top.roleId, grantRoot clientId top.roleId db)

def reconcileAudit (db : Db) (clientId : ClientId) (changed : ℕ) : Except Failure Db :=
  if changed = 0 then .ok db
  else match jsonbInput (Json.ofObject [("client", .str clientId), ("affected", Json.int changed)]) with
    | some detail => .ok { db with orgAuditLog := db.orgAuditLog ++
        [⟨none, js "system (roles.sync)", none, none, js "roles.reconcile", detail⟩] }
    | none => .error (.database "untranslatable_character")

/-- The tables after a catalog has replaced the stored one, before publication. -/
def replaceCatalog (sha256 : JsString → Digest) (db : Db) (clientId : ClientId) (iat : ℤ)
    (catalog : RoleCatalog) : List Uuid × Db :=
  let removed := (storedRoles db clientId).filter fun role => !catalog.has role.roleId
  grantTop clientId catalog (storeCatalog sha256 clientId iat catalog
    (removed.foldl (moveHolders clientId catalog) db))

/-- Everything is published again on the first reconciliation and when a legacy
sender adopts revisions. -/
def forceCurrent (state : RoleSyncState) (catalog : RoleCatalog) : Bool :=
  state.catalogDigest.isNone || (decide (state.catalogMode = .legacy) && catalog.version.isSome)

def applyCatalog (env : Surroundings) (sha256 : JsString → Digest) (db : Db) (clientId : ClientId)
    (iat : ℤ) (catalog : RoleCatalog) (state : RoleSyncState) :
    Except Failure (CatalogOrder × Db) := do
  let order ← catalogOrder sha256 (comparableState sha256 db clientId catalog state) catalog iat
    (existingCatalog db clientId).isSome
  if order = .stale ∨ (order = .same ∧ forceCurrent state catalog = false) then .ok (order, db)
  else
    let (subjects, replaced) := replaceCatalog sha256 db clientId iat catalog
    let (changed, published) ← publishRoleChanges env replaced [clientId] none
      ⟨forceCurrent state catalog, subjects⟩
    let audited ← reconcileAudit published clientId changed
    .ok (order, audited)

/-- A client that reports revisions keeps its epoch. -/
def checkVersion (state : RoleSyncState) (catalog : RoleCatalog) : Except Failure Unit :=
  match state.catalogMode, catalog.version with
  | .legacy, _ => .ok ()
  | .revisioned _ _, none => .error (.event "catalog_revision_required" 409)
  | .revisioned epoch _, some (incoming, _) =>
      failIf (decide (incoming ≠ epoch)) (.event "catalog_epoch_conflict" 409)

/-- The state row of the client and whether its catalog is a migrated one. -/
def lockCatalogState (env : Surroundings) (db : Db) (clientId : ClientId) (event : IncomingEvent) :
    Except Failure (Option (RoleCatalog × RoleSyncState) × Db) :=
  match event.catalog with
  | none => .ok (none, db)
  | some catalog => do
      let (state, ensured) ← ensureRoleSyncState env db clientId
      checkVersion state catalog
      .ok (some (catalog, state), ensured)

/-- A receipt from before contents were bound. -/
def historicalUnknown (prior : ProcessedEvent) : Bool :=
  prior.eventType.isNone && prior.payloadDigest.isNone

/-- A catalog without a version may replace one reported under the same id. -/
def legacyMutable (event : IncomingEvent) (prior : ProcessedEvent) : Bool :=
  event.catalog.any (fun catalog => catalog.version.isNone) &&
    decide (prior.eventType = some ROLES_SYNC) && prior.payloadDigest.isSome

def bindReceipt (db : Db) (clientId : ClientId) (event : IncomingEvent) (digest : Digest) :
    Except Failure Db := do
  let type ← param event.type
  .ok { db with processedEvents :=
    db.processedEvents.upsert (clientId, event.id) ⟨some type, some digest⟩ }

def receiveEvent (env : Surroundings) (sha256 : JsString → Digest) (clientId : ClientId) (iat : ℤ)
    (db : Db) (event : IncomingEvent) : Except Failure Db := do
  let digest ← inboxDigest sha256 event
  let prior := db.processedEvents.find? (clientId, event.id)
  let (reported, db) ← lockCatalogState env db clientId event
  let migrated := reported.any fun r => r.2.catalogDigest.isNone
  if prior.any (fun p => decide (p.payloadDigest = some digest)) && !migrated then .ok db
  else if prior.any fun p => !historicalUnknown p && !legacyMutable event p then
    .error (.event "event_identity_conflict" 409)
  else match reported with
    | none => bindReceipt db clientId event digest
    | some (catalog, state) => do
        let (order, db) ← applyCatalog env sha256 db clientId iat catalog state
        if prior.any historicalUnknown && decide (order = .stale) then .ok db
        else bindReceipt db clientId event digest

/-- The envelope has to be current before each event; `clock` gives the times in
the order they are asked for. -/
def receiveEvents (env : Surroundings) (sha256 : JsString → Digest) (clientId : ClientId)
    (time : EnvelopeTime) (clock : ℕ → ℤ) : ℕ → List IncomingEvent → Db → Except Failure Db
  | _, [], db => .ok db
  | asked, event :: rest, db => do
      assertEnvelopeCurrent time (clock asked)
      let received ← receiveEvent env sha256 clientId time.iat db event
      receiveEvents env sha256 clientId time clock (asked + 1) rest received

def processIncomingEvents (env : Surroundings) (sha256 : JsString → Digest) (clientId : ClientId)
    (time : EnvelopeTime) (clock : ℕ → ℤ) (events : List IncomingEvent) (db : Db) :
    Except Failure Db := do
  assertEnvelopeCurrent time (clock 0)
  failIf (!(db.oauthClients.find? clientId).any fun client => client.disabledAt.isNone)
    (.event "unknown_client" 401)
  let received ← receiveEvents env sha256 clientId time clock 1 events db
  assertEnvelopeCurrent time (clock (events.length + 1))
  .ok received

end DreamSso
