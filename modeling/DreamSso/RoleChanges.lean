import DreamSso.AppRoles

/-!
Publication of role changes. The ledger row of every user whose published role
differs from the last one is rewritten at the next authority revision, and an
account.roles_change event carries the same role and revision.
-/
namespace DreamSso

open JsStrings JsonValues KeyedTables Fallible

def setSyncState (db : Db) (clientId : ClientId) (state : RoleSyncState) : Db :=
  { db with appRoleSyncState := db.appRoleSyncState.upsert clientId state }

/-- The state row is created at revision zero on demand; a client that is not
registered has none. -/
def ensureRoleSyncState (env : Surroundings) (db : Db) (clientId : ClientId) :
    Except Failure (RoleSyncState × Db) :=
  let lastSyncIat := ((db.appRoleCatalogs.find? clientId).map fun c => c.lastSyncIat).getD 0
  let fresh : RoleSyncState := ⟨.legacy, none, lastSyncIat, env.authorityEpoch clientId, 0,
    Nat.zero_le _⟩
  let created : Db :=
    if db.oauthClients.contains clientId && !db.appRoleSyncState.contains clientId then
      setSyncState db clientId fresh
    else db
  match created.appRoleSyncState.find? clientId with
  | some state => .ok (state, created)
  | none => .error (.error "Role authority client is unavailable.")

def RoleSyncState.advance (state : RoleSyncState) (h : state.authorityRevision < MAX_BIGINT) :
    RoleSyncState :=
  { state with authorityRevision := state.authorityRevision + 1, inRange := h }

structure EffectiveRow where
  userSub : Uuid
  roleId : Option ℤ
  managed : Bool
  known : Bool
  previousRole : Option ℤ
  previousManaged : Option Bool
  deriving DecidableEq

/-- The role the chain resolves to, before it is looked up in the catalog. -/
def rawRole (db : Db) (cat : AppRoleCatalog) (clientId : ClientId) (sub : Uuid) : Option ℤ :=
  match db.userAppRoleOverrides.find? (sub, clientId) with
  | some roleId => roleId
  | none => match orgLayer db sub clientId with
    | some roleId => roleId
    | none => cat.defaultRoleId

/-- The role as events report it: none when the catalog does not have it. -/
def knownRole (db : Db) (clientId : ClientId) (roleId : Option ℤ) : Option ℤ :=
  roleId.filter fun id => db.appRoles.contains (clientId, id)

def effectiveRow (db : Db) (cat : AppRoleCatalog) (clientId : ClientId) (sub : Uuid) :
    EffectiveRow :=
  let previous := db.appRoleEffective.find? (clientId, sub)
  {
    userSub := sub
    roleId := knownRole db clientId (rawRole db cat clientId sub)
    managed := true
    known := previous.isSome
    previousRole := previous.bind fun p => p.roleId
    previousManaged := previous.map fun p => p.managed
  }

/-- The users a publication looks at; without a subject list, everybody. -/
def publishedSubjects (db : Db) (subjects : Option (List Uuid)) : List Uuid :=
  db.identities.orderedKeys.filter fun sub =>
    presentIdentity db sub && subjects.all fun list => decide (sub ∈ list)

def effectiveRows (db : Db) (clientId : ClientId) (subjects : Option (List Uuid)) :
    List EffectiveRow :=
  match db.appRoleCatalogs.find? clientId with
  | none => []
  | some cat => (publishedSubjects db subjects).map (effectiveRow db cat clientId)

structure PublishOptions where
  force : Bool
  forceSubjects : List Uuid

def PublishOptions.default : PublishOptions := ⟨false, []⟩

def rowChanged (options : PublishOptions) (row : EffectiveRow) : Bool :=
  options.force || decide (row.userSub ∈ options.forceSubjects) || !row.known ||
    decide (row.roleId ≠ row.previousRole) || decide (some row.managed ≠ row.previousManaged)

def roleIdJson (roleId : Option ℤ) : Json := Json.ofOption Json.int roleId

def rolesChangeType : JsString := js "account.roles_change"

def rolesChangePayload (sub : Uuid) (roleId : Option ℤ) (epoch : Uuid) (revision : ℕ) : Json :=
  Json.ofObject [("sub", .str sub.text), ("role_id", roleIdJson roleId),
    ("authority_epoch", .str epoch.text), ("authority_revision", .str (decimal revision))]

def rolesChangeEvent (epoch : Uuid) (revision : ℕ) (row : EffectiveRow) : OutboundEvent where
  type := rolesChangeType
  payload := rolesChangePayload row.userSub row.roleId epoch revision
  version := some (decimal revision)
  id := none

def writeLedger (clientId : ClientId) (revision : ℕ) (db : Db) (row : EffectiveRow) : Db :=
  { db with appRoleEffective :=
      db.appRoleEffective.upsert (clientId, row.userSub) ⟨row.roleId, row.managed, revision⟩ }

/-- Events and ledger rows are written a hundred users at a time. -/
def publishPart (env : Surroundings) (clientId : ClientId) (epoch : Uuid) (revision : ℕ) (db : Db)
    (part : List EffectiveRow) : Except Failure Db := do
  let (_, channel) ← insertEvents env.now env.eventId db.toChannel clientId
    (part.map (rolesChangeEvent epoch revision))
  .ok (part.foldl (writeLedger clientId revision) { db with toChannel := channel })

def PART_SIZE : ℕ := 100

/-- The consecutive parts of at most a hundred rows; `fuel` bounds their number. -/
def partsFrom : ℕ → List EffectiveRow → List (List EffectiveRow)
  | 0, _ => []
  | _ + 1, [] => []
  | fuel + 1, row :: rest =>
      (row :: rest).take PART_SIZE :: partsFrom fuel ((row :: rest).drop PART_SIZE)

def parts (rows : List EffectiveRow) : List (List EffectiveRow) := partsFrom rows.length rows

/-- The rows of a publication that it has to report. -/
def changedRows (db : Db) (clientId : ClientId) (subjects : Option (List Uuid))
    (options : PublishOptions) : List EffectiveRow :=
  (effectiveRows db clientId subjects).filter (rowChanged options)

def publishClient (env : Surroundings) (subjects : Option (List Uuid)) (options : PublishOptions)
    (db : Db) (clientId : ClientId) : Except Failure (ℕ × Db) := do
  let (state, db) ← ensureRoleSyncState env db clientId
  let changed := changedRows db clientId subjects options
  if changed = [] then .ok (0, db)
  else if h : state.authorityRevision < MAX_BIGINT then
    let published ← (parts changed).foldlM
      (publishPart env clientId state.authorityEpoch (state.authorityRevision + 1))
      (setSyncState db clientId (state.advance h))
    .ok (changed.length, published)
  else .error (.error "Role authority revision is exhausted.")

def publishClients (env : Surroundings) (subjects : Option (List Uuid)) (options : PublishOptions) :
    Db → List ClientId → Except Failure (ℕ × Db)
  | db, [] => .ok (0, db)
  | db, clientId :: rest => do
      let (count, db) ← publishClient env subjects options db clientId
      let (others, db) ← publishClients env subjects options db rest
      .ok (count + others, db)

/-- Every client is handled once, in code-unit order. -/
def publishRoleChanges (env : Surroundings) (db : Db) (clientIds : List ClientId)
    (subjects : Option (List Uuid)) (options : PublishOptions) : Except Failure (ℕ × Db) :=
  publishClients env subjects options db (clientIds.dedup.insertionSort (· ≤ ·))

end DreamSso
