import DreamSso.OutboxStore

/-!
Tables of the role model. The primary keys and the one-role-per-user constraint
hold by the type of each table, a synchronization state is either legacy or carries
both halves of its catalog version, and its revision fits its column. An app role id of `none` stands for
a stored NULL, which is different from no row.
-/
namespace DreamSso

open JsStrings JsonValues KeyedTables StoredJson

inductive AccountStatus
  | active
  | disabled
  | locked
  deriving DecidableEq

structure Identity where
  username : JsString
  displayName : JsString
  email : Option JsString
  emailVerified : Bool
  passwordHash : Option JsString
  passwordChangedAt : Option ℤ
  status : AccountStatus
  deletedAt : Option ℤ
  deriving DecidableEq

structure OrgRole where
  label : JsString
  level : ℤ
  isSystem : Bool
  deriving DecidableEq

inductive Effect
  | grant
  | deny
  deriving DecidableEq

structure AppRole where
  name : JsString
  level : ℤ
  isSystem : Bool
  deriving DecidableEq

structure AppRoleCatalog where
  defaultRoleId : Option ℤ
  lastSyncIat : ℤ
  deriving DecidableEq

/-- The bytes of a SHA-256 digest. -/
abbrev Digest := List ℕ

inductive CatalogMode
  | legacy
  | revisioned (epoch : Uuid) (revision : ℕ)
  deriving DecidableEq

structure RoleSyncState where
  catalogMode : CatalogMode
  catalogDigest : Option Digest
  lastSyncIat : ℤ
  authorityEpoch : Uuid
  authorityRevision : ℕ
  inRange : authorityRevision ≤ MAX_BIGINT
  deriving DecidableEq

structure EffectiveEntry where
  roleId : Option ℤ
  managed : Bool
  authorityRevision : ℕ
  deriving DecidableEq

structure ProcessedEvent where
  eventType : Option JsString
  payloadDigest : Option Digest
  deriving DecidableEq

structure AuditEntry where
  actorSub : Option Uuid
  actorLabel : JsString
  targetSub : Option Uuid
  targetLabel : Option JsString
  action : JsString
  detail : Json

/-- What decides the org role, the permissions and the app roles of a user. -/
structure RoleTables where
  identities : Table Uuid Identity
  orgRoles : Table Slug OrgRole
  userOrgRoles : Table Uuid Slug
  rolePermissions : Table (Slug × PermKey) Effect
  userPermissionOverrides : Table (Uuid × PermKey) Effect
  orgRoleAppDefaults : Table (Slug × ClientId) (Option ℤ)
  userAppRoleOverrides : Table (Uuid × ClientId) (Option ℤ)
  appRoles : Table (ClientId × ℤ) AppRole
  appRoleCatalogs : Table ClientId AppRoleCatalog
  settings : Table JsString JsString

/-- What was published about app roles, and at which revision. -/
structure Ledger where
  appRoleSyncState : Table ClientId RoleSyncState
  appRoleEffective : Table (ClientId × Uuid) EffectiveEntry

structure Db extends Channel, RoleTables, Ledger where
  processedEvents : Table (ClientId × Uuid) ProcessedEvent
  orgAuditLog : List AuditEntry

def Db.empty : Db where
  oauthClients := ∅
  eventOutbox := Outbox.empty
  eventDestinations := ∅
  identities := ∅
  orgRoles := ∅
  userOrgRoles := ∅
  rolePermissions := ∅
  userPermissionOverrides := ∅
  orgRoleAppDefaults := ∅
  userAppRoleOverrides := ∅
  appRoles := ∅
  appRoleCatalogs := ∅
  appRoleSyncState := ∅
  appRoleEffective := ∅
  processedEvents := ∅
  settings := ∅
  orgAuditLog := []

def Identity.present (i : Identity) : Bool := i.deletedAt.isNone

/-- The identity exists and is not deleted. -/
def presentIdentity (db : Db) (sub : Uuid) : Bool :=
  (db.identities.find? sub).any Identity.present

/-- A text parameter of a statement, refused when it holds NUL. -/
def param (s : JsString) : Except Failure JsString :=
  match textInput s with
  | some t => .ok t
  | none => .error (.database "character_not_in_repertoire")

/-- A uuid parameter of a statement. -/
def uuidParam (s : JsString) : Except Failure Uuid :=
  match Uuid.parse? s with
  | some u => .ok u
  | none => .error (.database "invalid_text_representation")

/-- What one transaction takes from its surroundings: its time in milliseconds,
the random uuids and the case folding of citext. -/
structure Surroundings where
  now : ℤ
  eventId : ℕ → Uuid
  authorityEpoch : ClientId → Uuid
  foldCase : JsString → JsString

end DreamSso
