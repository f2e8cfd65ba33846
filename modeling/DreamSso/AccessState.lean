import DreamSso.AppRoles

/-!
The access-state read: one statement over the requested users of an enabled
client, and the account states a relying party gets from its rows.
-/
namespace DreamSso

open JsStrings KeyedTables

inductive AccountState
  | active
  | disabled
  | locked
  | deleted
  | notFound
  deriving DecidableEq

inductive Access
  | allowed
  | noAccess
  | unmanaged
  | unknownRole
  deriving DecidableEq

structure AccessState where
  sub : Uuid
  account : AccountState
  catalogSynced : Bool
  roleId : Option ℤ
  roleSource : RoleSource
  access : Access
  allowed : Bool
  deriving DecidableEq

structure Authority where
  epoch : Uuid
  revision : ℕ
  deriving DecidableEq

structure AccessStateSnapshot where
  states : List AccessState
  authority : Option Authority
  deriving DecidableEq

structure ResolvedRow where
  sub : Uuid
  identity : Option Identity
  catalogSynced : Bool
  authority : Option Authority
  roleId : Option ℤ
  roleSource : RoleSource
  roleExists : Bool

/-- One row of ACCESS_STATE_SQL; the CASE of the role and of its source test
the same joined rows. -/
def resolvedRow (db : Db) (clientId : ClientId) (sub : Uuid) : ResolvedRow :=
  let override := db.userAppRoleOverrides.find? (sub, clientId)
  let orgRow := (db.userOrgRoles.find? sub).bind fun slug =>
    db.orgRoleAppDefaults.find? (slug, clientId)
  let cat := db.appRoleCatalogs.find? clientId
  let roleId := match override with
    | some roleId => roleId
    | none => match orgRow with
      | some roleId => roleId
      | none => cat.bind fun c => c.defaultRoleId
  {
    sub := sub
    identity := db.identities.find? sub
    catalogSynced := cat.isSome
    authority := (db.appRoleSyncState.find? clientId).map fun a =>
      ⟨a.authorityEpoch, a.authorityRevision⟩
    roleId := roleId
    roleSource := if override.isSome then .override else if orgRow.isSome then .org
      else if cat.isSome then .catalog else .none
    roleExists := roleId.any fun id => db.appRoles.contains (clientId, id)
  }

def accessStateRows (db : Db) (clientId : ClientId) (subjects : List Uuid) : List ResolvedRow :=
  if (db.oauthClients.find? clientId).any fun c => c.disabledAt.isNone then
    subjects.map (resolvedRow db clientId)
  else []

def accountState (row : ResolvedRow) : AccountState :=
  match row.identity with
  | none => .notFound
  | some i =>
      if i.deletedAt.isSome then .deleted
      else match i.status with
        | .active => .active
        | .disabled => .disabled
        | .locked => .locked

def accessState (row : ResolvedRow) : AccessState :=
  let status := accountState row
  let found := decide (status ≠ .notFound)
  let roleId := if found && row.catalogSynced then row.roleId else none
  let access := if !found then .noAccess else if !row.catalogSynced then .unmanaged
    else if roleId.isNone then .noAccess else if row.roleExists then .allowed else .unknownRole
  {
    sub := row.sub
    account := status
    catalogSynced := row.catalogSynced
    roleId := roleId
    roleSource := if found && row.catalogSynced then row.roleSource else .none
    access := access
    allowed := decide (status = .active) && (decide (access = .allowed) || decide (access = .unmanaged))
  }

def snapshotUnavailable : Failure := .error "Role authority snapshot is unavailable."

/-- With a catalog the authority of the first row has to be there, within range
and the authority of every row. -/
def readAccessStateSnapshot (db : Db) (clientId : ClientId) (subjects : List Uuid) :
    Except Failure AccessStateSnapshot :=
  let rows := accessStateRows db clientId subjects
  let states := rows.map accessState
  if rows.any fun row => row.catalogSynced then
    match rows.head?.bind fun row => row.authority with
    | none => .error snapshotUnavailable
    | some authority =>
        if authority.revision > MAX_BIGINT ∨
            (rows.any fun row => decide (row.authority ≠ some authority)) = true then
          .error snapshotUnavailable
        else .ok ⟨states, some authority⟩
  else .ok ⟨states, none⟩

end DreamSso
