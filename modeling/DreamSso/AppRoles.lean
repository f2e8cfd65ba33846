import DreamSso.RoleSchema
import Mathlib.Order.WithBot

/-!
Resolution of the app role a user has for a client: a personal override, then
the default of the user's org role, then the default of the catalog. A stored
NULL is an answer and does not fall through.
-/
namespace DreamSso

open JsStrings KeyedTables

inductive RoleSource
  | override
  | org
  | catalog
  | none
  deriving DecidableEq

structure EffectiveAppRole where
  roleId : Option ℤ
  source : RoleSource
  deriving DecidableEq

/-- The default the org role of a user sets for a client, if it stores one. -/
def orgLayer (db : Db) (sub : Uuid) (clientId : ClientId) : Option (Option ℤ) :=
  (db.userOrgRoles.find? sub).bind fun slug => db.orgRoleAppDefaults.find? (slug, clientId)

def effectiveAppRole (db : Db) (sub : Uuid) (clientId : ClientId) : EffectiveAppRole :=
  match db.userAppRoleOverrides.find? (sub, clientId) with
  | some roleId => ⟨roleId, .override⟩
  | none => match orgLayer db sub clientId with
    | some roleId => ⟨roleId, .org⟩
    | none => match db.appRoleCatalogs.find? clientId with
      | some cat => ⟨cat.defaultRoleId, .catalog⟩
      | none => ⟨none, .none⟩

/-- Smaller is more privileged; no access and vanished roles rank below every role. -/
def appRoleLevel (db : Db) (clientId : ClientId) (roleId : Option ℤ) : WithTop ℤ :=
  match roleId with
  | none => ⊤
  | some id => match db.appRoles.find? (clientId, id) with
    | some r => (r.level : WithTop ℤ)
    | none => ⊤

def hasAppCatalog (db : Db) (clientId : ClientId) : Bool := db.appRoleCatalogs.contains clientId

def appAccessAllowed (db : Db) (clientId : ClientId) (sub : Uuid) : Bool :=
  if hasAppCatalog db clientId then
    match (effectiveAppRole db sub clientId).roleId with
    | none => false
    | some id => db.appRoles.contains (clientId, id)
  else true

/-- The app role a user gets for a client from an org role and the catalog. -/
def orgDefault (db : Db) (slug : Option Slug) (clientId : ClientId) : Option ℤ :=
  match db.appRoleCatalogs.find? clientId with
  | none => none
  | some cat => match slug.bind fun s => db.orgRoleAppDefaults.find? (s, clientId) with
    | some roleId => roleId
    | none => cat.defaultRoleId

end DreamSso
