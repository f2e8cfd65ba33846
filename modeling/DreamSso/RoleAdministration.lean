import DreamSso.Authz
import DreamSso.RoleChanges
import DreamSso.Library.JsConversions

/-!
Role administration. Each call validates everything it was given against the
state it locked, then writes, publishes and audits in the same transaction; a
thrown error rolls all of it back.
-/
namespace DreamSso

open JsStrings JsonValues JsConversions KeyedTables StoredJson Fallible

abbrev Members := List (JsString × Json)

def MFA_DISABLE : PermKey := js "profile.security.mfa.disable"

def fail (status : ℕ) (error : String) (extra : List (String × Json)) : Failure :=
  .roleAccess status (Json.ofObject (("error", Json.text error) :: extra))

def fieldError (status : ℕ) (errors : List (String × String)) : Failure :=
  .roleAccess status (Json.ofObject
    [("errors", Json.ofObject (errors.map fun e => (e.1, Json.text e.2)))])

/-- A map argument; absent and null count as empty. -/
def mapArgument : Option Json → Except Failure Members
  | none => .ok []
  | some .null => .ok []
  | some (.obj members) => .ok members
  | some _ => .error (fail 400 "invalid_request" [])

def requirePermission (granted : List PermKey) (key : String) : Except Failure Unit :=
  failIf (!decide (js key ∈ granted)) (fail 403 "permission_denied" [("permission", Json.text key)])

/-- An app role to store or the request to store none. -/
inductive AppValue
  | role (roleId : Option ℤ)
  | inherit
  deriving DecidableEq

def validValue : Json → Option AppValue
  | .null => some (.role none)
  | .str s => if s = js "inherit" then some .inherit else none
  | .num (.int n) => if -2147483648 ≤ n ∧ n ≤ 2147483647 then some (.role (some n)) else none
  | _ => none

structure Actor where
  sub : Uuid
  label : JsString
  role : Option Slug
  level : WithTop ℤ
  granted : List PermKey

/-- The first of two texts and a fallback that is not empty. -/
def firstText (a b fallback : JsString) : JsString :=
  if a ≠ [] then a else if b ≠ [] then b else fallback

def lockActors (db : Db) (actor : JsString) (targets : List JsString) : Except Failure Actor :=
  match Uuid.parse? actor with
  | none => .error (fail 401 "invalid_token" [])
  | some sub =>
      if targets.any fun target => (Uuid.parse? target).isNone then
        .error (fail 404 "not_found" [])
      else match db.identities.find? sub with
        | none => .error (fail 403 "permission_denied" [])
        | some identity =>
            if identity.present && decide (identity.status = .active) then
              let auth := resolveAuthz db sub
              .ok ⟨sub, firstText identity.displayName identity.username actor, auth.role,
                auth.level, auth.granted⟩
            else .error (fail 403 "permission_denied" [])

def writeAudit (db : Db) (actor : Actor) (action : JsString) (detail : List (String × Json))
    (target : Option (Uuid × JsString)) : Except Failure Db :=
  match jsonbInput (Json.ofObject detail) with
  | some stored => .ok { db with orgAuditLog := db.orgAuditLog ++
      [⟨some actor.sub, actor.label, target.map Prod.fst, target.map Prod.snd, action, stored⟩] }
  | none => .error (.database "untranslatable_character")

def permissionItem (key : PermKey) : String × Json :=
  ("item", Json.ofObject [("type", Json.text "permission"), ("key", .str key)])

def appItem (type : String) (clientId : ClientId) : String × Json :=
  ("item", Json.ofObject [("type", Json.text type), ("client", .str clientId)])

/-- Only keys of the catalog, only the named effects, and only permissions the
actor holds, except the one that privileged roles do not hold themselves. -/
def checkPermission (granted : List PermKey) (effects : List String) (entry : JsString × Json) :
    Except Failure Unit := do
  failIf (!decide (entry.1 ∈ PERMISSIONS) || !decide (toText entry.2 ∈ effects.map js))
    (fail 400 "invalid_request" [permissionItem entry.1])
  failIf (decide (entry.1 ≠ MFA_DISABLE) && !decide (entry.1 ∈ granted))
    (fail 403 "permission_denied" [("permission", .str entry.1), permissionItem entry.1])

/-- A value that only reads like an effect violates the check of the column. -/
def storedEffect (value : Json) : Except Failure (Option Effect) :=
  if value = .str (js "inherit") then .ok none
  else if value = .str (js "grant") then .ok (some .grant)
  else if value = .str (js "deny") then .ok (some .deny)
  else .error (.database "check_violation")

def writeOptional {κ α : Type} [DecidableEq κ] (table : Table κ α) (key : κ) : Option α → Table κ α
  | some value => table.upsert key value
  | none => table.deleteWhere fun k _ => decide (k = key)

def actorAppLevel (db : Db) (actor : Actor) (clientId : ClientId) : WithTop ℤ :=
  appRoleLevel db clientId (effectiveAppRole db actor.sub clientId).roleId

def unknownRole (db : Db) (clientId : ClientId) : AppValue → Bool
  | .role (some id) => !db.appRoles.contains (clientId, id)
  | _ => false

structure Target where
  sub : Uuid
  identity : Identity
  slug : Option Slug

/-- The target exists, is somebody else and ranks strictly below the actor. -/
def administered (db : Db) (actor : Actor) (actorSub targetSub : JsString) :
    Except Failure Target :=
  match Uuid.parse? targetSub with
  | none => .error (fail 404 "not_found" [])
  | some sub => match db.identities.find? sub with
    | none => .error (fail 404 "not_found" [])
    | some identity =>
        if !identity.present || decide (targetSub = actorSub) ||
            decide (orgLevel db sub ≤ actor.level) then .error (fail 404 "not_found" [])
        else .ok ⟨sub, identity, db.userOrgRoles.find? sub⟩

/-- One requested override: the current role and the resulting one, taken with
the org role the target will have, may not rank above the actor's own. -/
def checkAppRole (db : Db) (actor : Actor) (target : Uuid) (newSlug : Option Slug)
    (entry : JsString × Json) : Except Failure (ClientId × AppValue) :=
  let item := appItem "app_role" entry.1
  if !hasAppCatalog db entry.1 then .error (fail 404 "not_found" [item])
  else match validValue entry.2 with
    | none => .error (fail 400 "invalid_request" [item])
    | some value =>
        if unknownRole db entry.1 value then .error (fail 400 "unknown_app_role" [item])
        else
          let before := (effectiveAppRole db target entry.1).roleId
          let resulting := match value with
            | .inherit => orgDefault db newSlug entry.1
            | .role roleId => roleId
          if appRoleLevel db entry.1 before < actorAppLevel db actor entry.1 then
            .error (fail 403 "app_role_above_level" [item])
          else if appRoleLevel db entry.1 resulting < actorAppLevel db actor entry.1 then
            .error (fail 403 "app_role_above_level" [item])
          else .ok (entry.1, value)

/-- A client that the call does not name and that has no override follows the
new org role; the role it brings may not rank above the actor's own. -/
def checkInherited (db : Db) (actor : Actor) (target : Uuid) (newSlug : Option Slug)
    (named : List JsString) (clientId : ClientId) : Except Failure Unit :=
  let resulting := orgDefault db newSlug clientId
  if decide (clientId ∈ named) || db.userAppRoleOverrides.contains (target, clientId) then .ok ()
  else if resulting = (effectiveAppRole db target clientId).roleId then .ok ()
  else failIf (decide (appRoleLevel db clientId resulting < actorAppLevel db actor clientId))
    (fail 403 "app_role_above_level" [appItem "app_role" clientId])

structure UserChange where
  actor : Actor
  target : Target
  orgRole : Option Slug
  permissions : Members
  appRoles : Members
  appValues : List (ClientId × AppValue)

def UserChange.newSlug (change : UserChange) : Option Slug := change.orgRole.or change.target.slug

def textMember (changes : Members) (key : String) : Option JsString :=
  match Json.member? changes (js key) with
  | some (.str s) => some s
  | _ => none

/-- The org role a change names, which has to rank strictly below the actor. -/
def checkOrgRole (db : Db) (actor : Actor) : Option JsString → Except Failure (Option Slug)
  | none => .ok none
  | some text => do
      let slug ← param text
      match db.orgRoles.find? slug with
      | some role =>
          if (role.level : WithTop ℤ) ≤ actor.level then .error (fail 403 "role_above_level"
            [("item", Json.ofObject [("type", Json.text "org_role")])])
          else .ok (some slug)
      | none => .error (fail 403 "role_above_level"
          [("item", Json.ofObject [("type", Json.text "org_role")])])

def checkUserAccess (db : Db) (actorSub targetSub : JsString) (changes : Members) :
    Except Failure UserChange := do
  let actor ← lockActors db actorSub [targetSub]
  let target ← administered db actor actorSub targetSub
  let orgRole := textMember changes "org_role"
  let permissions ← mapArgument (Json.member? changes (js "permissions"))
  let appRoles ← mapArgument (Json.member? changes (js "app_roles"))
  failIf ((orgRole.all fun s => decide (s = [])) && permissions.isEmpty && appRoles.isEmpty)
    (fail 400 "no_changes" [])
  failIf (decide (permissions.length > 100) || decide (appRoles.length > 50))
    (fail 400 "too_many_changes" [])
  onlyIf (orgRole.isSome || !permissions.isEmpty)
    (requirePermission actor.granted "org.users.edit.permissions.acctPortal")
  onlyIf (!appRoles.isEmpty)
    (requirePermission actor.granted "org.users.edit.permissions.app")
  let orgSlug ← checkOrgRole db actor orgRole
  checkAll (checkPermission actor.granted ["grant", "deny", "inherit"]) permissions
  let appValues ← appRoles.mapM (checkAppRole db actor target.sub (orgSlug.or target.slug))
  onlyIf orgSlug.isSome (checkAll (checkInherited db actor target.sub (orgSlug.or target.slug)
    (appRoles.map Prod.fst)) db.appRoleCatalogs.orderedKeys)
  .ok ⟨actor, target, orgSlug, permissions, appRoles, appValues⟩

def writeUserPermission (sub : Uuid) (db : Db) (entry : JsString × Json) : Except Failure Db := do
  let effect ← storedEffect entry.2
  .ok { db with userPermissionOverrides :=
    writeOptional db.userPermissionOverrides (sub, entry.1) effect }

def AppValue.stored : AppValue → Option (Option ℤ)
  | .role roleId => some roleId
  | .inherit => none

def writeOverride (sub : Uuid) (db : Db) (entry : ClientId × AppValue) : Db :=
  { db with userAppRoleOverrides :=
      writeOptional db.userAppRoleOverrides (sub, entry.1) entry.2.stored }

def writeUserAccess (db : Db) (change : UserChange) : Except Failure Db := do
  let assigned := match change.orgRole with
    | some slug => { db with userOrgRoles := db.userOrgRoles.upsert change.target.sub slug }
    | none => db
  let permitted ← change.permissions.foldlM (writeUserPermission change.target.sub) assigned
  .ok (change.appValues.foldl (writeOverride change.target.sub) permitted)

/-- The clients whose ledger an access change may touch. -/
def changedClients (db : Db) (change : UserChange) : List ClientId :=
  if change.orgRole.isSome then db.appRoleCatalogs.orderedKeys
  else change.appValues.map Prod.fst

def publishIf (needed : Bool) (env : Surroundings) (db : Db) (clientIds : List ClientId)
    (subjects : Option (List Uuid)) : Except Failure Db :=
  if needed then (publishRoleChanges env db clientIds subjects .default).map Prod.snd else .ok db

def slugJson (slug : Option Slug) : Json := Json.ofOption Json.str slug

def userChangeDetail (change : UserChange) : List (String × Json) :=
  (if change.orgRole.isSome then
    [("org_role", Json.ofObject [("from", slugJson change.target.slug),
      ("to", slugJson change.newSlug)])] else []) ++
  (if change.permissions.isEmpty then [] else [("permissions", .obj change.permissions)]) ++
  (if change.appRoles.isEmpty then [] else [("app_roles", .obj change.appRoles)])

def applyUserAccess (env : Surroundings) (db : Db) (actorSub targetSub : JsString)
    (changes : Members) (action : JsString) : Except Failure Db := do
  let change ← checkUserAccess db actorSub targetSub changes
  let written ← writeUserAccess db change
  let published ← publishIf (change.orgRole.isSome || !change.appValues.isEmpty) env written
    (changedClients db change) (some [change.target.sub])
  let target := change.target.identity
  writeAudit published change.actor action (userChangeDetail change)
    (some (change.target.sub, firstText target.displayName target.username targetSub))

/-- An org role that ranks strictly below the actor. -/
def roleBelow (db : Db) (actor : Actor) (slug : JsString) : Except Failure (Slug × OrgRole) := do
  let stored ← param slug
  match db.orgRoles.find? stored with
  | none => .error (fail 404 "not_found" [])
  | some role =>
      if (role.level : WithTop ℤ) ≤ actor.level then .error (fail 403 "role_above_level" [])
      else .ok (stored, role)

/-- One requested org default. Unlike an override, the resulting default has to
rank strictly below the actor's own role. -/
def checkAppDefault (db : Db) (actor : Actor) (slug : Slug) (entry : JsString × Json) :
    Except Failure (ClientId × AppValue) := do
  let item := appItem "app_default" entry.1
  let clientId ← param entry.1
  match db.appRoleCatalogs.find? clientId with
  | none => .error (fail 404 "not_found" [item])
  | some catalog => match validValue entry.2 with
    | none => .error (fail 400 "invalid_request" [item])
    | some value =>
        if unknownRole db clientId value then .error (fail 400 "unknown_app_role" [item])
        else
          let resulting := match value with
            | .inherit => catalog.defaultRoleId
            | .role roleId => roleId
          if appRoleLevel db clientId (orgDefault db (some slug) clientId) <
              actorAppLevel db actor clientId then .error (fail 403 "app_role_above_level" [item])
          else if appRoleLevel db clientId resulting ≤ actorAppLevel db actor clientId then
            .error (fail 403 "app_role_above_level" [item])
          else .ok (clientId, value)

structure RoleChange where
  actor : Actor
  slug : Slug
  permissions : Members
  defaults : Members
  appValues : List (ClientId × AppValue)

def checkRoleAccess (db : Db) (actorSub slug : JsString) (changes : Members) :
    Except Failure RoleChange := do
  let actor ← lockActors db actorSub []
  let role ← roleBelow db actor slug
  let permissions ← mapArgument (Json.member? changes (js "permissions"))
  let defaults ← mapArgument (Json.member? changes (js "app_defaults"))
  failIf (permissions.isEmpty && defaults.isEmpty) (fail 400 "no_changes" [])
  failIf (decide (permissions.length > 100) || decide (defaults.length > 50))
    (fail 400 "too_many_changes" [])
  onlyIf (!permissions.isEmpty)
    (requirePermission actor.granted "org.roles.edit.permissions.acctPortal")
  onlyIf (!defaults.isEmpty) (requirePermission actor.granted "org.roles.edit.permissions.app")
  checkAll (checkPermission actor.granted ["grant", "deny"]) permissions
  let appValues ← defaults.mapM (checkAppDefault db actor role.1)
  .ok ⟨actor, role.1, permissions, defaults, appValues⟩

def writeRolePermission (slug : Slug) (db : Db) (entry : JsString × Json) : Except Failure Db := do
  let effect ← storedEffect entry.2
  .ok { db with rolePermissions := writeOptional db.rolePermissions (slug, entry.1) effect }

def writeDefault (slug : Slug) (db : Db) (entry : ClientId × AppValue) : Db :=
  { db with orgRoleAppDefaults :=
      writeOptional db.orgRoleAppDefaults (slug, entry.1) entry.2.stored }

def writeRoleAccess (db : Db) (change : RoleChange) : Except Failure Db := do
  let permitted ← change.permissions.foldlM (writeRolePermission change.slug) db
  .ok (change.appValues.foldl (writeDefault change.slug) permitted)

def roleChangeDetail (slug : JsString) (change : RoleChange) : List (String × Json) :=
  [("slug", .str slug)] ++
  (if change.permissions.isEmpty then [] else [("permissions", .obj change.permissions)]) ++
  (if change.defaults.isEmpty then [] else [("app_defaults", .obj change.defaults)])

def applyRoleAccess (env : Surroundings) (db : Db) (actorSub slug : JsString) (changes : Members)
    (action : JsString) : Except Failure Db := do
  let change ← checkRoleAccess db actorSub slug changes
  let written ← writeRoleAccess db change
  let published ← publishIf (!change.appValues.isEmpty) env written
    (change.appValues.map Prod.fst) none
  writeAudit published change.actor action (roleChangeDetail slug change) none

end DreamSso
