import DreamSso.RoleAdministration

/-!
Creation, editing and removal of org roles, the default org role, and users
created by an administrator. A new role starts as a copy of the default role; a
removed role takes its rows with it, which is only allowed while nobody has it.
-/
namespace DreamSso

open JsStrings JsonValues JsConversions KeyedTables Fallible

def defaultOrgRoleKey : JsString := js "default_org_role"

def defaultOrgRole (db : Db) : Slug :=
  match db.settings.find? defaultOrgRoleKey with
  | some value => if value = [] then js "standard_user" else value
  | none => js "standard_user"

/-- A lower-case letter and one to thirty-nine letters, digits, `-` or `_`. -/
def isSlug : JsString → Bool
  | [] => false
  | first :: rest =>
      let letter (u : ℕ) : Bool := decide (0x61 ≤ u) && decide (u ≤ 0x7a)
      letter first && decide (1 ≤ rest.length) && decide (rest.length ≤ 39) &&
        rest.all fun u => letter u || isDigitUnit u || decide (u = 0x5f) || decide (u = 0x2d)

def isLabel (label : JsString) : Bool := decide (label ≠ []) && decide (label.length ≤ 60)

def trimmedMember (body : Members) (key : String) : JsString :=
  match Json.member? body (js key) with
  | some (.str s) => trim s
  | _ => []

def createErrors (actor : Actor) (slug label : JsString) (level : Option ℕ) :
    List (String × String) :=
  (if isSlug slug then [] else [("slug", "lowercase letters, digits, - and _ (2-40)")]) ++
  (if isLabel label then [] else [("label", "Required, max 60 chars")]) ++
  (match level with
    | none => [("level", "Whole number 1-9999")]
    | some n => if ((n : ℤ) : WithTop ℤ) ≤ actor.level then
        [("level", "Must be below your own level")] else [])

/-- INSERT ... SELECT of the rows of one role under another; an existing row is
a unique violation. -/
def copyRows {κ α : Type} [DecidableEq κ] (table : Table (Slug × κ) α) (source target : Slug) :
    Except Failure (Table (Slug × κ) α) :=
  (table.rows.filter fun row => decide (row.1.1 = source)).foldlM (fun t row =>
    match t.insertNew (target, row.1.2) row.2 with
    | some t' => .ok t'
    | none => .error (.database "unique_violation")) table

def createOrgRole (db : Db) (actorSub : JsString) (body : Members) : Except Failure (Slug × Db) := do
  let actor ← lockActors db actorSub []
  requirePermission actor.granted "org.roles.create"
  let slug := trimmedMember body "slug"
  let label := trimmedMember body "label"
  let level := wholeNumber? (Json.member? body (js "level"))
  match level, createErrors actor slug label level with
  | some n, [] =>
      failIf (db.orgRoles.contains slug) (fieldError 409 [("slug", "Already exists")])
      let seed := defaultOrgRole db
      failIf (!db.orgRoles.contains seed) (.error "Default organization role is unavailable.")
      let storedLabel ← param label
      let rolePermissions ← copyRows db.rolePermissions seed slug
      let orgRoleAppDefaults ← copyRows db.orgRoleAppDefaults seed slug
      let created := { db with
        orgRoles := db.orgRoles.upsert slug ⟨storedLabel, n, false⟩
        rolePermissions := rolePermissions
        orgRoleAppDefaults := orgRoleAppDefaults }
      let audited ← writeAudit created actor (js "role.create")
        [("slug", .str slug), ("level", Json.int n), ("seeded_from", .str seed)] none
      .ok (slug, audited)
  | _, errors => .error (fieldError 422 errors)

/-- The label a patch sets; every field is validated before the first write. -/
def patchLabel (actor : Actor) (body : Members) : Except Failure (Option JsString) :=
  match Json.member? body (js "label") with
  | some (.str text) => do
      requirePermission actor.granted "org.roles.edit.rename"
      failIf (!isLabel (trim text)) (fieldError 422 [("label", "Required, max 60 chars")])
      .ok (some (trim text))
  | _ => .ok none

def patchLevel (actor : Actor) (body : Members) : Except Failure (Option ℕ) :=
  match Json.member? body (js "level") with
  | none => .ok none
  | some value => do
      requirePermission actor.granted "org.roles.edit.level"
      match wholeNumber? (some value) with
      | some n =>
          if ((n : ℤ) : WithTop ℤ) ≤ actor.level then
            .error (fieldError 422 [("level", "Whole number 1-9999, below your own level")])
          else .ok (some n)
      | none => .error (fieldError 422 [("level", "Whole number 1-9999, below your own level")])

def storedLabel (role : OrgRole) : Option JsString → Except Failure JsString
  | some text => param text
  | none => .ok role.label

def patchOrgRole (db : Db) (actorSub slug : JsString) (body : Members) : Except Failure Db := do
  let actor ← lockActors db actorSub []
  let (stored, role) ← roleBelow db actor slug
  let label ← patchLabel actor body
  let level ← patchLevel actor body
  failIf (label.isNone && level.isNone) (fail 400 "no_fields" [])
  let text ← storedLabel role label
  let edited : OrgRole := { role with label := text, level := level.elim role.level fun n => n }
  writeAudit { db with orgRoles := db.orgRoles.upsert stored edited } actor (js "role.edit")
    ([("slug", .str slug)] ++ label.elim [] (fun text => [("label", .str text)]) ++
      level.elim [] (fun n => [("level", Json.int n)])) none

/-- DELETE of an org role with the rows that reference it. -/
def dropOrgRole (db : Db) (slug : Slug) : Db :=
  { db with
    orgRoles := db.orgRoles.deleteWhere fun s _ => decide (s = slug)
    userOrgRoles := db.userOrgRoles.deleteWhere fun _ s => decide (s = slug)
    rolePermissions := db.rolePermissions.deleteWhere fun k _ => decide (k.1 = slug)
    orgRoleAppDefaults := db.orgRoleAppDefaults.deleteWhere fun k _ => decide (k.1 = slug) }

def deleteOrgRole (db : Db) (actorSub slug : JsString) : Except Failure Db := do
  let actor ← lockActors db actorSub []
  requirePermission actor.granted "org.roles.remove"
  let stored ← param slug
  match db.orgRoles.find? stored with
  | none => .error (fail 404 "not_found" [])
  | some role =>
      failIf role.isSystem (fail 409 "system_role" [])
      failIf (decide ((role.level : WithTop ℤ) ≤ actor.level)) (fail 403 "role_above_level" [])
      failIf (db.userOrgRoles.any fun _ s => decide (s = stored)) (fail 409 "role_in_use" [])
      failIf (decide (defaultOrgRole db = slug)) (fail 409 "role_is_default" [])
      writeAudit (dropOrgRole db stored) actor (js "role.delete") [("slug", .str slug)] none

def setDefaultOrgRole (db : Db) (actorSub slug : JsString) : Except Failure Db := do
  let actor ← lockActors db actorSub []
  requirePermission actor.granted "org.roles.edit.default"
  let (stored, _) ← roleBelow db actor slug
  writeAudit { db with settings := db.settings.upsert defaultOrgRoleKey stored } actor
    (js "role.default_change") [("slug", .str slug)] none

structure PreparedOrgUser where
  sub : JsString
  username : JsString
  displayName : JsString
  email : JsString
  passwordHash : JsString
  roleSlug : JsString

/-- The unique indexes cover the identities that are not deleted and compare
their citext columns without case. -/
def taken (env : Surroundings) (db : Db) (column : Identity → Option JsString) (value : JsString) :
    Bool :=
  db.identities.any fun _ i => i.present &&
    (column i).any fun stored => decide (env.foldCase stored = env.foldCase value)

def insertIdentity (env : Surroundings) (db : Db) (input : PreparedOrgUser) :
    Except Failure (Uuid × Db) := do
  let sub ← uuidParam input.sub
  let username ← param input.username
  let displayName ← param input.displayName
  let email ← param input.email
  let passwordHash ← param input.passwordHash
  if db.identities.contains sub || taken env db (fun i => some i.username) username then
    .error (fieldError 409 [("username", "Already taken")])
  else if decide (email ≠ []) && taken env db (fun i => i.email) email then
    .error (fieldError 409 [("email", "Already in use")])
  else
    let identity : Identity := {
      username := username
      displayName := displayName
      email := if email = [] then none else some email
      emailVerified := decide (email ≠ [])
      passwordHash := some passwordHash
      passwordChangedAt := some env.now
      status := .active
      deletedAt := none
    }
    .ok (sub, { db with identities := db.identities.upsert sub identity })

def createOrgUser (env : Surroundings) (db : Db) (actorSub : JsString) (input : PreparedOrgUser) :
    Except Failure Db := do
  let actor ← lockActors db actorSub []
  requirePermission actor.granted "org.users.create"
  let slug ← param input.roleSlug
  let refused := fieldError 422 [("org_role", "Pick a role below your own")]
  match db.orgRoles.find? slug with
  | none => .error refused
  | some role =>
      failIf (decide ((role.level : WithTop ℤ) ≤ actor.level)) refused
      let (sub, created) ← insertIdentity env db input
      match created.userOrgRoles.insertNew sub slug with
      | none => .error (.database "unique_violation")
      | some userOrgRoles =>
          writeAudit { created with userOrgRoles := userOrgRoles } actor (js "user.create")
            [("username", .str input.username), ("org_role", .str slug)]
            (some (sub, firstText input.displayName input.username input.username))

end DreamSso
