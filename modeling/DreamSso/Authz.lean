import DreamSso.RoleSchema
import Mathlib.Order.WithBot

/-!
The permission engine. A permission is decided by the user's own override, then
by the org role, and is denied when neither decides it.
-/
namespace DreamSso

open JsStrings KeyedTables

def PERMISSIONS : List PermKey :=
  [
    "profile.displayname.change", "profile.picture.set", "profile.username.change",
    "profile.email.add", "profile.email.change", "profile.email.setPrimary",
    "profile.security.password.change", "profile.security.sessions.view",
    "profile.security.sessions.terminate", "profile.security.mfa.enable",
    "profile.security.mfa.disable", "profile.security.mfa.totp.add",
    "profile.security.mfa.totp.rename", "profile.security.mfa.totp.remove",
    "profile.security.mfa.passkey.add", "profile.security.mfa.passkey.rename",
    "profile.security.mfa.passkey.remove", "org.users.view", "org.users.create",
    "org.users.edit.displayname", "org.users.edit.username",
    "org.users.edit.profilePicture.remove", "org.users.edit.email", "org.users.edit.password",
    "org.users.edit.permissions.acctPortal", "org.users.edit.permissions.app",
    "org.users.edit.sessions.view", "org.users.edit.sessions.terminate",
    "org.users.edit.deactivate", "org.users.edit.reactivate", "org.users.edit.mfa.view",
    "org.users.edit.mfa.disable", "org.users.edit.mfa.reset", "org.users.remove",
    "org.roles.view", "org.roles.create", "org.roles.edit.permissions.acctPortal",
    "org.roles.edit.permissions.app", "org.roles.edit.level", "org.roles.edit.rename",
    "org.roles.remove", "org.apps.view", "org.apps.sync", "org.roles.edit.default",
    "org.dashboard", "org.logs.view", "org.logs.clear", "org.invites.view", "org.invites.create",
    "org.invites.void", "org.siteSettings.acctPortal", "org.siteSettings.sso",
    "org.mfaPolicies.view", "org.mfaPolicies.edit"
  ].map js

structure UserAuthz where
  role : Option Slug
  level : WithTop ℤ
  granted : List PermKey
  deriving DecidableEq

/-- The org role of a user with its row. -/
def orgRoleOf (db : Db) (sub : Uuid) : Option (Slug × OrgRole) :=
  (db.userOrgRoles.find? sub).bind fun slug => (db.orgRoles.find? slug).map fun r => (slug, r)

/-- Lower is more privileged; a user without an org role ranks last. -/
def orgLevel (db : Db) (sub : Uuid) : WithTop ℤ :=
  match orgRoleOf db sub with
  | some (_, r) => (r.level : WithTop ℤ)
  | none => ⊤

def roleEffect (db : Db) (sub : Uuid) (key : PermKey) : Option Effect :=
  (db.userOrgRoles.find? sub).bind fun slug => db.rolePermissions.find? (slug, key)

def effectOf (db : Db) (sub : Uuid) (key : PermKey) : Effect :=
  ((db.userPermissionOverrides.find? (sub, key)).or (roleEffect db sub key)).getD .deny

def resolveAuthz (db : Db) (sub : Uuid) : UserAuthz where
  role := (orgRoleOf db sub).map fun r => r.1
  level := orgLevel db sub
  granted := PERMISSIONS.filter fun key => decide (effectOf db sub key = .grant)

end DreamSso
