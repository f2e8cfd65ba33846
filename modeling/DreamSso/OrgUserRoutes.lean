import DreamSso.AccountRoutes
import DreamSso.Registrations
import DreamSso.SecurityRoutes

/-!
The administration of one user: the routes that read the org levels of actor and target
first and change the target's rows with later statements.
-/
namespace DreamSso.OrgUsers

open Interleaving JsConversions JsStrings

/-- What the routes answer: `error` names the error, `errors` a field and its text. -/
inductive OrgResponse
  | noContent
  | error (status : ℕ) (error : String)
  | denied (permission : PermKey)
  | errors (status : ℕ) (field text : String)
  deriving DecidableEq

/-- The level of a user without an org role. -/
def INF_LEVEL : ℤ := 2147483647

def levelOf (role : Option (Slug × OrgRole)) : ℤ := (role.map fun r => r.2.level).getD INF_LEVEL

structure ActorCtx where
  sub : Uuid
  level : ℤ
  granted : List PermKey

/-- `resolveAuthz` reads the role, its effects and the overrides one after another; the label
is read for the audit log. -/
def actorCtx (sub : Uuid) : Handler ActorCtx := do
  let role ← await (.orgRoleRow sub)
  let roleEffect ← await (.roleEffects sub)
  let override ← await (.permissionOverrides sub)
  let _label ← await (.identityRow sub false)
  pure ⟨sub, levelOf role, PERMISSIONS.filter fun key =>
    decide (Factors.effectIn roleEffect override key = .grant)⟩

/-- Strictly lower target, never self. The id has the form that the routes test session ids
for; one that is no uuid makes the statement fail. -/
def editableTarget (actor : Uuid) (sub : JsString) : Handler (Option (ActorCtx × TargetRow)) := do
  let a ← actorCtx actor
  if looksLikeSid sub = false then pure none
  else match Uuid.parse? sub with
    | none => .thrown
    | some sub => do
        match ← await (.targetRow sub) with
        | none => pure none
        | some t =>
            if t.sub = a.sub ∨ levelOf t.role ≤ a.level then pure none else pure (some (a, t))

def revokeAllSessions (sub : Uuid) : Handler Unit := do
  let revoked ← await (.deleteSessions (.ofUser sub))
  fanOutAll revoked

/-- The fields of a PATCH that are texts. -/
structure ProfileBody where
  displayName : Option JsString
  email : Option JsString
  username : Option JsString
  deriving DecidableEq

/-- A field that is set: its key, then its own check of the trimmed text. -/
def profileField (a : ActorCtx) (key : String) (value : Option JsString)
    (check : JsString → Handler (Option OrgResponse)) :
    Handler (Except OrgResponse (Option JsString)) :=
  match value with
  | none => pure (.ok none)
  | some value =>
      if js key ∉ a.granted then pure (.error (.denied (js key)))
      else do
        match ← check (trim value) with
        | some refusal => pure (.error refusal)
        | none => pure (.ok (some (trim value)))

def checkDisplayName (v : JsString) : Handler (Option OrgResponse) :=
  if v = [] ∨ 100 < v.length then
    pure (some (.errors 422 "display_name" "Required, max 100 chars"))
  else pure none

def emailInUse (sub : Uuid) (v : JsString) : Handler Bool := do
  let taken ← await (.emailTaken v sub)
  if taken then pure true else ask (.emailReserved v)

/-- An empty email clears the column. -/
def checkEmail (sub : Uuid) (v : JsString) : Handler (Option OrgResponse) :=
  if v = [] then pure none
  else if Registration.isEmail v = false then
    pure (some (.errors 422 "email" "Enter a valid email address"))
  else do
    let inUse ← emailInUse sub v
    if inUse then pure (some (.errors 409 "email" "Already in use")) else pure none

def checkUsername (sub : Uuid) (v : JsString) : Handler (Option OrgResponse) :=
  if Registration.isUsername v = false then
    pure (some (.errors 422 "username" "3-20 characters: letters, digits, - and _"))
  else do
    let taken ← await (.usernameTaken v sub)
    if taken then pure (some (.errors 409 "username" "Already taken")) else pure none

/-- PATCH /account/org/users/:sub -/
def patchUser (body : ProfileBody) (a : ActorCtx) (t : TargetRow) : Handler OrgResponse := do
  match ← profileField a "org.users.edit.displayname" body.displayName checkDisplayName with
  | .error refusal => pure refusal
  | .ok displayName =>
    match ← profileField a "org.users.edit.email" body.email (checkEmail t.sub) with
    | .error refusal => pure refusal
    | .ok email =>
      match ← profileField a "org.users.edit.username" body.username (checkUsername t.sub) with
      | .error refusal => pure refusal
      | .ok username =>
        if displayName = none ∧ email = none ∧ username = none then
          pure (.error 400 "no_fields")
        else do
          match ← await (.updateProfile t.sub ⟨displayName, email, username⟩) with
          | .written => pure .noContent
          | .emailTaken => pure (.errors 409 "email" "Already in use")
          | .usernameTaken => pure (.errors 409 "username" "Already taken")

/-- DELETE /account/org/users/:sub/avatar -/
def deleteAvatar (_ : ActorCtx) (t : TargetRow) : Handler OrgResponse := do
  if (t.columns.avatar.any fun avatar => decide (avatar ≠ [])) then do
    await (.removeAvatar t.sub)
    pure .noContent
  else pure .noContent

/-- POST /account/org/users/:sub/password -/
def setPassword (password : Option JsString) (_ : ActorCtx) (t : TargetRow) :
    Handler OrgResponse :=
  match acceptablePassword password with
  | none => pure (.error 422 "weak_password")
  | some password => do
      let hash ← ask (.passwordHash password)
      await (.setPassword t.sub hash)
      revokeAllSessions t.sub
      pure .noContent

/-- POST /account/org/users/:sub/mfa/disable -/
def disableMfa (_ : ActorCtx) (t : TargetRow) : Handler OrgResponse := do
  await (.setMfaEnabled t.sub false)
  pure .noContent

/-- The action token was minted for this actor, this action and this target. -/
def ActionToken.clears (a : ActorCtx) (t : TargetRow) (token : ActionToken) : Bool :=
  decide (token.actor = a.sub ∧ token.action = js "mfa.reset" ∧ token.target = t.sub.text)

/-- With the portal's step-up switch on the reset consumes a fresh action token. -/
def actionCleared (actionToken : JsString) (a : ActorCtx) (t : TargetRow) : Handler Bool := do
  let required ← getSetting "stepup_portal_required"
  if required = some (js "true") then do
    let token : Option ActionToken ← await (.getdel (.actionToken actionToken))
    pure (token.any (ActionToken.clears a t))
  else pure true

/-- Two statements on connections of their own; the database decides their order. -/
def deleteFactors (sub : Uuid) (passkeysFirst : Bool) : Handler (ℕ × ℕ) :=
  if passkeysFirst then do
    let nPk ← await (.deletePasskeys sub)
    let nTotp ← await (.deleteTotp sub)
    pure (nTotp, nPk)
  else do
    let nTotp ← await (.deleteTotp sub)
    let nPk ← await (.deletePasskeys sub)
    pure (nTotp, nPk)

/-- POST /account/org/users/:sub/mfa/reset -/
def resetMfa (actionToken : JsString) (passkeysFirst : Bool) (a : ActorCtx) (t : TargetRow) :
    Handler OrgResponse := do
  let cleared ← actionCleared actionToken a t
  if cleared = false then pure (.error 403 "action_challenge_required")
  else do
    let _removed ← deleteFactors t.sub passkeysFirst
    await (.setMfaEnabled t.sub false)
    pure .noContent

/-- DELETE /account/org/users/:sub/sessions/:sid. A text that is no uuid makes the statement
fail. -/
def terminateSession (sid : JsString) (_ : ActorCtx) (t : TargetRow) : Handler OrgResponse :=
  match Uuid.parse? sid with
  | none => .thrown
  | some _ => do
      match ← await (.deleteSessions (.one sid t.sub)) with
      | [] => pure (.error 404 "not_found")
      | r :: _ => do
          fanOutLogout t.sub sid r.clients
          pure .noContent

/-- POST /account/org/users/:sub/sessions/terminate-all -/
def terminateAll (_ : ActorCtx) (t : TargetRow) : Handler OrgResponse := do
  revokeAllSessions t.sub
  pure .noContent

/-- POST /account/org/users/:sub/suspend -/
def suspend (_ : ActorCtx) (t : TargetRow) : Handler OrgResponse := do
  await (.setStatus t.sub .disabled)
  revokeAllSessions t.sub
  pure .noContent

/-- POST /account/org/users/:sub/reactivate -/
def reactivate (_ : ActorCtx) (t : TargetRow) : Handler OrgResponse := do
  await (.setStatus t.sub .active)
  pure .noContent

inductive UserEdit
  | patchUser (body : ProfileBody)
  | deleteAvatar
  | setPassword (password : Option JsString)
  | disableMfa
  | resetMfa (actionToken : JsString) (passkeysFirst : Bool)
  | terminateSession (sid : JsString)
  | terminateAll
  | suspend
  | reactivate

/-- The permission of the route. The fields of a PATCH have keys of their own. -/
def UserEdit.permission : UserEdit → Option String
  | .patchUser _ => none
  | .deleteAvatar => some "org.users.edit.profilePicture.remove"
  | .setPassword _ => some "org.users.edit.password"
  | .disableMfa => some "org.users.edit.mfa.disable"
  | .resetMfa _ _ => some "org.users.edit.mfa.reset"
  | .terminateSession _ => some "org.users.edit.sessions.terminate"
  | .terminateAll => some "org.users.edit.sessions.terminate"
  | .suspend => some "org.users.edit.deactivate"
  | .reactivate => some "org.users.edit.reactivate"

def UserEdit.work : UserEdit → ActorCtx → TargetRow → Handler OrgResponse
  | .patchUser body => OrgUsers.patchUser body
  | .deleteAvatar => OrgUsers.deleteAvatar
  | .setPassword password => OrgUsers.setPassword password
  | .disableMfa => OrgUsers.disableMfa
  | .resetMfa actionToken passkeysFirst => OrgUsers.resetMfa actionToken passkeysFirst
  | .terminateSession sid => OrgUsers.terminateSession sid
  | .terminateAll => OrgUsers.terminateAll
  | .suspend => OrgUsers.suspend
  | .reactivate => OrgUsers.reactivate

/-- `requirePerm`: the permission the caller lacks. -/
def UserEdit.denied (edit : UserEdit) : Handler (Option PermKey) :=
  match edit.permission with
  | none => pure none
  | some permission => do
      let allowed ← ask (.middleware permission)
      pure (if allowed then none else some (js permission))

/-- The middleware of a route, the guard, and its own work. -/
def UserEdit.handle (edit : UserEdit) (actor : Uuid) (sub : JsString) : Handler OrgResponse := do
  match ← edit.denied with
  | some permission => pure (.denied permission)
  | none => do
      let fresh ← ask (.middleware "requireFreshStepup")
      if fresh = false then pure (.error 403 "step_up_required")
      else do
        match ← editableTarget actor sub with
        | none => pure (.error 404 "not_found")
        | some (a, t) => edit.work a t

/-- A mutation of one user, or a role transaction. -/
inductive OrgCall
  | mutate (edit : UserEdit) (actor : Uuid) (sub : JsString)
  | role (transaction : RoleTransaction)

/-- What a role transaction answers is decided by the route it belongs to. -/
def OrgCall.program : OrgCall → Handler (Option OrgResponse)
  | .mutate edit actor sub => do
      let response ← edit.handle actor sub
      pure (some response)
  | .role transaction => do
      await (.roleTransaction transaction)
      pure none

/-- Who makes a mutation. -/
def OrgCall.actor : OrgCall → Option Uuid
  | .mutate _ actor _ => some actor
  | .role _ => none

end DreamSso.OrgUsers
