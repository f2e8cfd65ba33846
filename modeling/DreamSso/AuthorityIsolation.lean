import DreamSso.Authz
import DreamSso.RoleCalls
import DreamSso.RoleTransactions

/-!
Isolation of authority. An administrator can only change what users below his own
level are allowed to do, and cannot lift them to his level: for every user a call
either leaves everything that decides the user's rights as it was, or the user
ranks strictly below the actor before and after.
-/
namespace DreamSso

open JsStrings JsonValues KeyedTables Fallible

/-- The rank of a caller; who is not a user ranks last. -/
def actorLevel (db : Db) (actorSub : JsString) : WithTop ℤ :=
  match Uuid.parse? actorSub with
  | some sub => orgLevel db sub
  | none => ⊤

/-- The rows that decide the org role, permissions and app roles of one user. -/
structure SameRights (db db' : Db) (sub : Uuid) : Prop where
  membership : db'.userOrgRoles.find? sub = db.userOrgRoles.find? sub
  role : ∀ slug, db.userOrgRoles.find? sub = some slug →
    db'.orgRoles.find? slug = db.orgRoles.find? slug
  rolePermissions : ∀ slug key, db.userOrgRoles.find? sub = some slug →
    db'.rolePermissions.find? (slug, key) = db.rolePermissions.find? (slug, key)
  defaults : ∀ slug clientId, db.userOrgRoles.find? sub = some slug →
    db'.orgRoleAppDefaults.find? (slug, clientId) = db.orgRoleAppDefaults.find? (slug, clientId)
  permissions : ∀ key,
    db'.userPermissionOverrides.find? (sub, key) = db.userPermissionOverrides.find? (sub, key)
  overrides : ∀ clientId,
    db'.userAppRoleOverrides.find? (sub, clientId) = db.userAppRoleOverrides.find? (sub, clientId)
  catalogs : db'.appRoleCatalogs = db.appRoleCatalogs

theorem SameRights.of_tables {db db' : Db} (h : db'.toRoleTables = db.toRoleTables) (sub : Uuid) :
    SameRights db db' sub := by
  constructor <;> intros <;> rw [h]

theorem SameRights.orgRoleOf {db db' : Db} {sub : Uuid} (h : SameRights db db' sub) :
    orgRoleOf db' sub = orgRoleOf db sub := by
  unfold DreamSso.orgRoleOf
  rw [h.membership]
  cases hslug : db.userOrgRoles.find? sub with
  | none => rfl
  | some slug => simp [h.role slug hslug]

theorem SameRights.orgLevel {db db' : Db} {sub : Uuid} (h : SameRights db db' sub) :
    orgLevel db' sub = orgLevel db sub := by
  unfold DreamSso.orgLevel
  rw [h.orgRoleOf]

theorem SameRights.effectOf {db db' : Db} {sub : Uuid} (h : SameRights db db' sub)
    (key : PermKey) : effectOf db' sub key = effectOf db sub key := by
  unfold DreamSso.effectOf roleEffect
  rw [h.permissions, h.membership]
  cases hslug : db.userOrgRoles.find? sub with
  | none => rfl
  | some slug => simp [h.rolePermissions slug key hslug]

theorem SameRights.resolveAuthz {db db' : Db} {sub : Uuid} (h : SameRights db db' sub) :
    resolveAuthz db' sub = resolveAuthz db sub := by
  simp only [DreamSso.resolveAuthz, h.orgRoleOf, h.orgLevel, h.effectOf]

theorem SameRights.effectiveAppRole {db db' : Db} {sub : Uuid} (h : SameRights db db' sub)
    (clientId : ClientId) : effectiveAppRole db' sub clientId = effectiveAppRole db sub clientId := by
  have horg : orgLayer db' sub clientId = orgLayer db sub clientId := by
    unfold orgLayer
    rw [h.membership]
    cases hslug : db.userOrgRoles.find? sub with
    | none => rfl
    | some slug => exact h.defaults slug clientId hslug
  simp only [DreamSso.effectiveAppRole, h.overrides, horg, h.catalogs]

/-- A user change only reaches its target. -/
theorem UserChange.write_sameRights (change : UserChange) {db db' : Db}
    {permissions : Table (Uuid × PermKey) Effect}
    (hkept : OthersKept change.target.sub db.userPermissionOverrides permissions)
    (htables : db'.toRoleTables = (change.write db permissions).toRoleTables) {sub : Uuid}
    (hsub : sub ≠ change.target.sub) : SameRights db db' sub := by
  constructor
  · rw [htables, UserChange.write]
    cases change.orgRole with
    | none => rfl
    | some slug => exact Table.find?_upsert_ne _ _ hsub
  · intro slug _
    rw [htables, UserChange.write]
  · intro slug key _
    rw [htables, UserChange.write]
  · intro slug clientId _
    rw [htables, UserChange.write]
  · intro key
    rw [htables]
    exact hkept sub key hsub
  · intro clientId
    rw [htables]
    rcases writeValues_find change.target.sub change.appValues db.userAppRoleOverrides
      (sub, clientId) with ⟨hsame, -⟩ | ⟨hholder, -⟩
    · exact hsame
    · exact (hsub hholder).elim
  · rw [htables, UserChange.write]

/-- A role change only reaches the members of its role. -/
theorem RoleChange.write_sameRights (change : RoleChange) {db db' : Db}
    {permissions : Table (Slug × PermKey) Effect}
    (hkept : RowsKept change.slug db.rolePermissions permissions)
    (htables : db'.toRoleTables = (change.write db permissions).toRoleTables) {sub : Uuid}
    (hsub : db.userOrgRoles.find? sub ≠ some change.slug) : SameRights db db' sub := by
  have hother : ∀ other, db.userOrgRoles.find? sub = some other → other ≠ change.slug := by
    rintro other hother rfl
    exact hsub hother
  constructor
  · rw [htables, RoleChange.write]
  · intro other _
    rw [htables, RoleChange.write]
  · intro other key hmember
    rw [htables]
    exact hkept other key (hother other hmember)
  · intro other clientId hmember
    rw [htables]
    rcases writeValues_find change.slug change.appValues db.orgRoleAppDefaults
      (other, clientId) with ⟨hsame, -⟩ | ⟨hholder, -⟩
    · exact hsame
    · exact (hother other hmember hholder).elim
  · intro key
    rw [htables, RoleChange.write]
  · intro clientId
    rw [htables, RoleChange.write]
  · rw [htables, RoleChange.write]

/-- What a call may do to a user, seen from an actor of some level. -/
def Confined (db db' : Db) (level : WithTop ℤ) (sub : Uuid) : Prop :=
  SameRights db db' sub ∨ level < orgLevel db sub ∧ level < orgLevel db' sub

theorem orgLevel_of_role {db : Db} {sub : Uuid} {slug : Slug} {role : OrgRole}
    (hslug : db.userOrgRoles.find? sub = some slug) (hrole : db.orgRoles.find? slug = some role) :
    orgLevel db sub = role.level := by
  simp [orgLevel, orgRoleOf, hslug, hrole]

theorem lt_orgLevel {db : Db} {sub : Uuid} {slug : Slug} {role : OrgRole} {level : WithTop ℤ}
    (hslug : db.userOrgRoles.find? sub = some slug) (hrole : db.orgRoles.find? slug = some role)
    (h : level < (role.level : WithTop ℤ)) : level < orgLevel db sub := by
  rw [orgLevel_of_role hslug hrole]
  exact h

theorem orgLevel_of_no_role {db : Db} {sub : Uuid} {slug : Slug}
    (hslug : db.userOrgRoles.find? sub = some slug) (hrole : db.orgRoles.find? slug = none) :
    orgLevel db sub = ⊤ := by
  simp [orgLevel, orgRoleOf, hslug, hrole]

theorem orgLevel_of_no_membership {db : Db} {sub : Uuid}
    (hslug : db.userOrgRoles.find? sub = none) : orgLevel db sub = ⊤ := by
  simp [orgLevel, orgRoleOf, hslug]

theorem orgLevel_congr {db db' : Db} {sub : Uuid}
    (hmember : db'.userOrgRoles.find? sub = db.userOrgRoles.find? sub)
    (hroles : db'.orgRoles = db.orgRoles) : orgLevel db' sub = orgLevel db sub := by
  simp only [orgLevel, orgRoleOf, hmember, hroles]

theorem lt_top_of_lt_level {level : WithTop ℤ} {n : ℤ} (h : level < (n : WithTop ℤ)) : level < ⊤ :=
  lt_of_lt_of_le h le_top

section Calls

variable {env : Surroundings} {db db' : Db} {actorSub : JsString} {actor : Actor}

theorem CheckedActor.actorLevel (h : CheckedActor db actorSub actor) :
    actorLevel db actorSub = actor.level := by
  simp only [DreamSso.actorLevel, h.sub, h.level]

theorem applyUserAccess_confined {targetSub : JsString} {changes : Members} {action : JsString}
    (h : applyUserAccess env db actorSub targetSub changes action = .ok db') (sub : Uuid) :
    Confined db db' (actorLevel db actorSub) sub := by
  obtain ⟨change, permissions, published, log, hchecked, hkept, hpublish, hdb⟩ :=
    applyUserAccess_ok h
  have htables : db'.toRoleTables = (change.write db permissions).toRoleTables := by
    rw [hdb]
    exact (publishIf_unpublished hpublish).tables
  rw [hchecked.actor.actorLevel]
  by_cases hsub : sub = change.target.sub
  · subst hsub
    right
    refine ⟨hchecked.below, ?_⟩
    cases horg : change.orgRole with
    | none =>
      have hsame : orgLevel db' change.target.sub = orgLevel db change.target.sub := by
        apply orgLevel_congr
        · rw [htables, UserChange.write, horg]
          rfl
        · rw [htables, UserChange.write]
      rw [hsame]
      exact hchecked.below
    | some slug =>
      obtain ⟨role, hrole, hlevel⟩ := hchecked.orgRole slug horg
      have hmember : db'.userOrgRoles.find? change.target.sub = some slug := by
        rw [htables, UserChange.write, horg]
        exact Table.find?_upsert_self _ _ _
      have hfound : db'.orgRoles.find? slug = some role := by
        rw [htables]
        exact hrole
      exact lt_orgLevel hmember hfound hlevel
  · exact .inl (change.write_sameRights hkept htables hsub)

theorem applyRoleAccess_confined {slug : JsString} {changes : Members} {action : JsString}
    (h : applyRoleAccess env db actorSub slug changes action = .ok db') (sub : Uuid) :
    Confined db db' (actorLevel db actorSub) sub := by
  obtain ⟨change, permissions, published, log, hchecked, hkept, hpublish, hdb⟩ :=
    applyRoleAccess_ok h
  have htables : db'.toRoleTables = (change.write db permissions).toRoleTables := by
    rw [hdb]
    exact (publishIf_unpublished hpublish).tables
  rw [hchecked.actor.actorLevel]
  by_cases hsub : db.userOrgRoles.find? sub = some change.slug
  · right
    obtain ⟨role, hrole, hlevel⟩ := hchecked.below
    have hmember : db'.userOrgRoles.find? sub = some change.slug := by
      rw [htables]
      exact hsub
    have hfound : db'.orgRoles.find? change.slug = some role := by
      rw [htables]
      exact hrole
    exact ⟨lt_orgLevel hsub hrole hlevel, lt_orgLevel hmember hfound hlevel⟩
  · exact .inl (change.write_sameRights hkept htables hsub)

/-- Only a membership that pointed to no role can meet the new one. -/
theorem createOrgRole_confined {body : Members} {slug : Slug}
    (h : createOrgRole db actorSub body = .ok (slug, db')) (sub : Uuid) :
    Confined db db' (actorLevel db actorSub) sub := by
  obtain ⟨actor, role, rolePermissions, defaults, log, hactor, hnew, hlevel, hpermissions, hdefaults, -,
    rfl⟩ := createOrgRole_ok h
  rw [hactor.actorLevel]
  by_cases hsub : db.userOrgRoles.find? sub = some slug
  · right
    rw [orgLevel_of_no_role hsub hnew]
    exact ⟨lt_top_of_lt_level hlevel, lt_orgLevel hsub (Table.find?_upsert_self _ _ _) hlevel⟩
  · left
    have hother : ∀ other, db.userOrgRoles.find? sub = some other → other ≠ slug := by
      rintro other hother rfl
      exact hsub hother
    exact ⟨rfl, fun other hmember => Table.find?_upsert_ne _ _ (hother other hmember),
      fun other key hmember => hpermissions other key (hother other hmember),
      fun other clientId hmember => hdefaults other clientId (hother other hmember),
      fun _ => rfl, fun _ => rfl, rfl⟩

theorem patchOrgRole_confined {slug : JsString} {body : Members}
    (h : patchOrgRole db actorSub slug body = .ok db') (sub : Uuid) :
    Confined db db' (actorLevel db actorSub) sub := by
  obtain ⟨actor, stored, role, edited, log, hactor, hrole, hbelow, hlevel, rfl⟩ := patchOrgRole_ok h
  rw [hactor.actorLevel]
  by_cases hsub : db.userOrgRoles.find? sub = some stored
  · right
    exact ⟨lt_orgLevel hsub hrole hbelow, lt_orgLevel hsub (Table.find?_upsert_self _ _ _) hlevel⟩
  · left
    refine ⟨rfl, ?_, fun _ _ _ => rfl, fun _ _ _ => rfl, fun _ => rfl, fun _ => rfl, rfl⟩
    intro other hmember
    refine Table.find?_upsert_ne _ _ ?_
    rintro rfl
    exact hsub hmember

theorem deleteOrgRole_confined {slug : JsString} (h : deleteOrgRole db actorSub slug = .ok db')
    (sub : Uuid) : Confined db db' (actorLevel db actorSub) sub := by
  obtain ⟨actor, stored, log, hactor, hmembers, rfl⟩ := deleteOrgRole_ok h
  left
  have hother : ∀ other, db.userOrgRoles.find? sub = some other → other ≠ stored := by
    rintro other hother rfl
    exact hmembers sub hother
  apply SameRights.mk
  · apply Table.find?_deleteWhere_kept
    intro other hmember
    simp [hother other hmember]
  · intro other hmember
    apply Table.find?_deleteWhere_kept
    simp [hother other hmember]
  · intro other key hmember
    apply Table.find?_deleteWhere_kept
    simp [hother other hmember]
  · intro other clientId hmember
    apply Table.find?_deleteWhere_kept
    simp [hother other hmember]
  · intro key
    rfl
  · intro clientId
    rfl
  · rfl

theorem setDefaultOrgRole_confined {slug : JsString}
    (h : setDefaultOrgRole db actorSub slug = .ok db') (sub : Uuid) :
    Confined db db' (actorLevel db actorSub) sub := by
  obtain ⟨settings, log, rfl⟩ := setDefaultOrgRole_ok h
  left
  exact ⟨rfl, fun _ _ => rfl, fun _ _ _ => rfl, fun _ _ _ => rfl, fun _ => rfl, fun _ => rfl, rfl⟩

theorem createOrgUser_confined {input : PreparedOrgUser}
    (h : createOrgUser env db actorSub input = .ok db') (sub : Uuid) :
    Confined db db' (actorLevel db actorSub) sub := by
  obtain ⟨actor, user, slug, role, identity, log, hactor, -, -, hrole, hlevel, -, hfree, -, rfl⟩ :=
    createOrgUser_ok h
  rw [hactor.actorLevel]
  by_cases hsub : sub = user
  · right
    subst hsub
    rw [orgLevel_of_no_membership hfree]
    exact ⟨lt_top_of_lt_level hlevel, lt_orgLevel (Table.find?_upsert_self _ _ _) hrole hlevel⟩
  · left
    exact ⟨Table.find?_upsert_ne _ _ hsub, fun _ _ => rfl, fun _ _ _ => rfl, fun _ _ _ => rfl,
      fun _ => rfl, fun _ => rfl, rfl⟩

theorem AdminCall.confined {call : AdminCall} (h : call.run env actorSub db = .ok db')
    (sub : Uuid) : Confined db db' (DreamSso.actorLevel db actorSub) sub := by
  cases call with
  | applyUserAccess targetSub changes action => exact applyUserAccess_confined h sub
  | applyRoleAccess slug changes action => exact applyRoleAccess_confined h sub
  | createOrgRole body =>
    cases hcreate : DreamSso.createOrgRole db actorSub body with
    | error failure => simp [AdminCall.run, hcreate, Except.map] at h
    | ok created =>
      simp only [AdminCall.run, hcreate, Except.map, Except.ok.injEq] at h
      exact h ▸ createOrgRole_confined hcreate sub
  | patchOrgRole slug body => exact patchOrgRole_confined h sub
  | deleteOrgRole slug => exact deleteOrgRole_confined h sub
  | setDefaultOrgRole slug => exact setDefaultOrgRole_confined h sub
  | createOrgUser input => exact createOrgUser_confined h sub

end Calls

theorem Confined.refl (db : Db) (level : WithTop ℤ) (sub : Uuid) : Confined db db level sub :=
  .inl (SameRights.of_tables rfl sub)

theorem withRoleTransaction_confined (env : Surroundings) (db : Db) (actorSub : JsString)
    (call : AdminCall) (sub : Uuid) :
    Confined db (withRoleTransaction db (call.run env actorSub)) (actorLevel db actorSub) sub := by
  rcases withRoleTransaction_cases db (call.run env actorSub) with hrolled | hcommitted
  · rw [hrolled]
    exact Confined.refl _ _ _
  · exact AdminCall.confined hcommitted sub

/-- The actor does not rank below himself, so his own rank never moves. -/
theorem actorLevel_kept (env : Surroundings) (db : Db) (actorSub : JsString) (call : AdminCall) :
    actorLevel (withRoleTransaction db (call.run env actorSub)) actorSub =
      actorLevel db actorSub := by
  unfold actorLevel
  cases hactor : Uuid.parse? actorSub with
  | none => rfl
  | some sub =>
    have hlevel : actorLevel db actorSub = orgLevel db sub := by simp [actorLevel, hactor]
    rcases withRoleTransaction_confined env db actorSub call sub with hsame | ⟨hbelow, -⟩
    · exact hsame.orgLevel
    · rw [hlevel] at hbelow
      exact (lt_irrefl _ hbelow).elim

/-- No role-administration call, committed or failed, changes the role or the
rights of a user that does not rank strictly below its actor, and a user it
changes still ranks strictly below the actor. -/
theorem authority_isolation (env : Surroundings) (db : Db) (actorSub : JsString)
    (call : AdminCall) (sub : Uuid) :
    let db' := withRoleTransaction db (call.run env actorSub)
    (¬actorLevel db actorSub < orgLevel db sub →
      db'.userOrgRoles.find? sub = db.userOrgRoles.find? sub ∧
      resolveAuthz db' sub = resolveAuthz db sub ∧
      ∀ clientId, effectiveAppRole db' sub clientId = effectiveAppRole db sub clientId) ∧
    ((db'.userOrgRoles.find? sub ≠ db.userOrgRoles.find? sub ∨
      resolveAuthz db' sub ≠ resolveAuthz db sub ∨
      ∃ clientId, effectiveAppRole db' sub clientId ≠ effectiveAppRole db sub clientId) →
      actorLevel db' actorSub < orgLevel db' sub) := by
  intro db'
  have hconfined : Confined db db' (actorLevel db actorSub) sub :=
    withRoleTransaction_confined env db actorSub call sub
  have hactor : actorLevel db' actorSub = actorLevel db actorSub :=
    actorLevel_kept env db actorSub call
  constructor
  · intro hnot
    rcases hconfined with hsame | ⟨hbelow, -⟩
    · exact ⟨hsame.membership, hsame.resolveAuthz, hsame.effectiveAppRole⟩
    · exact (hnot hbelow).elim
  · intro hchanged
    rcases hconfined with hsame | ⟨-, hbelow⟩
    · rcases hchanged with hmember | hauthz | ⟨clientId, hrole⟩
      · exact (hmember hsame.membership).elim
      · exact (hauthz hsame.resolveAuthz).elim
      · exact (hrole (hsame.effectiveAppRole clientId)).elim
    · rw [hactor]
      exact hbelow

end DreamSso
