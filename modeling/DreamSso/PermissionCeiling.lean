import DreamSso.AppRoleCeiling

/-!
Permissions of a user or of an org role that are edited directly. An administrator only
changes permissions he holds himself, besides the one that privileged roles do not hold,
and a refused call has written nothing.
-/
namespace DreamSso

open JsStrings JsonValues KeyedTables Fallible

def Grants (db : Db) (sub : Uuid) (key : PermKey) : Prop := key ∈ (resolveAuthz db sub).granted

/-- The caller holds the permission. -/
def Holds (db : Db) (actorSub : JsString) (key : PermKey) : Prop :=
  ∃ sub, Uuid.parse? actorSub = some sub ∧ Grants db sub key

/-- What a change may do to anybody's permissions: only those the caller holds, and only if
the caller may edit permissions at all. -/
def WithinGrants (db db' : Db) (actorSub : JsString) (edit : String) : Prop :=
  ∀ sub key, ¬ (Grants db' sub key ↔ Grants db sub key) →
    (key = MFA_DISABLE ∨ Holds db actorSub key) ∧ Holds db actorSub (js edit)

/-- Two states that decide a permission alike. -/
theorem grants_congr {db db' : Db} {sub : Uuid} {key : PermKey}
    (h : effectOf db' sub key = effectOf db sub key) : Grants db' sub key ↔ Grants db sub key := by
  simp only [Grants, resolveAuthz, List.mem_filter, h]

/-- What has been checked about requested permissions. -/
structure CheckedPermissions (db : Db) (actorSub : JsString) (edit : String)
    (permissions : Members) : Prop where
  edit : permissions ≠ [] → Holds db actorSub (js edit)
  held : ∀ entry ∈ permissions, entry.1 = MFA_DISABLE ∨ Holds db actorSub entry.1

theorem lockActors_granted {db : Db} {actorSub : JsString} {targets : List JsString} {actor : Actor}
    (h : lockActors db actorSub targets = .ok actor) {key : PermKey} (hkey : key ∈ actor.granted) :
    Holds db actorSub key := by
  unfold lockActors at h
  split at h
  · cases h
  · next sub hsub =>
    split_ifs at h
    split at h
    · cases h
    · split_ifs at h
      cases h
      exact ⟨sub, hsub, hkey⟩

theorem checkPermission_ok {granted : List PermKey} {effects : List String}
    {entry : JsString × Json} (h : checkPermission granted effects entry = .ok ()) :
    entry.1 = MFA_DISABLE ∨ entry.1 ∈ granted := by
  unfold checkPermission at h
  rw [bind_eq_ok] at h
  obtain ⟨-, -, h⟩ := h
  rw [failIf_eq_ok, Bool.and_eq_false_iff, Bool.not_eq_false', decide_eq_false_iff_not, not_not,
    decide_eq_true_eq] at h
  exact h

theorem checkedPermissions {db : Db} {actorSub : JsString} {targets : List JsString} {actor : Actor}
    {permissions : Members} {effects : List String} {edit : String}
    (hactor : lockActors db actorSub targets = .ok actor)
    (hedit : permissions ≠ [] → requirePermission actor.granted edit = .ok ())
    (hall : checkAll (checkPermission actor.granted effects) permissions = .ok ()) :
    CheckedPermissions db actorSub edit permissions where
  edit hsome := by
    have hheld := hedit hsome
    rw [requirePermission, failIf_eq_ok, Bool.not_eq_false', decide_eq_true_eq] at hheld
    exact lockActors_granted hactor hheld
  held entry hentry :=
    (checkPermission_ok (checkAll_eq_ok.mp hall entry hentry)).imp_right (lockActors_granted hactor)

/-- Permissions written one after another only reach the keys that are named. -/
theorem writePermissions_unnamed {κ : Type} [DecidableEq κ] {write : Db → JsString × Json → Except Failure Db}
    {table : Db → Table (κ × PermKey) Effect} {holder : κ}
    (hwrite : ∀ db entry db', write db entry = .ok db' → ∃ effect,
      table db' = writeOptional (table db) (holder, entry.1) effect)
    {entries : Members} {db db' : Db} (h : entries.foldlM write db = .ok db') {other : κ}
    {key : PermKey} (hkey : other ≠ holder ∨ ∀ entry ∈ entries, entry.1 ≠ key) :
    (table db').find? (other, key) = (table db).find? (other, key) := by
  refine foldlM_preserves (fun t => (table t).find? (other, key) = (table db).find? (other, key))
    ?_ h rfl
  intro entry hentry s t hs hst
  obtain ⟨effect, htable⟩ := hwrite s entry t hst
  rw [htable, writeOptional_other, hs]
  intro heq
  obtain ⟨hother, hname⟩ := Prod.mk.inj heq
  rcases hkey with hne | hunnamed
  · exact hne hother
  · exact hunnamed entry hentry hname.symm

section Users

variable {env : Surroundings} {db db' : Db} {actorSub targetSub : JsString} {changes : Members}
  {action : JsString}

theorem effectOf_congr {sub : Uuid} {key : PermKey}
    (hmember : db'.userOrgRoles.find? sub = db.userOrgRoles.find? sub)
    (hrole : ∀ slug, db.userOrgRoles.find? sub = some slug →
      db'.rolePermissions.find? (slug, key) = db.rolePermissions.find? (slug, key))
    (hover : db'.userPermissionOverrides.find? (sub, key) =
      db.userPermissionOverrides.find? (sub, key)) : effectOf db' sub key = effectOf db sub key := by
  unfold effectOf roleEffect
  rw [hover, hmember]
  cases hslug : db.userOrgRoles.find? sub with
  | none => rfl
  | some slug => rw [Option.bind_some, Option.bind_some, hrole slug hslug]

theorem writeUserPermission_ok {sub : Uuid} {entry : JsString × Json}
    (h : writeUserPermission sub db entry = .ok db') : ∃ effect,
      db'.userPermissionOverrides =
        writeOptional db.userPermissionOverrides (sub, entry.1) effect := by
  unfold writeUserPermission at h
  rw [bind_eq_ok] at h
  obtain ⟨effect, -, h⟩ := h
  exact ⟨effect, Except.ok.inj h ▸ rfl⟩

theorem writeRolePermission_ok {slug : Slug} {entry : JsString × Json}
    (h : writeRolePermission slug db entry = .ok db') : ∃ effect,
      db'.rolePermissions = writeOptional db.rolePermissions (slug, entry.1) effect := by
  unfold writeRolePermission at h
  rw [bind_eq_ok] at h
  obtain ⟨effect, -, h⟩ := h
  exact ⟨effect, Except.ok.inj h ▸ rfl⟩

/-- What the checks of a change without an org role have established. -/
theorem checkUserAccess_permissions {change : UserChange}
    (hrole : Json.member? changes (js "org_role") = none)
    (h : checkUserAccess db actorSub targetSub changes = .ok change) : change.orgRole = none ∧
      CheckedPermissions db actorSub "org.users.edit.permissions.acctPortal" change.permissions := by
  have htext : textMember changes "org_role" = none := by rw [textMember, hrole]
  unfold checkUserAccess at h
  simp only [bind_eq_ok, htext] at h
  obtain ⟨actor, hactor, target, -, permissions, -, appRoles, -, -, -, -, -, u, hedit, -, -, orgSlug,
    horg, u', hpermissions, appValues, -, -, -, h⟩ := h
  simp only [Except.ok.injEq] at h
  subst h
  refine ⟨(Except.ok.inj horg).symm, checkedPermissions hactor (fun hsome => ?_) hpermissions⟩
  exact onlyIf_eq_ok.mp hedit (by simpa using hsome)

/-- A committed change without an org role decides alike what it does not name. -/
theorem applyUserAccess_permissions (hrole : Json.member? changes (js "org_role") = none)
    (h : applyUserAccess env db actorSub targetSub changes action = .ok db') :
    ∃ permissions target, CheckedPermissions db actorSub
        "org.users.edit.permissions.acctPortal" permissions ∧
      ∀ sub key, (sub ≠ target ∨ ∀ entry ∈ permissions, entry.1 ≠ key) →
        effectOf db' sub key = effectOf db sub key := by
  unfold applyUserAccess at h
  simp only [bind_eq_ok] at h
  obtain ⟨change, hchange, written, hwritten, published, hpublished, haudit⟩ := h
  obtain ⟨horg, hchecked⟩ := checkUserAccess_permissions hrole hchange
  refine ⟨change.permissions, change.target.sub, hchecked, fun sub key hkey => ?_⟩
  unfold writeUserAccess at hwritten
  simp only [horg, bind_eq_ok, Except.ok.injEq] at hwritten
  obtain ⟨permitted, hpermitted, rfl⟩ := hwritten
  have hnamed := writePermissions_unnamed (fun _ _ _ => writeUserPermission_ok) hpermitted hkey
  obtain ⟨overrides, hpermissions, -⟩ := writeUserPermissions_ok hpermitted
  obtain ⟨log, rfl⟩ := writeAudit_ok haudit
  have htables := (publishIf_unpublished hpublished).tables
  rw [writeOverride_foldl, hpermissions] at htables
  rw [hpermissions] at hnamed
  apply effectOf_congr
  · rw [htables]
  · intro slug _
    rw [htables]
  · rw [htables]
    exact hnamed

theorem withinGrants_of_effects (reached : Uuid → Prop) {permissions : Members} {edit : String}
    (hchecked : CheckedPermissions db actorSub edit permissions)
    (hsame : ∀ sub key, (¬ reached sub ∨ ∀ entry ∈ permissions, entry.1 ≠ key) →
      effectOf db' sub key = effectOf db sub key) : WithinGrants db db' actorSub edit := by
  intro sub key hchanged
  have hnamed : ∃ entry ∈ permissions, entry.1 = key := by
    by_contra hnone
    push Not at hnone
    exact hchanged (grants_congr (hsame sub key (.inr hnone)))
  obtain ⟨entry, hentry, rfl⟩ := hnamed
  exact ⟨hchecked.held entry hentry, hchecked.edit (List.ne_nil_of_mem hentry)⟩

theorem applyUserAccess_withinGrants (hrole : Json.member? changes (js "org_role") = none)
    (h : applyUserAccess env db actorSub targetSub changes action = .ok db') :
    WithinGrants db db' actorSub "org.users.edit.permissions.acctPortal" := by
  obtain ⟨permissions, target, hchecked, hsame⟩ := applyUserAccess_permissions hrole h
  exact withinGrants_of_effects (fun sub => sub = target) hchecked hsame

end Users

section Roles

variable {env : Surroundings} {db db' : Db} {actorSub slug : JsString} {changes : Members}
  {action : JsString}

theorem checkRoleAccess_permissions {change : RoleChange}
    (h : checkRoleAccess db actorSub slug changes = .ok change) :
    CheckedPermissions db actorSub "org.roles.edit.permissions.acctPortal" change.permissions := by
  unfold checkRoleAccess at h
  simp only [bind_eq_ok] at h
  obtain ⟨actor, hactor, role, -, permissions, -, defaults, -, -, -, -, -, u, hedit, -, -, u',
    hpermissions, appValues, -, h⟩ := h
  simp only [Except.ok.injEq] at h
  subst h
  refine checkedPermissions hactor (fun hsome => ?_) hpermissions
  exact onlyIf_eq_ok.mp hedit (by simpa using hsome)

theorem writeRolePermissions_ok {slug : Slug} {entries : Members} {db db' : Db}
    (h : entries.foldlM (writeRolePermission slug) db = .ok db') :
    ∃ permissions, db' = { db with rolePermissions := permissions } := by
  refine foldlM_preserves (fun t => ∃ permissions, t = { db with rolePermissions := permissions })
    ?_ h ⟨_, rfl⟩
  rintro entry - s t ⟨permissions, rfl⟩ hst
  unfold writeRolePermission at hst
  rw [bind_eq_ok] at hst
  obtain ⟨effect, -, hst⟩ := hst
  exact ⟨_, (Except.ok.inj hst).symm⟩

/-- A committed change of an org role decides alike, for everybody, what it does not name. -/
theorem applyRoleAccess_permissions
    (h : applyRoleAccess env db actorSub slug changes action = .ok db') :
    ∃ permissions stored, CheckedPermissions db actorSub
        "org.roles.edit.permissions.acctPortal" permissions ∧
      ∀ sub key, (db.userOrgRoles.find? sub ≠ some stored ∨ ∀ entry ∈ permissions, entry.1 ≠ key) →
        effectOf db' sub key = effectOf db sub key := by
  unfold applyRoleAccess at h
  simp only [bind_eq_ok] at h
  obtain ⟨change, hchange, written, hwritten, published, hpublished, haudit⟩ := h
  refine ⟨change.permissions, change.slug, checkRoleAccess_permissions hchange,
    fun sub key hkey => ?_⟩
  unfold writeRoleAccess at hwritten
  simp only [bind_eq_ok, Except.ok.injEq] at hwritten
  obtain ⟨permitted, hpermitted, rfl⟩ := hwritten
  obtain ⟨permissions, hpermissions⟩ := writeRolePermissions_ok hpermitted
  obtain ⟨log, rfl⟩ := writeAudit_ok haudit
  have htables := (publishIf_unpublished hpublished).tables
  rw [writeDefault_foldl, hpermissions] at htables
  apply effectOf_congr
  · rw [htables]
  · intro held hheld
    have hunnamed : held ≠ change.slug ∨ ∀ entry ∈ change.permissions, entry.1 ≠ key := by
      refine hkey.imp_left fun hother heq => hother ?_
      rw [hheld, heq]
    have hnamed := writePermissions_unnamed (fun _ _ _ => writeRolePermission_ok) hpermitted hunnamed
    rw [hpermissions] at hnamed
    rw [htables]
    exact hnamed
  · rw [htables]

theorem applyRoleAccess_withinGrants
    (h : applyRoleAccess env db actorSub slug changes action = .ok db') :
    WithinGrants db db' actorSub "org.roles.edit.permissions.acctPortal" := by
  obtain ⟨permissions, stored, hchecked, hsame⟩ := applyRoleAccess_permissions h
  exact withinGrants_of_effects (fun sub => db.userOrgRoles.find? sub = some stored) hchecked hsame

end Roles

section Refusals

variable {env : Surroundings} {db : Db} {actor : Actor} {failure : Failure}

theorem storedEffect_failure {value : Json} (h : storedEffect value = .error failure) :
    failure.internal = true := by
  unfold storedEffect at h
  split_ifs at h
  cases h
  rfl

theorem publishIf_failure {needed : Bool} {clientIds : List ClientId}
    {subjects : Option (List Uuid)} (h : publishIf needed env db clientIds subjects = .error failure) :
    failure.internal = true := by
  unfold publishIf at h
  split at h
  · cases hpublish : publishRoleChanges env db clientIds subjects .default with
    | error e =>
      rw [hpublish] at h
      cases h
      exact publishClients_failure hpublish
    | ok result =>
      rw [hpublish] at h
      cases h
  · cases h

theorem writeAudit_failure {action : JsString} {detail : List (String × Json)}
    {target : Option (Uuid × JsString)}
    (h : writeAudit db actor action detail target = .error failure) : failure.internal = true := by
  unfold writeAudit at h
  split at h
  · cases h
  · cases h
    rfl

theorem writeUserAccess_failure {change : UserChange}
    (h : writeUserAccess db change = .error failure) : failure.internal = true := by
  unfold writeUserAccess at h
  simp only [bind_eq_error, reduceCtorEq, and_false, exists_false, or_false] at h
  obtain ⟨entry, -, t, ht⟩ := foldlM_eq_error h
  simp only [writeUserPermission, bind_eq_error, reduceCtorEq, and_false, exists_false,
    or_false] at ht
  exact storedEffect_failure ht

theorem writeRoleAccess_failure {change : RoleChange}
    (h : writeRoleAccess db change = .error failure) : failure.internal = true := by
  unfold writeRoleAccess at h
  simp only [bind_eq_error, reduceCtorEq, and_false, exists_false, or_false] at h
  obtain ⟨entry, -, t, ht⟩ := foldlM_eq_error h
  simp only [writeRolePermission, bind_eq_error, reduceCtorEq, and_false, exists_false,
    or_false] at ht
  exact storedEffect_failure ht

/-- What is refused is refused by the checks, before the first write. -/
theorem applyUserAccess_refused {actorSub targetSub : JsString} {changes : Members}
    {action : JsString} {status : ℕ} {body : Json}
    (h : applyUserAccess env db actorSub targetSub changes action =
      .error (.roleAccess status body)) :
    checkUserAccess db actorSub targetSub changes = .error (.roleAccess status body) := by
  unfold applyUserAccess at h
  simp only [bind_eq_error] at h
  rcases h with hcheck | ⟨change, -, hwrite | ⟨written, -, hpublish | ⟨published, -, haudit⟩⟩⟩
  · exact hcheck
  · cases writeUserAccess_failure hwrite
  · cases publishIf_failure hpublish
  · cases writeAudit_failure haudit

theorem applyRoleAccess_refused {actorSub slug : JsString} {changes : Members}
    {action : JsString} {status : ℕ} {body : Json}
    (h : applyRoleAccess env db actorSub slug changes action =
      .error (.roleAccess status body)) :
    checkRoleAccess db actorSub slug changes = .error (.roleAccess status body) := by
  unfold applyRoleAccess at h
  simp only [bind_eq_error] at h
  rcases h with hcheck | ⟨change, -, hwrite | ⟨written, -, hpublish | ⟨published, -, haudit⟩⟩⟩
  · exact hcheck
  · cases writeRoleAccess_failure hwrite
  · cases publishIf_failure hpublish
  · cases writeAudit_failure haudit

end Refusals

theorem withRoleTransaction_failed {db : Db} {work : Db → Except Failure Db} {failure : Failure}
    (h : work db = .error failure) : withRoleTransaction db work = db := by
  rw [withRoleTransaction, h]

/-- Whoever's permissions a committed change of a user, or of an org role, alters in either
direction: the caller holds the permission, or it is the one that nobody privileged holds, and
he may edit permissions of this kind. A refusal comes from the checks and leaves all tables
as they are. -/
theorem permission_ceiling :
    (∀ (env : Surroundings) (db db' : Db) (actorSub targetSub : JsString) (changes : Members)
      (action : JsString), Json.member? changes (js "org_role") = none →
      applyUserAccess env db actorSub targetSub changes action = .ok db' →
        WithinGrants db db' actorSub "org.users.edit.permissions.acctPortal") ∧
    (∀ (env : Surroundings) (db db' : Db) (actorSub slug : JsString) (changes : Members)
      (action : JsString), applyRoleAccess env db actorSub slug changes action = .ok db' →
        WithinGrants db db' actorSub "org.roles.edit.permissions.acctPortal") ∧
    (∀ (env : Surroundings) (db : Db) (actorSub targetSub : JsString) (changes : Members)
      (action : JsString) (status : ℕ) (body : Json),
      applyUserAccess env db actorSub targetSub changes action = .error (.roleAccess status body) →
        checkUserAccess db actorSub targetSub changes = .error (.roleAccess status body) ∧
        withRoleTransaction db (fun db =>
          applyUserAccess env db actorSub targetSub changes action) = db) ∧
    ∀ (env : Surroundings) (db : Db) (actorSub slug : JsString) (changes : Members)
      (action : JsString) (status : ℕ) (body : Json),
      applyRoleAccess env db actorSub slug changes action = .error (.roleAccess status body) →
        checkRoleAccess db actorSub slug changes = .error (.roleAccess status body) ∧
        withRoleTransaction db (fun db => applyRoleAccess env db actorSub slug changes action) =
          db := by
  refine ⟨?_, ?_, ?_, ?_⟩
  · intro env db db' actorSub targetSub changes action hrole h
    exact applyUserAccess_withinGrants hrole h
  · intro env db db' actorSub slug changes action h
    exact applyRoleAccess_withinGrants h
  · intro env db actorSub targetSub changes action status body h
    exact ⟨applyUserAccess_refused h, withRoleTransaction_failed h⟩
  · intro env db actorSub slug changes action status body h
    exact ⟨applyRoleAccess_refused h, withRoleTransaction_failed h⟩

def permits (effect : String) : Members :=
  [(js "permissions", .obj [(js "org.users.edit.permissions.acctPortal", .str (js effect))])]

/-- The administrator grants the user one of his own permissions. -/
def permitted : Db := withRoleTransaction (staffDb true) fun db => applyUserAccess
  sampleSurroundings db (Uuid.numbered 1).text (Uuid.numbered 2).text (permits "grant")
    (js "user.access_change")

theorem permitted_committed : applyUserAccess sampleSurroundings (staffDb true)
    (Uuid.numbered 1).text (Uuid.numbered 2).text (permits "grant") (js "user.access_change") =
      .ok permitted := by
  refine @withRoleTransaction_committed (staffDb true) (fun db => applyUserAccess
    sampleSurroundings db (Uuid.numbered 1).text (Uuid.numbered 2).text (permits "grant")
    (js "user.access_change")) ?_
  decide +kernel

/-- The failure of a call, as it can be computed. -/
def failureOf : Except Failure Db → Option Failure
  | .error failure => some failure
  | .ok _ => none

theorem eq_error_of_failureOf {x : Except Failure Db} {failure : Failure}
    (h : failureOf x = some failure) : x = .error failure := by
  cases x with
  | error e => rw [Option.some.inj h]
  | ok db => cases h

theorem permission_ceiling_granted :
    Grants permitted (Uuid.numbered 2) (js "org.users.edit.permissions.acctPortal") ∧
      Holds (staffDb true) (Uuid.numbered 1).text (js "org.users.edit.permissions.acctPortal") ∧
      withRoleTransaction (staffDb true) (fun db => applyRoleAccess sampleSurroundings db
        (Uuid.numbered 1).text (js "staff") (permits "deny") (js "role.access_change")) =
          staffDb true := by
  have hafter : Grants permitted (Uuid.numbered 2) (js "org.users.edit.permissions.acctPortal") := by
    unfold Grants
    decide +kernel
  have hbefore : ¬ Grants (staffDb true) (Uuid.numbered 2)
      (js "org.users.edit.permissions.acctPortal") := by
    unfold Grants
    decide +kernel
  have hwithin := permission_ceiling.1 sampleSurroundings (staffDb true) permitted
    (Uuid.numbered 1).text (Uuid.numbered 2).text (permits "grant") (js "user.access_change") rfl
    permitted_committed
  refine ⟨hafter, (hwithin (Uuid.numbered 2) _ fun hiff => hbefore (hiff.mp hafter)).2, ?_⟩
  -- the administrator may not edit permissions of org roles
  exact (permission_ceiling.2.2.2 sampleSurroundings (staffDb true) (Uuid.numbered 1).text
    (js "staff") (permits "deny") (js "role.access_change") 403
    (Json.ofObject [("error", Json.text "permission_denied"),
      ("permission", Json.text "org.roles.edit.permissions.acctPortal")])
    (eq_error_of_failureOf (by decide +kernel))).2

end DreamSso
