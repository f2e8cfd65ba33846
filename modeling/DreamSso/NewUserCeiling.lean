import DreamSso.AppRoleCeiling

/-!
The app roles of a user created by an administrator. The new user inherits what
its org role brings, which an org-role change of an existing user would be checked
for; the creation is not.
-/
namespace DreamSso

open JsStrings JsonValues KeyedTables Fallible

/-- Overrides belong to users that exist. -/
def OverridesOfUsers (db : Db) : Prop :=
  ∀ sub clientId, db.userAppRoleOverrides.contains (sub, clientId) = true →
    db.identities.contains sub = true

/-- The app role an org role brings for every client ranks no higher than the
caller's own. -/
def BringsNoMore (db : Db) (actorSub roleSlug : JsString) : Prop :=
  ∀ slug, param roleSlug = .ok slug → ∀ clientId, hasAppCatalog db clientId = true →
    ceiling db actorSub clientId ≤ appRoleLevel db clientId (orgDefault db (some slug) clientId)

/-- The role of a new user is what its org role brings. -/
theorem createOrgUser_role {env : Surroundings} {db db' : Db} {actorSub : JsString}
    {input : PreparedOrgUser} (hoverrides : OverridesOfUsers db)
    (h : createOrgUser env db actorSub input = .ok db') :
    ∃ sub slug, uuidParam input.sub = .ok sub ∧ param input.roleSlug = .ok slug ∧
      db'.appRoles = db.appRoles ∧ db'.appRoleCatalogs = db.appRoleCatalogs ∧
      ∀ clientId, hasAppCatalog db clientId = true →
        (effectiveAppRole db' sub clientId).roleId = orgDefault db (some slug) clientId := by
  obtain ⟨actor, sub, slug, role, identity, log, -, hsub, hslug, -, -, hnew, -, -, rfl⟩ :=
    createOrgUser_ok h
  refine ⟨sub, slug, hsub, hslug, rfl, rfl, ?_⟩
  intro clientId hcatalog
  obtain ⟨cat, hcat⟩ := (Table.contains_iff _ _).mp hcatalog
  have hnone : db.userAppRoleOverrides.find? (sub, clientId) = none := by
    by_contra hsome
    have hthere := hoverrides sub clientId (Option.isSome_iff_ne_none.mpr hsome)
    simp [Table.contains, hnew] at hthere
  have hinherited := @effectiveAppRole_inherited { db with
    identities := db.identities.upsert sub identity
    userOrgRoles := db.userOrgRoles.upsert sub slug
    orgAuditLog := log } sub clientId cat hcat hnone
  rw [hinherited, Table.find?_upsert_self]
  rfl

/-- A created user is within the ceiling of its creator exactly when the org role
it was created with brings nothing above it. -/
theorem created_user_ceiling (env : Surroundings) (db db' : Db) (actorSub : JsString)
    (input : PreparedOrgUser) (hoverrides : OverridesOfUsers db)
    (h : createOrgUser env db actorSub input = .ok db') :
    (∀ sub, uuidParam input.sub = .ok sub → ∀ clientId, hasAppCatalog db' clientId = true →
      ceiling db actorSub clientId ≤
        appRoleLevel db' clientId (effectiveAppRole db' sub clientId).roleId) ↔
      BringsNoMore db actorSub input.roleSlug := by
  obtain ⟨sub, slug, hsub, hslug, hroles, hcatalogs, heffective⟩ := createOrgUser_role hoverrides h
  have hmanaged : ∀ clientId, hasAppCatalog db' clientId = hasAppCatalog db clientId := by
    intro clientId
    rw [hasAppCatalog, hcatalogs, ← hasAppCatalog]
  have hlevel : ∀ clientId, hasAppCatalog db clientId = true →
      appRoleLevel db' clientId (effectiveAppRole db' sub clientId).roleId =
        appRoleLevel db clientId (orgDefault db (some slug) clientId) := by
    intro clientId hcatalog
    rw [heffective clientId hcatalog, appRoleLevel_congr hroles]
  constructor
  · intro hbelow other hother clientId hcatalog
    obtain rfl : other = slug := Except.ok.inj (hother.symm.trans hslug)
    rw [← hlevel clientId hcatalog]
    exact hbelow sub hsub clientId ((hmanaged clientId).trans hcatalog)
  · intro hbrings other hother clientId hcatalog
    obtain rfl : other = sub := Except.ok.inj (hother.symm.trans hsub)
    rw [hmanaged] at hcatalog
    rw [hlevel clientId hcatalog]
    exact hbrings slug hslug clientId hcatalog

/-- The administrator has no app role himself and may create users. -/
def creatorDb : Db :=
  { staffDb true with
    rolePermissions := ((staffDb true).rolePermissions.upsert
      (js "admin", js "org.users.create") .grant)
    userAppRoleOverrides := ∅ }

def newUser (roleSlug : String) : PreparedOrgUser :=
  ⟨(Uuid.numbered 3).text, js "eve", js "Eve", [], js "hash", js roleSlug⟩

def created (roleSlug : String) : Db := withRoleTransaction creatorDb fun db =>
  createOrgUser sampleSurroundings db (Uuid.numbered 1).text (newUser roleSlug)

theorem created_committed : createOrgUser sampleSurroundings creatorDb (Uuid.numbered 1).text
    (newUser "staff") = .ok (created "staff") := by
  refine @withRoleTransaction_committed creatorDb (fun db => createOrgUser sampleSurroundings db
    (Uuid.numbered 1).text (newUser "staff")) ?_
  decide +kernel

theorem creatorDb_overrides : OverridesOfUsers creatorDb := by
  intro sub clientId hoverride
  simp [creatorDb, Table.contains] at hoverride

/-- The new user has an app role although his creator has none; giving the org
role to an existing user is refused. -/
theorem created_user_above_ceiling :
    ¬∀ (env : Surroundings) (db db' : Db) (actorSub : JsString) (input : PreparedOrgUser),
      OverridesOfUsers db → createOrgUser env db actorSub input = .ok db' →
      ∀ sub, uuidParam input.sub = .ok sub → ∀ clientId, hasAppCatalog db' clientId = true →
        ceiling db actorSub clientId ≤
          appRoleLevel db' clientId (effectiveAppRole db' sub clientId).roleId := by
  intro h
  have hbelow := h sampleSurroundings creatorDb (created "staff") (Uuid.numbered 1).text
    (newUser "staff") creatorDb_overrides created_committed (Uuid.numbered 3) (by decide +kernel)
    (js "app") (by decide +kernel)
  have habove : ¬ceiling creatorDb (Uuid.numbered 1).text (js "app") ≤
      appRoleLevel (created "staff") (js "app")
        (effectiveAppRole (created "staff") (Uuid.numbered 3) (js "app")).roleId := by
    decide +kernel
  exact habove hbelow

theorem created_user_ceiling_staff : ¬BringsNoMore creatorDb (Uuid.numbered 1).text (js "staff") := by
  intro hbrings
  have hbelow := (created_user_ceiling sampleSurroundings creatorDb (created "staff")
    (Uuid.numbered 1).text (newUser "staff") creatorDb_overrides created_committed).mpr hbrings
    (Uuid.numbered 3) (by decide +kernel) (js "app") (by decide +kernel)
  have habove : ¬ceiling creatorDb (Uuid.numbered 1).text (js "app") ≤
      appRoleLevel (created "staff") (js "app")
        (effectiveAppRole (created "staff") (Uuid.numbered 3) (js "app")).roleId := by
    decide +kernel
  exact habove hbelow

end DreamSso
