import DreamSso.RoleReferences

/-!
Roles a catalog removes. Their holders follow the catalog's default when it is
less privileged than the removed role and are denied otherwise; only the root
org roles are granted something, the most privileged role of the catalog.
-/
namespace DreamSso

open JsStrings JsonValues KeyedTables StoredJson Fallible

/-- What the value of a row of the client becomes when the catalog is applied:
`inherited` is the catalog's default, compared by its new level. -/
inductive Migrates (appRoles : Table (ClientId × ℤ) AppRole) (clientId : ClientId)
    (catalog : RoleCatalog) : Option ℤ → Option ℤ → Prop
  | denied : Migrates appRoles clientId catalog none none
  | kept {id : ℤ} (hlisted : catalog.has id = true) :
      Migrates appRoles clientId catalog (some id) (some id)
  | inherited {id : ℤ} {removed : AppRole} {role : CatalogRole}
      (hremoved : catalog.has id = false) (hstored : appRoles.find? (clientId, id) = some removed)
      (hdefault : catalog.defaultRole = some role.roleId) (hrole : role ∈ catalog.roles)
      (hlevel : removed.level < role.level) :
      Migrates appRoles clientId catalog (some id) (some role.roleId)
  | withdrawn {id : ℤ} {removed : AppRole} (hremoved : catalog.has id = false)
      (hstored : appRoles.find? (clientId, id) = some removed)
      (hoffer : ∀ role ∈ catalog.roles, catalog.defaultRole = some role.roleId →
        role.level ≤ removed.level) :
      Migrates appRoles clientId catalog (some id) none

/-- The same rows before and after, each with its migrated value. -/
def RowMigrates (appRoles : Table (ClientId × ℤ) AppRole) (clientId : ClientId)
    (catalog : RoleCatalog) (old new : Option (Option ℤ)) : Prop :=
  Option.Rel (Migrates appRoles clientId catalog) old new

def RootRole (db : Db) (slug : Slug) : Prop :=
  ∃ role, db.orgRoles.find? slug = some role ∧ role.level = 0

/-- No other role of the catalog has a smaller level, or the same with a smaller id. -/
def MostPrivileged (catalog : RoleCatalog) (top : CatalogRole) : Prop :=
  top ∈ catalog.roles ∧ ∀ role ∈ catalog.roles,
    top.level < role.level ∨ (top.level = role.level ∧ top.roleId ≤ role.roleId)

/-- A row with NULL decides for the user, other than the org default of a root role. -/
def ExplicitlyDenied (db : Db) (clientId : ClientId) (sub : Uuid) : Prop :=
  db.userAppRoleOverrides.find? (sub, clientId) = some none ∨
    (db.userAppRoleOverrides.find? (sub, clientId) = none ∧
      ∃ slug, db.userOrgRoles.find? sub = some slug ∧ ¬ RootRole db slug ∧
        db.orgRoleAppDefaults.find? (slug, clientId) = some none)

section Values

variable {db : Db} {clientId : ClientId} {catalog : RoleCatalog}

theorem CatalogRole.eq_of_roleId {role other : CatalogRole} (hrole : role ∈ catalog.roles)
    (hother : other ∈ catalog.roles) (hid : role.roleId = other.roleId) : role = other := by
  have hdistinct : (catalog.roles.map CatalogRole.roleId).Nodup :=
    (List.pairwise_map.mpr catalog.sorted).imp fun hlt => ne_of_lt hlt
  exact List.inj_on_of_nodup_map hdistinct hrole hother hid

theorem mem_storedRoles_row {role : CatalogRole} (h : role ∈ storedRoles db clientId) :
    db.appRoles.find? (clientId, role.roleId) = some role.row := by
  rw [storedRoles, mem_sortRoles, List.mem_map] at h
  obtain ⟨⟨⟨other, id⟩, row⟩, hrow, rfl⟩ := h
  obtain ⟨hmem, hclient⟩ := List.mem_filter.mp hrow
  simp only [decide_eq_true_eq] at hclient
  subst hclient
  exact (Table.mem_rows_iff _ _ _).mp hmem

theorem moveTo_some {removed : CatalogRole} {id : ℤ} (h : moveTo catalog removed = some id) :
    ∃ role ∈ catalog.roles, role.roleId = id ∧ catalog.defaultRole = some role.roleId ∧
      removed.level < role.level := by
  unfold moveTo at h
  simp only at h
  split at h
  · next hoffer =>
    rw [h, Option.bind_some, Option.any_map, Option.any_eq_true] at hoffer
    obtain ⟨role, hfound, hlevel⟩ := hoffer
    have hid : role.roleId = id := by simpa using List.find?_some hfound
    refine ⟨role, List.mem_of_find?_eq_some hfound, hid, ?_, by simpa using hlevel⟩
    rw [h, hid]
  · simp at h

theorem moveTo_none {removed : CatalogRole} (h : moveTo catalog removed = none) :
    ∀ role ∈ catalog.roles, catalog.defaultRole = some role.roleId →
      role.level ≤ removed.level := by
  intro role hrole hdefault
  by_contra hlevel
  have hfound : catalog.roles.find? (fun other => decide (other.roleId = role.roleId)) =
      some role := by
    cases hfind : catalog.roles.find? (fun other => decide (other.roleId = role.roleId)) with
    | none => simpa using List.find?_eq_none.mp hfind role hrole
    | some other =>
      have hid : other.roleId = role.roleId := by simpa using List.find?_some hfind
      rw [CatalogRole.eq_of_roleId (List.mem_of_find?_eq_some hfind) hrole hid]
  simp only [moveTo, hdefault, Option.bind_some, hfound, Option.map_some, Option.any_some] at h
  rw [if_pos (by simpa using hlevel)] at h
  simp at h

/-- The value of one row under one UPDATE of the migration. -/
def moveValue (catalog : RoleCatalog) (value : Option ℤ) (removed : CatalogRole) : Option ℤ :=
  if value = some removed.roleId then moveTo catalog removed else value

theorem moveRoles_find {κ : Type} [DecidableEq κ] (removed : List CatalogRole)
    (table : Table (κ × ClientId) (Option ℤ)) (holder : κ) :
    (removed.foldl (fun t role => moveRoles clientId catalog role t) table).find?
      (holder, clientId) = (table.find? (holder, clientId)).map fun value =>
        removed.foldl (moveValue catalog) value := by
  induction removed generalizing table with
  | nil => simp
  | cons role rest ih =>
    rw [List.foldl_cons, ih, moveRoles, Table.find?_updateWhere, Option.map_map]
    congr 1
    funext value
    simp [moveValue]

/-- A value none of the removed roles has stays, so the target of one migration
is never moved by a later one. -/
theorem moveValue_foldl_kept {removed : List CatalogRole} {value : Option ℤ}
    (h : ∀ role ∈ removed, value ≠ some role.roleId) :
    removed.foldl (moveValue catalog) value = value := by
  induction removed with
  | nil => rfl
  | cons role rest ih =>
    rw [List.foldl_cons, moveValue, if_neg (h role List.mem_cons_self)]
    exact ih fun other hother => h other (List.mem_cons_of_mem _ hother)

theorem moveTo_unlisted {removed : List CatalogRole}
    (hremoved : ∀ role ∈ removed, catalog.has role.roleId = false) (from' : CatalogRole) :
    ∀ role ∈ removed, moveTo catalog from' ≠ some role.roleId := by
  intro role hrole hmoved
  obtain ⟨target, -, hid, hdefault, -⟩ := moveTo_some hmoved
  have hlisted := default_has hdefault
  rw [hid, hremoved role hrole] at hlisted
  simp at hlisted

theorem moveValue_foldl_moved {removed : List CatalogRole}
    (hremoved : ∀ role ∈ removed, catalog.has role.roleId = false) {id : ℤ}
    (hid : ∃ role ∈ removed, role.roleId = id) :
    ∃ role ∈ removed, role.roleId = id ∧
      removed.foldl (moveValue catalog) (some id) = moveTo catalog role := by
  induction removed with
  | nil => simp at hid
  | cons first rest ih =>
    have hrest : ∀ role ∈ rest, catalog.has role.roleId = false :=
      fun role hrole => hremoved role (List.mem_cons_of_mem _ hrole)
    by_cases hfirst : first.roleId = id
    · refine ⟨first, List.mem_cons_self, hfirst, ?_⟩
      rw [List.foldl_cons, moveValue, if_pos (by rw [hfirst])]
      exact moveValue_foldl_kept (moveTo_unlisted hrest first)
    · have hlater : ∃ role ∈ rest, role.roleId = id := by
        obtain ⟨role, hrole, hroleId⟩ := hid
        rcases List.mem_cons.mp hrole with rfl | hrole
        · exact (hfirst hroleId).elim
        · exact ⟨role, hrole, hroleId⟩
      obtain ⟨role, hrole, hroleId, hmoved⟩ := ih hrest hlater
      refine ⟨role, List.mem_cons_of_mem _ hrole, hroleId, ?_⟩
      rw [List.foldl_cons, moveValue, if_neg (by simpa using Ne.symm hfirst)]
      exact hmoved

/-- The roles of the client the catalog does not list. -/
def removedRoles (db : Db) (clientId : ClientId) (catalog : RoleCatalog) : List CatalogRole :=
  (storedRoles db clientId).filter fun role => !catalog.has role.roleId

theorem removedRoles_unlisted {role : CatalogRole} (h : role ∈ removedRoles db clientId catalog) :
    catalog.has role.roleId = false := by
  simpa using (List.mem_filter.mp h).2

/-- A whole layer after the migration, row by row. -/
theorem moveRoles_migrates {κ : Type} [DecidableEq κ]
    {table : Table (κ × ClientId) (Option ℤ)}
    (hstored : ∀ holder id, table.find? (holder, clientId) = some (some id) →
      db.appRoles.contains (clientId, id) = true) (holder : κ) :
    RowMigrates db.appRoles clientId catalog (table.find? (holder, clientId))
      (((removedRoles db clientId catalog).foldl (fun t role => moveRoles clientId catalog role t)
        table).find? (holder, clientId)) := by
  rw [moveRoles_find]
  cases hold : table.find? (holder, clientId) with
  | none => exact .none
  | some value =>
    rw [Option.map_some]
    apply Option.Rel.some
    cases value with
    | none =>
      rw [moveValue_foldl_kept (by simp)]
      exact .denied
    | some id =>
      by_cases hlisted : catalog.has id = true
      · rw [moveValue_foldl_kept]
        · exact .kept hlisted
        · intro role hrole hsame
          rw [Option.some.inj hsame, removedRoles_unlisted hrole] at hlisted
          simp at hlisted
      · have hgone : catalog.has id = false := by simpa using hlisted
        have hid : ∃ role ∈ removedRoles db clientId catalog, role.roleId = id := by
          obtain ⟨role, hrole, rfl⟩ := mem_storedRoles (hstored holder id hold)
          exact ⟨role, List.mem_filter.mpr ⟨hrole, by simp [hgone]⟩, rfl⟩
        obtain ⟨removed, hremoved, rfl, hmoved⟩ :=
          moveValue_foldl_moved (fun role hrole => removedRoles_unlisted hrole) hid
        have hrow := mem_storedRoles_row (List.mem_filter.mp hremoved).1
        rw [hmoved]
        cases htarget : moveTo catalog removed with
        | none => exact .withdrawn hgone hrow (moveTo_none htarget)
        | some target =>
          obtain ⟨role, hrole, rfl, hdefault, hlevel⟩ := moveTo_some htarget
          exact .inherited hgone hrow hdefault hrole hlevel

end Values

section Roots

variable {clientId : ClientId} {catalog : RoleCatalog}

/-- One step of the search for the most privileged role. -/
def betterRole (best : Option CatalogRole) (role : CatalogRole) : Option CatalogRole :=
  match best with
  | none => some role
  | some top =>
      if role.level < top.level ∨ (role.level = top.level ∧ role.roleId < top.roleId) then some role
      else some top

theorem topRole_eq (roles : List CatalogRole) : topRole roles = roles.foldl betterRole none := rfl

def AtLeast (top role : CatalogRole) : Prop :=
  top.level < role.level ∨ (top.level = role.level ∧ top.roleId ≤ role.roleId)

theorem betterRole_some (top role : CatalogRole) :
    ∃ next, betterRole (some top) role = some next ∧ AtLeast next top ∧ AtLeast next role := by
  unfold betterRole AtLeast
  simp only
  split
  · next hbetter => exact ⟨role, rfl, by omega, by omega⟩
  · next hworse => exact ⟨top, rfl, by omega, by omega⟩

theorem betterRole_foldl (roles : List CatalogRole) (top : CatalogRole) :
    ∃ next, roles.foldl betterRole (some top) = some next ∧ AtLeast next top ∧
      ∀ role ∈ roles, AtLeast next role := by
  induction roles generalizing top with
  | nil => exact ⟨top, rfl, .inr ⟨rfl, le_refl _⟩, by simp⟩
  | cons role rest ih =>
    obtain ⟨better, hbetter, htop, hrole⟩ := betterRole_some top role
    obtain ⟨next, hnext, hleast, hothers⟩ := ih better
    refine ⟨next, by rw [List.foldl_cons, hbetter, hnext], ?_, ?_⟩
    · unfold AtLeast at *
      omega
    · intro other hother
      rcases List.mem_cons.mp hother with rfl | hother
      · unfold AtLeast at *
        omega
      · exact hothers other hother

theorem topRole_least {roles : List CatalogRole} {top : CatalogRole}
    (h : topRole roles = some top) : ∀ role ∈ roles, AtLeast top role := by
  cases roles with
  | nil => simp
  | cons first rest =>
    obtain ⟨next, hnext, hfirst, hothers⟩ := betterRole_foldl rest first
    rw [topRole_eq, List.foldl_cons, betterRole, hnext, Option.some.injEq] at h
    subst h
    intro role hrole
    rcases List.mem_cons.mp hrole with rfl | hrole
    · exact hfirst
    · exact hothers role hrole

theorem topRole_mostPrivileged {top : CatalogRole} (h : topRole catalog.roles = some top) :
    MostPrivileged catalog top := ⟨topRole_mem h, topRole_least h⟩

theorem MostPrivileged.unique {top other : CatalogRole} (htop : MostPrivileged catalog top)
    (hother : MostPrivileged catalog other) : top = other := by
  have hle := htop.2 other hother.1
  have hge := hother.2 top htop.1
  exact CatalogRole.eq_of_roleId htop.1 hother.1 (by omega)

theorem topRole_of_mostPrivileged {top : CatalogRole} (h : MostPrivileged catalog top) :
    topRole catalog.roles = some top := by
  cases hroles : catalog.roles with
  | nil =>
    have hmem := h.1
    rw [hroles] at hmem
    simp at hmem
  | cons first rest =>
    obtain ⟨next, hnext, -⟩ := betterRole_foldl rest first
    have hfound : topRole catalog.roles = some next := by
      rw [hroles, topRole_eq, List.foldl_cons, betterRole, hnext]
    rw [← hroles, hfound, (topRole_mostPrivileged hfound).unique h]

/-- The upsert for the root roles changes their rows of the client and no other. -/
theorem rootDefaults_find (clientId : ClientId) (roleId : ℤ) (db : Db) (slug : Slug) :
    (rootDefaults clientId roleId db).find? (slug, clientId) = some (some roleId) ∧
        RootRole db slug ∨
      (rootDefaults clientId roleId db).find? (slug, clientId) =
        db.orgRoleAppDefaults.find? (slug, clientId) ∧ ¬ RootRole db slug := by
  have hroot : RootRole db slug ↔ slug ∈ (db.orgRoles.rows.filter fun row =>
      decide (row.2.level = 0)).map Prod.fst := by
    simp [RootRole, List.mem_map, List.mem_filter, Table.mem_rows_iff]
  rw [hroot, rootDefaults]
  generalize db.orgRoles.rows.filter (fun row => decide (row.2.level = 0)) = rows
  generalize db.orgRoleAppDefaults = table
  induction rows generalizing table with
  | nil => simp
  | cons row rest ih =>
    rw [List.foldl_cons]
    rcases ih (table.upsert (row.1, clientId) (some roleId)) with ⟨hset, hlater⟩ | ⟨hkept, hnot⟩
    · exact .inl ⟨hset, by rw [List.map_cons]; exact List.mem_cons_of_mem _ hlater⟩
    · rw [hkept, Table.find?_upsert]
      by_cases hslug : slug = row.1
      · left
        simp [hslug]
      · right
        refine ⟨if_neg (by simp [hslug]), ?_⟩
        rw [List.map_cons, List.mem_cons, not_or]
        exact ⟨hslug, hnot⟩

end Roots

/-- What an applied catalog does to the two layers. -/
structure RemovalOutcome (db db' : Db) (clientId : ClientId) (catalog : RoleCatalog) : Prop where
  overrides : ∀ sub, RowMigrates db.appRoles clientId catalog
    (db.userAppRoleOverrides.find? (sub, clientId)) (db'.userAppRoleOverrides.find? (sub, clientId))
  defaults : ∀ slug, ¬ RootRole db slug ∨ catalog.roles = [] →
    RowMigrates db.appRoles clientId catalog (db.orgRoleAppDefaults.find? (slug, clientId))
      (db'.orgRoleAppDefaults.find? (slug, clientId))
  roots : ∀ slug top, RootRole db slug → MostPrivileged catalog top →
    db'.orgRoleAppDefaults.find? (slug, clientId) = some (some top.roleId)
  otherOverrides : ClientsKept clientId db.userAppRoleOverrides db'.userAppRoleOverrides
  otherDefaults : ClientsKept clientId db.orgRoleAppDefaults db'.orgRoleAppDefaults

section Outcome

variable {env : Surroundings} {sha256 : JsString → Digest} {clientId : ClientId} {iat : ℤ}
  {catalog : RoleCatalog} {db db' : Db}

theorem RemovalOutcome.congr {published : Db} (h : RemovalOutcome db db' clientId catalog)
    (htables : published.toRoleTables = db'.toRoleTables) :
    RemovalOutcome db published clientId catalog := by
  constructor
  · rw [htables]
    exact h.overrides
  · rw [htables]
    exact h.defaults
  · rw [htables]
    exact h.roots
  · rw [htables]
    exact h.otherOverrides
  · rw [htables]
    exact h.otherDefaults

theorem topRole_none {roles : List CatalogRole} (h : topRole roles = none) : roles = [] := by
  cases roles with
  | nil => rfl
  | cons first rest =>
    obtain ⟨next, hnext, -⟩ := betterRole_foldl rest first
    rw [topRole_eq, List.foldl_cons, betterRole, hnext] at h
    simp at h

/-- The tables before the root roles are granted the top role. -/
theorem storedCatalog_outcome
    (hoverrides : ∀ sub id, db.userAppRoleOverrides.find? (sub, clientId) = some (some id) →
      db.appRoles.contains (clientId, id) = true)
    (hdefaults : ∀ slug id, db.orgRoleAppDefaults.find? (slug, clientId) = some (some id) →
      db.appRoles.contains (clientId, id) = true) {stored : Db}
    (hstored : stored = storeCatalog sha256 clientId iat catalog
      ((removedRoles db clientId catalog).foldl (moveHolders clientId catalog) db)) :
    stored.orgRoles = db.orgRoles ∧
      (∀ sub, RowMigrates db.appRoles clientId catalog
        (db.userAppRoleOverrides.find? (sub, clientId))
        (stored.userAppRoleOverrides.find? (sub, clientId))) ∧
      (∀ slug, RowMigrates db.appRoles clientId catalog
        (db.orgRoleAppDefaults.find? (slug, clientId))
        (stored.orgRoleAppDefaults.find? (slug, clientId))) ∧
      ClientsKept clientId db.userAppRoleOverrides stored.userAppRoleOverrides ∧
      ClientsKept clientId db.orgRoleAppDefaults stored.orgRoleAppDefaults := by
  subst hstored
  rw [moveHolders_foldl]
  exact ⟨rfl, moveRoles_migrates hoverrides, moveRoles_migrates hdefaults,
    moveRoles_kept clientId catalog _ _, moveRoles_kept clientId catalog _ _⟩

theorem replaceCatalog_outcome
    (hoverrides : ∀ sub id, db.userAppRoleOverrides.find? (sub, clientId) = some (some id) →
      db.appRoles.contains (clientId, id) = true)
    (hdefaults : ∀ slug id, db.orgRoleAppDefaults.find? (slug, clientId) = some (some id) →
      db.appRoles.contains (clientId, id) = true) :
    RemovalOutcome db (replaceCatalog sha256 db clientId iat catalog).2 clientId catalog := by
  obtain ⟨stored, hstored⟩ : ∃ stored, stored = storeCatalog sha256 clientId iat catalog
    ((removedRoles db clientId catalog).foldl (moveHolders clientId catalog) db) := ⟨_, rfl⟩
  obtain ⟨horg, hover, hmoved, hkeptOver, hkept⟩ :=
    storedCatalog_outcome hoverrides hdefaults hstored
  have hroots : ∀ slug, RootRole stored slug ↔ RootRole db slug := by
    simp [RootRole, horg]
  have hreplaced : (replaceCatalog sha256 db clientId iat catalog).2 =
      (grantTop clientId catalog stored).2 := by
    rw [hstored]
    rfl
  rw [hreplaced, grantTop]
  cases htop : topRole catalog.roles with
  | none =>
    have hempty := topRole_none htop
    refine ⟨hover, fun slug _ => hmoved slug, ?_, hkeptOver, hkept⟩
    intro slug top _ hprivileged
    rw [MostPrivileged, hempty] at hprivileged
    simp at hprivileged
  | some top =>
    refine ⟨hover, ?_, ?_, hkeptOver, hkept.trans (rootDefaults_kept clientId top.roleId stored)⟩
    · intro slug hslug
      have hnot : ¬ RootRole db slug := by
        rcases hslug with hnot | hempty
        · exact hnot
        · rw [hempty] at htop
          simp [topRole] at htop
      rcases rootDefaults_find clientId top.roleId stored slug with ⟨-, hroot⟩ | ⟨hsame, -⟩
      · exact (hnot ((hroots slug).mp hroot)).elim
      · simp only [grantRoot, hsame]
        exact hmoved slug
    · intro slug other hroot hprivileged
      rw [topRole_of_mostPrivileged hprivileged, Option.some.injEq] at htop
      rcases rootDefaults_find clientId top.roleId stored slug with ⟨hset, -⟩ | ⟨-, hnot⟩
      · rw [htop]
        exact hset
      · exact (hnot ((hroots slug).mpr hroot)).elim

/-- A denial that decides stays and goes on deciding. -/
theorem RemovalOutcome.denied (h : RemovalOutcome db db' clientId catalog)
    (hmembers : db'.userOrgRoles = db.userOrgRoles) {sub : Uuid}
    (hdenied : ExplicitlyDenied db clientId sub) :
    (effectiveAppRole db' sub clientId).roleId = none := by
  have hoverride := h.overrides sub
  rcases hdenied with hnull | ⟨hnone, slug, hslug, hroot, hnull⟩
  · rw [hnull] at hoverride
    unfold effectiveAppRole
    generalize db'.userAppRoleOverrides.find? (sub, clientId) = new at hoverride
    cases hoverride with
    | some hvalue => cases hvalue; rfl
  · have hdefault := h.defaults slug (.inl hroot)
    rw [hnone] at hoverride
    rw [hnull] at hdefault
    have horg : orgLayer db' sub clientId = db'.orgRoleAppDefaults.find? (slug, clientId) := by
      rw [orgLayer, hmembers, hslug, Option.bind_some]
    unfold effectiveAppRole
    rw [horg]
    generalize db'.userAppRoleOverrides.find? (sub, clientId) = new at hoverride
    generalize db'.orgRoleAppDefaults.find? (slug, clientId) = value at hdefault
    cases hoverride
    cases hdefault with
    | some hvalue => cases hvalue; rfl

theorem accessState_denied {sub : Uuid} (hcatalog : hasAppCatalog db clientId = true)
    (hrole : (effectiveAppRole db sub clientId).roleId = none) :
    (accessState (resolvedRow db clientId sub)).allowed = false := by
  have hraw := (resolvedRow_role hcatalog sub).1
  have hsynced : (resolvedRow db clientId sub).catalogSynced = true := hcatalog
  have hnone : (resolvedRow db clientId sub).roleId = none := hraw.trans hrole
  unfold accessState
  simp only [hsynced, hnone, Bool.and_true, ite_self, Option.isNone_none, if_true, Bool.not_true,
    Bool.false_eq_true, if_false]
  simp

theorem appAccessAllowed_denied {sub : Uuid} (hcatalog : hasAppCatalog db clientId = true)
    (hrole : (effectiveAppRole db sub clientId).roleId = none) :
    appAccessAllowed db clientId sub = false := by
  simp [appAccessAllowed, hcatalog, hrole]

theorem replaceCatalog_members (catalog : RoleCatalog) :
    (replaceCatalog sha256 db clientId iat catalog).2.userOrgRoles = db.userOrgRoles ∧
      hasAppCatalog (replaceCatalog sha256 db clientId iat catalog).2 clientId = true := by
  obtain ⟨overrides, defaults, -, -, heq⟩ := replaceCatalog_eq sha256 db clientId iat catalog
  rw [heq]
  exact ⟨rfl, by simp [hasAppCatalog, storeCatalog, Table.contains]⟩

/-- A removed role never turns into more: rows follow the policy, root roles get
the top role, and whoever was denied by a row of his own is denied still. -/
theorem removal_never_escalates {state : RoleSyncState} {order : CatalogOrder}
    (h : applyCatalog env sha256 db clientId iat catalog state = .ok (order, db'))
    (happlied : order = .apply ∨ (order = .same ∧ forceCurrent state catalog = true))
    (hoverrides : ∀ sub id, db.userAppRoleOverrides.find? (sub, clientId) = some (some id) →
      db.appRoles.contains (clientId, id) = true)
    (hdefaults : ∀ slug id, db.orgRoleAppDefaults.find? (slug, clientId) = some (some id) →
      db.appRoles.contains (clientId, id) = true) :
    RemovalOutcome db db' clientId catalog ∧
      ∀ sub, ExplicitlyDenied db clientId sub →
        (accessState (resolvedRow db' clientId sub)).allowed = false ∧
          appAccessAllowed db' clientId sub = false := by
  rcases (applyCatalog_ok h).2 with ⟨hkept, -⟩ | ⟨-, changed, published, log, hpublish, rfl⟩
  · rcases happlied with rfl | ⟨rfl, hforce⟩
    · simp at hkept
    · simp [hforce] at hkept
  · have htables := (publishClients_unpublished hpublish).tables
    obtain ⟨hmembers, hcatalog⟩ := @replaceCatalog_members sha256 clientId iat db catalog
    have hreplaced := @replaceCatalog_outcome sha256 clientId iat catalog db hoverrides hdefaults
    have houtcome := hreplaced.congr htables
    have hroles : published.userOrgRoles = db.userOrgRoles := by
      rw [htables]
      exact hmembers
    have hsynced : hasAppCatalog published clientId = true := by
      rw [hasAppCatalog, htables]
      exact hcatalog
    refine ⟨⟨houtcome.overrides, houtcome.defaults, houtcome.roots, houtcome.otherOverrides,
      houtcome.otherDefaults⟩, fun sub hdenied => ?_⟩
    have hrole := houtcome.denied hroles hdenied
    exact ⟨accessState_denied hsynced hrole, appAccessAllowed_denied hsynced hrole⟩

end Outcome

def retiringState : RoleSyncState := ⟨.legacy, none, 0, Uuid.numbered 2, 0, Nat.zero_le _⟩

/-- One user holds role 5, another one is denied. -/
def retiringDb : Db :=
  { registeredDb with
    appRoles := (∅ : Table (ClientId × ℤ) AppRole).upsert (js "app", 5) ⟨js "owner", 1, false⟩
    userAppRoleOverrides := ((∅ : Table (Uuid × ClientId) (Option ℤ)).upsert
      (Uuid.numbered 7, js "app") (some 5)).upsert (Uuid.numbered 8, js "app") none }

theorem removal_never_escalates_retiring :
    ∃ db', applyCatalog ⟨0, fun _ => Uuid.numbered 5, fun _ => Uuid.numbered 6, fun s => s⟩ id
        retiringDb (js "app") 0 retiringCatalog retiringState = .ok (.apply, db') ∧
      RemovalOutcome retiringDb db' (js "app") retiringCatalog ∧
      appAccessAllowed db' (js "app") (Uuid.numbered 8) = false := by
  have hok : (applyCatalog ⟨0, fun _ => Uuid.numbered 5, fun _ => Uuid.numbered 6, fun s => s⟩ id
      retiringDb (js "app") 0 retiringCatalog retiringState).toOption.map Prod.fst =
        some .apply := by
    decide +kernel
  cases happly : applyCatalog ⟨0, fun _ => Uuid.numbered 5, fun _ => Uuid.numbered 6, fun s => s⟩ id
      retiringDb (js "app") 0 retiringCatalog retiringState with
  | error failure => simp [happly, Except.toOption] at hok
  | ok result =>
    obtain ⟨order, db'⟩ := result
    simp only [happly, Except.toOption, Option.map_some, Option.some.injEq] at hok
    subst hok
    have hresult := removal_never_escalates happly (.inl rfl)
      (by
        intro sub id hvalue
        simp only [retiringDb, Table.find?_upsert, Prod.mk.injEq, and_true] at hvalue
        split at hvalue
        · simp at hvalue
        · split at hvalue
          · rw [← Option.some.inj (Option.some.inj hvalue)]
            decide +kernel
          · simp at hvalue)
      (by simp [retiringDb, registeredDb, Db.empty])
    exact ⟨db', rfl, hresult.1, (hresult.2 _ (.inl (by decide +kernel))).2⟩

end DreamSso
