import DreamSso.CatalogConfluence
import DreamSso.ChainAgreement

/-!
References to app roles. Overrides, org defaults and catalog defaults have no
foreign key on the roles of their client; every writer checks or migrates them
itself, so that they always name a stored role.
-/
namespace DreamSso

open JsStrings JsonValues KeyedTables StoredJson Fallible

/-- The role a row of either layer names is stored for its client. -/
def Names {κ : Type} [DecidableEq κ] (appRoles : Table (ClientId × ℤ) AppRole)
    (table : Table (κ × ClientId) (Option ℤ)) : Prop :=
  ∀ holder clientId id, table.find? (holder, clientId) = some (some id) →
    appRoles.contains (clientId, id) = true

structure NoDangling (db : Db) : Prop where
  overrides : Names db.appRoles db.userAppRoleOverrides
  defaults : Names db.appRoles db.orgRoleAppDefaults
  catalogs : ∀ clientId cat, db.appRoleCatalogs.find? clientId = some cat →
    ∀ id ∈ cat.defaultRoleId, db.appRoles.contains (clientId, id) = true

theorem NoDangling.congr {db db' : Db} (h : NoDangling db)
    (htables : db'.toRoleTables = db.toRoleTables) : NoDangling db' := by
  constructor
  · rw [htables]
    exact h.overrides
  · rw [htables]
    exact h.defaults
  · rw [htables]
    exact h.catalogs

/-- Written values that name stored roles keep the layer free of dangling ones. -/
theorem Names.writeValues {κ : Type} [DecidableEq κ] {appRoles : Table (ClientId × ℤ) AppRole}
    {table : Table (κ × ClientId) (Option ℤ)} (h : Names appRoles table) {holder : κ}
    {entries : List (ClientId × AppValue)}
    (hentries : ∀ entry ∈ entries, ∀ id, entry.2 = .role (some id) →
      appRoles.contains (entry.1, id) = true) :
    Names appRoles (DreamSso.writeValues holder entries table) := by
  intro other clientId id hvalue
  rcases writeValues_find holder entries table (other, clientId) with
    ⟨hsame, -⟩ | ⟨-, value, hmem, hstored⟩
  · rw [hsame] at hvalue
    exact h other clientId id hvalue
  · rw [hstored] at hvalue
    refine hentries (clientId, value) hmem id ?_
    cases value with
    | inherit => simp [AppValue.stored] at hvalue
    | role roleId =>
      rw [AppValue.stored, Option.some.injEq] at hvalue
      rw [hvalue]

theorem unknownRole_stored {db : Db} {clientId : ClientId} {value : AppValue} {id : ℤ}
    (h : unknownRole db clientId value = false) (hvalue : value = .role (some id)) :
    db.appRoles.contains (clientId, id) = true := by
  subst hvalue
  simpa [unknownRole] using h

section Calls

variable {env : Surroundings} {db db' : Db} {actorSub : JsString}

theorem applyUserAccess_noDangling {targetSub : JsString} {changes : Members} {action : JsString}
    (hdb : NoDangling db)
    (h : applyUserAccess env db actorSub targetSub changes action = .ok db') : NoDangling db' := by
  obtain ⟨change, permissions, published, log, hchecked, -, hpublish, rfl⟩ := applyUserAccess_ok h
  have hwritten : NoDangling (change.write db permissions) := by
    refine ⟨hdb.overrides.writeValues ?_, hdb.defaults, hdb.catalogs⟩
    intro entry hentry id hvalue
    obtain ⟨asked, -, hcheck⟩ := mapM_mem_right hchecked.appValues hentry
    exact unknownRole_stored (checkAppRole_ok hcheck).2.1 hvalue
  exact hwritten.congr (publishIf_unpublished hpublish).tables

theorem applyRoleAccess_noDangling {slug : JsString} {changes : Members} {action : JsString}
    (hdb : NoDangling db) (h : applyRoleAccess env db actorSub slug changes action = .ok db') :
    NoDangling db' := by
  obtain ⟨change, permissions, published, log, hchecked, -, hpublish, rfl⟩ := applyRoleAccess_ok h
  have hwritten : NoDangling (change.write db permissions) := by
    refine ⟨hdb.overrides, hdb.defaults.writeValues ?_, hdb.catalogs⟩
    intro entry hentry id hvalue
    obtain ⟨asked, -, hcheck⟩ := mapM_mem_right hchecked.appValues hentry
    exact unknownRole_stored (checkAppDefault_ok hcheck).2.1 hvalue
  exact hwritten.congr (publishIf_unpublished hpublish).tables

/-- The defaults seeded for a new org role are copies. -/
theorem Names.copied {appRoles : Table (ClientId × ℤ) AppRole}
    {table copied : Table (Slug × ClientId) (Option ℤ)} (h : Names appRoles table)
    (hcopied : RowsCopied table copied) : Names appRoles copied := by
  intro slug clientId id hvalue
  obtain ⟨source, hsource⟩ := hcopied slug clientId (some id) hvalue
  exact h source clientId id hsource

theorem Names.deleteWhere {κ : Type} [DecidableEq κ] {appRoles : Table (ClientId × ℤ) AppRole}
    {table : Table (κ × ClientId) (Option ℤ)} (h : Names appRoles table)
    (p : κ × ClientId → Option ℤ → Bool) : Names appRoles (table.deleteWhere p) := by
  intro holder clientId id hvalue
  rw [Table.find?_deleteWhere, Option.filter_eq_some_iff] at hvalue
  exact h holder clientId id hvalue.1

theorem AdminCall.noDangling {call : AdminCall} (hdb : NoDangling db)
    (h : call.run env actorSub db = .ok db') : NoDangling db' := by
  cases call with
  | applyUserAccess targetSub changes action => exact applyUserAccess_noDangling hdb h
  | applyRoleAccess slug changes action => exact applyRoleAccess_noDangling hdb h
  | createOrgRole body =>
    cases hcreate : DreamSso.createOrgRole db actorSub body with
    | error failure => simp [AdminCall.run, hcreate, Except.map] at h
    | ok created =>
      simp only [AdminCall.run, hcreate, Except.map, Except.ok.injEq] at h
      subst h
      obtain ⟨actor, role, permissions, defaults, log, -, -, -, -, -, hcopied, heq⟩ :=
        createOrgRole_ok hcreate
      rw [heq]
      exact ⟨hdb.overrides, hdb.defaults.copied hcopied, hdb.catalogs⟩
  | patchOrgRole slug body =>
    obtain ⟨actor, stored, role, edited, log, -, -, -, -, rfl⟩ := patchOrgRole_ok h
    exact ⟨hdb.overrides, hdb.defaults, hdb.catalogs⟩
  | deleteOrgRole slug =>
    obtain ⟨actor, stored, log, -, -, rfl⟩ := deleteOrgRole_ok h
    exact ⟨hdb.overrides, hdb.defaults.deleteWhere _, hdb.catalogs⟩
  | setDefaultOrgRole slug =>
    obtain ⟨settings, log, rfl⟩ := setDefaultOrgRole_ok h
    exact ⟨hdb.overrides, hdb.defaults, hdb.catalogs⟩
  | createOrgUser input =>
    obtain ⟨actor, sub, slug, role, identity, log, -, -, -, -, -, -, -, -, rfl⟩ :=
      createOrgUser_ok h
    exact ⟨hdb.overrides, hdb.defaults, hdb.catalogs⟩

end Calls

section Incoming

variable {env : Surroundings} {sha256 : JsString → Digest} {clientId : ClientId} {iat : ℤ}
  {db db' : Db}

/-- Holders of removed roles go to the default of the catalog or to no role. -/
theorem moveRoles_value {κ : Type} [DecidableEq κ] {catalog : RoleCatalog}
    (removed : List CatalogRole) {table : Table (κ × ClientId) (Option ℤ)} {holder : κ} {id : ℤ}
    (h : (removed.foldl (fun t role => moveRoles clientId catalog role t) table).find?
      (holder, clientId) = some (some id)) :
    catalog.defaultRole = some id ∨
      table.find? (holder, clientId) = some (some id) ∧ id ∉ removed.map CatalogRole.roleId := by
  induction removed generalizing table with
  | nil => exact .inr ⟨h, by simp⟩
  | cons role rest ih =>
    rcases ih h with hdefault | ⟨hmoved, hnot⟩
    · exact .inl hdefault
    · unfold moveRoles at hmoved
      rw [Table.find?_updateWhere, Option.map_eq_some_iff] at hmoved
      obtain ⟨old, hold, hvalue⟩ := hmoved
      split at hvalue
      · left
        unfold moveTo at hvalue
        simp only at hvalue
        split at hvalue
        · exact hvalue
        · simp at hvalue
      · next hkept =>
        right
        simp only [decide_eq_true_eq, true_and] at hkept
        subst hvalue
        refine ⟨hold, ?_⟩
        rw [List.map_cons, List.mem_cons, not_or]
        exact ⟨fun hsame => hkept (by rw [hsame]), hnot⟩

theorem mem_storedRoles {id : ℤ} (h : db.appRoles.contains (clientId, id) = true) :
    ∃ role ∈ storedRoles db clientId, role.roleId = id := by
  obtain ⟨role, hrole⟩ := (Table.contains_iff _ _).mp h
  refine ⟨⟨id, role.name, role.level, role.isSystem⟩, ?_, rfl⟩
  rw [storedRoles, mem_sortRoles, List.mem_map]
  refine ⟨((clientId, id), role), List.mem_filter.mpr ⟨?_, by simp⟩, rfl⟩
  exact (Table.mem_rows_iff _ _ _).mpr hrole

theorem replaceRoles_contains {catalog : RoleCatalog} {appRoles : Table (ClientId × ℤ) AppRole}
    {id : ℤ} (h : catalog.has id = true) :
    (replaceRoles clientId catalog appRoles).contains (clientId, id) = true := by
  rw [Table.contains, replaceRoles_self, Option.isSome_map, List.find?_isSome]
  simp only [RoleCatalog.has, decide_eq_true_eq, List.mem_map] at h
  obtain ⟨role, hrole, hid⟩ := h
  exact ⟨role, hrole, by simpa using hid⟩

theorem default_has {catalog : RoleCatalog} {id : ℤ} (h : catalog.defaultRole = some id) :
    catalog.has id = true := by
  simpa [RoleCatalog.has] using catalog.known id h

/-- After the migration of a layer every value names a role of the new catalog. -/
theorem Names.moved {κ : Type} [DecidableEq κ] {table : Table (κ × ClientId) (Option ℤ)}
    (h : Names db.appRoles table) (catalog : RoleCatalog) :
    Names (replaceRoles clientId catalog db.appRoles)
      (((storedRoles db clientId).filter fun role => !catalog.has role.roleId).foldl
        (fun t role => moveRoles clientId catalog role t) table) := by
  intro holder other id hvalue
  by_cases hother : other = clientId
  · subst hother
    apply replaceRoles_contains
    rcases moveRoles_value _ hvalue with hdefault | ⟨hold, hnot⟩
    · exact default_has hdefault
    · obtain ⟨role, hrole, rfl⟩ := mem_storedRoles (h holder other id hold)
      by_contra hmissing
      refine hnot (List.mem_map.mpr ⟨role, List.mem_filter.mpr ⟨hrole, ?_⟩, rfl⟩)
      simpa using hmissing
  · rw [moveRoles_kept clientId catalog _ _ (holder, other) hother] at hvalue
    have hstored := h holder other id hvalue
    rwa [Table.contains, replaceRoles_other hother]

theorem topRole_mem {roles : List CatalogRole} {top : CatalogRole} (h : topRole roles = some top) :
    top ∈ roles := by
  unfold topRole at h
  refine List.foldlRecOn (motive := fun best => ∀ role ∈ best, role ∈ roles) roles _
    (fun role hrole => absurd hrole (Option.not_mem_none role)) ?_ top h
  intro best hbest first hfirst role hrole
  split at hrole
  · rw [Option.mem_some.mp hrole] at hfirst
    exact hfirst
  · split at hrole
    · rw [Option.mem_some.mp hrole] at hfirst
      exact hfirst
    · exact hbest role hrole

/-- The root defaults name the most privileged role of the catalog. -/
theorem Names.rootDefaults {appRoles : Table (ClientId × ℤ) AppRole} {roleId : ℤ}
    (h : Names appRoles db.orgRoleAppDefaults)
    (hrole : appRoles.contains (clientId, roleId) = true) :
    Names appRoles (DreamSso.rootDefaults clientId roleId db) := by
  unfold DreamSso.rootDefaults
  generalize db.orgRoles.rows.filter (fun row => decide (row.2.level = 0)) = rows
  generalize db.orgRoleAppDefaults = table at h
  induction rows generalizing table with
  | nil => exact h
  | cons row rest ih =>
    rw [List.foldl_cons]
    refine ih _ ?_
    intro slug other id hvalue
    rw [Table.find?_upsert] at hvalue
    split at hvalue
    · next hkey =>
      rw [Option.some.injEq, Option.some.injEq] at hvalue
      rw [(Prod.mk.inj hkey).2, ← hvalue]
      exact hrole
    · exact h slug other id hvalue

theorem replaceCatalog_noDangling (hdb : NoDangling db) (catalog : RoleCatalog) :
    NoDangling (replaceCatalog sha256 db clientId iat catalog).2 := by
  have hstored : NoDangling (storeCatalog sha256 clientId iat catalog
      (((storedRoles db clientId).filter fun role => !catalog.has role.roleId).foldl
        (moveHolders clientId catalog) db)) := by
    rw [moveHolders_foldl]
    refine ⟨hdb.overrides.moved catalog, hdb.defaults.moved catalog, ?_⟩
    intro other cat hcat id hid
    simp only [storeCatalog, Table.find?_upsert] at hcat
    split at hcat
    · next hother =>
      subst hother
      rw [← Option.some.inj hcat] at hid
      exact replaceRoles_contains (default_has hid)
    · next hother =>
      have hold := hdb.catalogs other cat hcat id hid
      show (replaceRoles clientId catalog db.appRoles).contains (other, id) = true
      rwa [Table.contains, replaceRoles_other hother]
  unfold replaceCatalog grantTop
  simp only
  split
  · exact hstored
  · next top htop =>
    refine ⟨hstored.overrides, hstored.defaults.rootDefaults ?_, hstored.catalogs⟩
    rw [moveHolders_foldl]
    refine replaceRoles_contains ?_
    simp only [RoleCatalog.has, decide_eq_true_eq]
    exact List.mem_map_of_mem (topRole_mem htop)

theorem applyCatalog_noDangling {catalog : RoleCatalog} {state : RoleSyncState}
    {order : CatalogOrder} (hdb : NoDangling db)
    (h : applyCatalog env sha256 db clientId iat catalog state = .ok (order, db')) :
    NoDangling db' := by
  rcases (applyCatalog_ok h).2 with ⟨-, rfl⟩ | ⟨-, changed, published, log, hpublish, rfl⟩
  · exact hdb
  · have hreplaced := @replaceCatalog_noDangling sha256 clientId iat db hdb catalog
    exact hreplaced.congr (publishClients_unpublished hpublish).tables

theorem receiveEvent_noDangling {event : IncomingEvent} (hdb : NoDangling db)
    (h : receiveEvent env sha256 clientId iat db event = .ok db') : NoDangling db' := by
  have hensure : ∀ {state ensured}, ensureRoleSyncState env db clientId = .ok (state, ensured) →
      NoDangling ensured := fun hensured =>
    hdb.congr (ensureRoleSyncState_unpublished hensured).1.tables
  obtain ⟨digest, -, hreception⟩ := receiveEvent_ok h
  cases hreception with
  | repeated => exact hdb
  | acknowledged hplain hfree hreceipt =>
    obtain ⟨type, -, rfl⟩ := bindReceipt_ok hreceipt
    exact hdb.congr rfl
  | repeatedCatalog hcatalog hensured => exact hensure hensured
  | ordered hcatalog hensured hversion hnew hfree happlied hreceipt =>
    have happly := applyCatalog_noDangling (hensure hensured) happlied
    rcases hreceipt with ⟨-, -, rfl⟩ | hreceipt
    · exact happly
    · obtain ⟨type, -, rfl⟩ := bindReceipt_ok hreceipt
      exact happly.congr rfl

end Incoming

theorem RoleTransaction.noDangling {sha256 : JsString → Digest} {transaction : RoleTransaction}
    {db db' : Db} (hdb : NoDangling db) (h : transaction.work sha256 db = .ok db') :
    NoDangling db' := by
  cases transaction with
  | admin env actorSub call => exact AdminCall.noDangling hdb h
  | incoming env clientId time clock events =>
    exact receiveEvents_preserves NoDangling (fun _ _ _ _ hs hst => receiveEvent_noDangling hs hst)
      (processIncomingEvents_ok h).2 hdb

theorem commitAll_noDangling (sha256 : JsString → Digest) {start : Db} (hstart : NoDangling start)
    (transactions : List RoleTransaction) : NoDangling (commitAll sha256 start transactions) :=
  commitAll_preserves NoDangling transactions (fun _ _ _ _ hs h => RoleTransaction.noDangling hs h)
    hstart

/-- The role the chain resolves to is a stored one. -/
theorem NoDangling.effective {db : Db} (h : NoDangling db) {clientId : ClientId}
    {sub : Uuid} {id : ℤ} (hid : (effectiveAppRole db sub clientId).roleId = some id) :
    db.appRoles.contains (clientId, id) = true := by
  unfold effectiveAppRole at hid
  split at hid
  · next roleId hoverride =>
    exact h.overrides sub clientId id (hoverride.trans (congrArg some hid))
  · split at hid
    · next roleId horg =>
      rw [orgLayer, Option.bind_eq_some_iff] at horg
      obtain ⟨slug, -, hdefault⟩ := horg
      exact h.defaults slug clientId id (hdefault.trans (congrArg some hid))
    · split at hid
      · next cat hcat => exact h.catalogs clientId cat hcat id hid
      · simp at hid

theorem NoDangling.known {db : Db} (h : NoDangling db) (clientId : ClientId) (sub : Uuid) :
    knownRole db clientId (effectiveAppRole db sub clientId).roleId =
      (effectiveAppRole db sub clientId).roleId := by
  cases hid : (effectiveAppRole db sub clientId).roleId with
  | none => rfl
  | some id => simp [knownRole, Option.filter, h.effective hid]

/-- No user is reported with a role its client does not have. -/
theorem NoDangling.access {db : Db} (h : NoDangling db) (clientId : ClientId) (sub : Uuid) :
    (accessState (resolvedRow db clientId sub)).access ≠ .unknownRole := by
  unfold accessState
  simp only
  split
  · simp
  · split
    · simp
    · next hfound hsynced =>
      have hcatalog : hasAppCatalog db clientId = true := by
        rw [Bool.not_eq_true', Bool.not_eq_false] at hsynced
        exact hsynced
      have hrole := (resolvedRow_role hcatalog sub).1
      have hexists : (resolvedRow db clientId sub).roleExists =
          (resolvedRow db clientId sub).roleId.any fun id => db.appRoles.contains (clientId, id) :=
        rfl
      have hstored : ∀ id, (resolvedRow db clientId sub).roleId = some id →
          (resolvedRow db clientId sub).roleExists = true := by
        intro id hid
        rw [hexists, hid]
        exact h.effective (hrole.symm.trans hid)
      cases hid : (resolvedRow db clientId sub).roleId with
      | none => simp
      | some id =>
        simp only [Bool.not_eq_true', Bool.not_eq_false] at hfound hsynced
        simp only [hfound, hsynced, hstored id hid, Bool.and_self, if_true, Option.isNone_some,
          Bool.false_eq_true, if_false]
        simp

/-- Every state of a snapshot is the state of a requested user of an enabled client. -/
theorem readAccessStateSnapshot_state {db : Db} {clientId : ClientId} {subjects : List Uuid}
    {snapshot : AccessStateSnapshot}
    (h : readAccessStateSnapshot db clientId subjects = .ok snapshot) {state : AccessState}
    (hstate : state ∈ snapshot.states) :
    ∃ sub, sub ∈ subjects ∧ state = accessState (resolvedRow db clientId sub) := by
  have hstates : snapshot.states = (accessStateRows db clientId subjects).map accessState := by
    unfold readAccessStateSnapshot at h
    simp only at h
    split at h
    · split at h
      · simp at h
      · split at h
        · simp at h
        · rw [← Except.ok.inj h]
    · rw [← Except.ok.inj h]
  rw [hstates, accessStateRows] at hstate
  split at hstate
  · obtain ⟨row, hrow, rfl⟩ := List.mem_map.mp hstate
    obtain ⟨sub, hsub, rfl⟩ := List.mem_map.mp hrow
    exact ⟨sub, hsub, rfl⟩
  · simp at hstate

/-- In every state of a run each reference names a stored role, so no snapshot
reports an unknown one. -/
theorem no_dangling_references (sha256 : JsString → Digest) {start : Db}
    (hstart : NoDangling start) (transactions : List RoleTransaction) :
    let db := commitAll sha256 start transactions
    (∀ sub clientId id, db.userAppRoleOverrides.find? (sub, clientId) = some (some id) →
      db.appRoles.contains (clientId, id) = true) ∧
    (∀ slug clientId id, db.orgRoleAppDefaults.find? (slug, clientId) = some (some id) →
      db.appRoles.contains (clientId, id) = true) ∧
    (∀ clientId cat id, db.appRoleCatalogs.find? clientId = some cat → cat.defaultRoleId = some id →
      db.appRoles.contains (clientId, id) = true) ∧
    (∀ clientId subjects snapshot, readAccessStateSnapshot db clientId subjects = .ok snapshot →
      ∀ state ∈ snapshot.states, state.access ≠ .unknownRole) := by
  intro db
  have hdb : NoDangling db := commitAll_noDangling sha256 hstart transactions
  refine ⟨hdb.overrides, hdb.defaults, fun clientId cat id hcat hid => ?_, ?_⟩
  · exact hdb.catalogs clientId cat hcat id hid
  · intro clientId subjects snapshot hread state hstate
    obtain ⟨sub, -, rfl⟩ := readAccessStateSnapshot_state hread hstate
    exact hdb.access clientId sub

/-- Role 5 of level 1 is dropped for the default role 6 of level 10. -/
def retiringCatalog : RoleCatalog where
  roles := [⟨6, js "user", 10, false⟩]
  defaultRole := some 6
  siteName := none
  version := none
  sorted := List.pairwise_singleton _ _
  known := by simp
  validNames := by decide +kernel
  validSite := validSite_none
  revisionRange := revisionRange_none

/-- The override of a user, the default of its org role and that of the catalog name role 5. -/
def referringDb : Db :=
  { registeredDb with
    identities := (∅ : Table Uuid Identity).upsert (Uuid.numbered 1)
      ⟨js "ann", js "Ann", none, false, none, none, .active, none⟩
    orgRoles := (∅ : Table Slug OrgRole).upsert (js "root") ⟨js "Root", 0, true⟩
    userOrgRoles := (∅ : Table Uuid Slug).upsert (Uuid.numbered 1) (js "root")
    appRoles := (∅ : Table (ClientId × ℤ) AppRole).upsert (js "app", 5) ⟨js "owner", 1, false⟩
    appRoleCatalogs := (∅ : Table ClientId AppRoleCatalog).upsert (js "app") ⟨some 5, 0⟩
    userAppRoleOverrides := (∅ : Table (Uuid × ClientId) (Option ℤ)).upsert
      (Uuid.numbered 1, js "app") (some 5)
    orgRoleAppDefaults := (∅ : Table (Slug × ClientId) (Option ℤ)).upsert
      (js "root", js "app") (some 5) }

theorem referringDb_noDangling : NoDangling referringDb := by
  have hfive : referringDb.appRoles.contains (js "app", 5) = true := by decide +kernel
  constructor
  · intro sub clientId id hvalue
    simp only [referringDb, Table.find?_upsert, Prod.mk.injEq] at hvalue
    split at hvalue
    · next hkey =>
      rw [hkey.2, ← Option.some.inj (Option.some.inj hvalue)]
      exact hfive
    · simp at hvalue
  · intro slug clientId id hvalue
    simp only [referringDb, Table.find?_upsert, Prod.mk.injEq] at hvalue
    split at hvalue
    · next hkey =>
      rw [hkey.2, ← Option.some.inj (Option.some.inj hvalue)]
      exact hfive
    · simp at hvalue
  · intro clientId cat hcat id hid
    simp only [referringDb, Table.find?_upsert] at hcat
    split at hcat
    · next hkey =>
      rw [← Option.some.inj hcat] at hid
      rw [hkey, ← Option.some.inj hid]
      exact hfive
    · simp at hcat

/-- The catalog without role 5 arrives. -/
def retiringDelivery : RoleTransaction :=
  .incoming ⟨0, fun _ => Uuid.numbered 5, fun _ => Uuid.numbered 6, fun s => s⟩ (js "app") ⟨1, 2⟩
    (fun _ => 0) [⟨Uuid.numbered 3, ROLES_SYNC, .null, some retiringCatalog⟩]

def retiredDb : Db := commitAll id referringDb [retiringDelivery]

/-- The references of the removed role are moved to role 6, which is stored. -/
theorem no_dangling_references_retired :
    retiredDb.appRoles.contains (js "app", 5) = false ∧
    retiredDb.userAppRoleOverrides.find? (Uuid.numbered 1, js "app") = some (some 6) ∧
    retiredDb.orgRoleAppDefaults.find? (js "root", js "app") = some (some 6) ∧
    retiredDb.appRoleCatalogs.find? (js "app") = some ⟨some 6, 1⟩ ∧
    retiredDb.appRoles.contains (js "app", 6) = true ∧
    ∃ snapshot, readAccessStateSnapshot retiredDb (js "app") [Uuid.numbered 1] = .ok snapshot ∧
      snapshot.states.length = 1 ∧ ∀ state ∈ snapshot.states, state.access ≠ .unknownRole := by
  have hmoved : retiredDb.userAppRoleOverrides.find? (Uuid.numbered 1, js "app") =
      some (some 6) := by
    decide +kernel
  have hstates : (readAccessStateSnapshot retiredDb (js "app") [Uuid.numbered 1]).toOption.map
      (fun snapshot => snapshot.states.length) = some 1 := by
    decide +kernel
  refine ⟨by decide +kernel, hmoved, by decide +kernel, by decide +kernel, ?_, ?_⟩
  · unfold retiredDb at hmoved ⊢
    exact (no_dangling_references id referringDb_noDangling [retiringDelivery]).1 _ _ _ hmoved
  · cases hread : readAccessStateSnapshot retiredDb (js "app") [Uuid.numbered 1] with
    | error failure =>
      rw [hread] at hstates
      cases hstates
    | ok snapshot =>
      rw [hread] at hstates
      refine ⟨snapshot, rfl, Option.some.inj hstates, ?_⟩
      unfold retiredDb at hread
      exact (no_dangling_references id referringDb_noDangling [retiringDelivery]).2.2.2 _ _
        snapshot hread

end DreamSso
