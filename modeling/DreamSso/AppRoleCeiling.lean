import DreamSso.AuthorityIsolation

/-!
The app-role ceiling. Nobody hands out an app role that outranks his own role
for that client, nor takes one away from somebody who holds a higher one. The
role a user ends up with is computed from the rows after the call, also where the
call changes the org role that an inherited role comes from.
-/
namespace DreamSso

open JsStrings JsonValues KeyedTables Fallible

/-- The level of the caller's own role for a client; who is not a user has none. -/
def ceiling (db : Db) (actorSub : JsString) (clientId : ClientId) : WithTop ℤ :=
  match Uuid.parse? actorSub with
  | some sub => appRoleLevel db clientId (effectiveAppRole db sub clientId).roleId
  | none => ⊤

theorem CheckedActor.ceiling {db : Db} {actorSub : JsString} {actor : Actor}
    (h : CheckedActor db actorSub actor) (clientId : ClientId) :
    ceiling db actorSub clientId = actorAppLevel db actor clientId := by
  simp only [DreamSso.ceiling, h.sub, actorAppLevel]

theorem checkInherited_ok {db : Db} {actor : Actor} {target : Uuid} {newSlug : Option Slug}
    {named : List JsString} {clientId : ClientId}
    (h : checkInherited db actor target newSlug named clientId = .ok ())
    (hnamed : clientId ∉ named)
    (hnone : db.userAppRoleOverrides.find? (target, clientId) = none)
    (hchanged : orgDefault db newSlug clientId ≠ (effectiveAppRole db target clientId).roleId) :
    actorAppLevel db actor clientId ≤ appRoleLevel db clientId (orgDefault db newSlug clientId) := by
  unfold checkInherited at h
  simp only [hnamed, Table.contains, hnone, decide_false, Option.isSome_none, Bool.or_false,
    Bool.false_eq_true, if_false, hchanged, failIf_eq_ok, decide_eq_false_iff_not, not_lt] at h
  exact h

/-- With a catalog and no override the role comes from the org role. -/
theorem effectiveAppRole_inherited {db : Db} {sub : Uuid} {clientId : ClientId}
    {cat : AppRoleCatalog} (hcat : db.appRoleCatalogs.find? clientId = some cat)
    (hnone : db.userAppRoleOverrides.find? (sub, clientId) = none) :
    (effectiveAppRole db sub clientId).roleId =
      orgDefault db (db.userOrgRoles.find? sub) clientId := by
  unfold effectiveAppRole orgDefault orgLayer
  rw [hnone, hcat]
  cases (db.userOrgRoles.find? sub).bind fun slug => db.orgRoleAppDefaults.find? (slug, clientId) <;>
    rfl

theorem effectiveAppRole_stored {db : Db} {sub : Uuid} {clientId : ClientId} {roleId : Option ℤ}
    (h : db.userAppRoleOverrides.find? (sub, clientId) = some roleId) :
    (effectiveAppRole db sub clientId).roleId = roleId := by
  unfold effectiveAppRole
  rw [h]

theorem appRoleLevel_congr {db db' : Db} (h : db'.appRoles = db.appRoles) (clientId : ClientId)
    (roleId : Option ℤ) : appRoleLevel db' clientId roleId = appRoleLevel db clientId roleId := by
  unfold appRoleLevel
  rw [h]

theorem orgDefault_congr {db db' : Db} (hcatalogs : db'.appRoleCatalogs = db.appRoleCatalogs)
    (hdefaults : db'.orgRoleAppDefaults = db.orgRoleAppDefaults) (slug : Option Slug)
    (clientId : ClientId) : orgDefault db' slug clientId = orgDefault db slug clientId := by
  unfold orgDefault
  rw [hcatalogs, hdefaults]

/-- Without rows for a client every role of it ranks last. -/
theorem appRoleLevel_top {db : Db} {clientId : ClientId}
    (h : ∀ id, db.appRoles.find? (clientId, id) = none) (roleId : Option ℤ) :
    appRoleLevel db clientId roleId = ⊤ := by
  unfold appRoleLevel
  cases roleId with
  | none => rfl
  | some id => simp [h id]

/-- The client is managed, or it has no app roles at all. -/
def Catalogued (db : Db) (clientId : ClientId) : Prop :=
  hasAppCatalog db clientId = true ∨ ∀ id, db.appRoles.find? (clientId, id) = none

/-- The roles for a client that changed rank at or below the ceiling. -/
def UnderCeiling (db db' : Db) (level : WithTop ℤ) (clientId : ClientId) : Prop :=
  ∀ sub, (effectiveAppRole db' sub clientId).roleId ≠ (effectiveAppRole db sub clientId).roleId →
    level ≤ appRoleLevel db' clientId (effectiveAppRole db' sub clientId).roleId

section UserChanges

variable {db : Db} {actorSub targetSub : JsString} {changes : Members} {change : UserChange}
  {permissions : Table (Uuid × PermKey) Effect}

theorem CheckedUser.appValue (h : CheckedUser db actorSub targetSub changes change) {clientId : ClientId}
    {value : AppValue} (hvalue : (clientId, value) ∈ change.appValues) :
    actorAppLevel db change.actor clientId ≤ appRoleLevel db clientId
      (value.stored.getD (orgDefault db change.newSlug clientId)) := by
  obtain ⟨entry, -, hentry⟩ := mapM_mem_right h.appValues hvalue
  exact (checkAppRole_ok hentry).2.2.2

theorem CheckedUser.named (h : CheckedUser db actorSub targetSub changes change) :
    change.appRoles.map Prod.fst = change.appValues.map Prod.fst := by
  have hkeys : ∀ (entries : Members) (values : List (ClientId × AppValue)),
      List.Forall₂ (fun entry value =>
        checkAppRole db change.actor change.target.sub change.newSlug entry = .ok value)
        entries values → entries.map Prod.fst = values.map Prod.fst := by
    intro entries values hall
    induction hall with
    | nil => rfl
    | cons hentry _ ih => rw [List.map_cons, List.map_cons, ih, (checkAppRole_ok hentry).1]
  exact hkeys _ _ (mapM_eq_ok.mp h.appValues)

/-- The membership after the call is the one the checks assumed. -/
theorem CheckedUser.write_membership (h : CheckedUser db actorSub targetSub changes change) :
    (change.write db permissions).userOrgRoles.find? change.target.sub = change.newSlug := by
  unfold UserChange.write UserChange.newSlug
  cases change.orgRole with
  | none => exact h.slug.symm
  | some slug => exact Table.find?_upsert_self _ _ _

/-- The role of the target is the one named for the client, or the one inherited
from the org role the target then has, or what it was. -/
theorem CheckedUser.write_role (h : CheckedUser db actorSub targetSub changes change)
    {clientId : ClientId} {cat : AppRoleCatalog}
    (hcat : db.appRoleCatalogs.find? clientId = some cat) :
    let before := (effectiveAppRole db change.target.sub clientId).roleId
    let after := (effectiveAppRole (change.write db permissions) change.target.sub clientId).roleId
    after = before ∨
      (∃ value, (clientId, value) ∈ change.appValues ∧
        after = value.stored.getD (orgDefault db change.newSlug clientId)) ∨
      clientId ∉ change.appRoles.map Prod.fst ∧ change.orgRole.isSome = true ∧
        db.userAppRoleOverrides.find? (change.target.sub, clientId) = none ∧
        after = orgDefault db change.newSlug clientId := by
  intro before after
  have hinherited : (change.write db permissions).userAppRoleOverrides.find?
      (change.target.sub, clientId) = none → after = orgDefault db change.newSlug clientId := by
    intro hnone
    have hcat' : (change.write db permissions).appRoleCatalogs.find? clientId = some cat := hcat
    show (effectiveAppRole (change.write db permissions) change.target.sub clientId).roleId = _
    rw [effectiveAppRole_inherited hcat' hnone, h.write_membership]
    exact orgDefault_congr rfl rfl _ _
  have hwritten : (change.write db permissions).userAppRoleOverrides =
      writeValues change.target.sub change.appValues db.userAppRoleOverrides := rfl
  rcases writeValues_find change.target.sub change.appValues db.userAppRoleOverrides
    (change.target.sub, clientId) with ⟨hsame, hunnamed⟩ | ⟨-, value, hvalue, hstored⟩
  · rw [← hwritten] at hsame
    cases hover : db.userAppRoleOverrides.find? (change.target.sub, clientId) with
    | some roleId =>
      left
      rw [hover] at hsame
      exact (effectiveAppRole_stored hsame).trans (effectiveAppRole_stored hover).symm
    | none =>
      rw [hover] at hsame
      cases horg : change.orgRole with
      | none =>
        left
        have hslug : change.newSlug = db.userOrgRoles.find? change.target.sub := by
          rw [UserChange.newSlug, horg, ← h.slug]
          rfl
        rw [hinherited hsame, hslug]
        exact (effectiveAppRole_inherited hcat hover).symm
      | some slug =>
        right; right
        rw [h.named]
        exact ⟨hunnamed.resolve_left (not_not.mpr rfl), rfl, rfl, hinherited hsame⟩
  · right; left
    refine ⟨value, hvalue, ?_⟩
    rw [← hwritten] at hstored
    cases hchoice : value.stored with
    | none =>
      rw [hchoice] at hstored
      exact hinherited hstored
    | some roleId =>
      rw [hchoice] at hstored
      exact effectiveAppRole_stored hstored

end UserChanges

/-- A member of the role gets the role named for the client, or what he had. -/
theorem CheckedRole.write_role {db : Db} {actorSub slug : JsString} {changes : Members}
    {change : RoleChange} {permissions : Table (Slug × PermKey) Effect}
    (h : CheckedRole db actorSub slug changes change) {sub : Uuid}
    (hmember : db.userOrgRoles.find? sub = some change.slug) {clientId : ClientId}
    {cat : AppRoleCatalog} (hcat : db.appRoleCatalogs.find? clientId = some cat) :
    (effectiveAppRole (change.write db permissions) sub clientId).roleId =
        (effectiveAppRole db sub clientId).roleId ∨
      actorAppLevel db change.actor clientId ≤ appRoleLevel db clientId
        (effectiveAppRole (change.write db permissions) sub clientId).roleId := by
  cases hover : db.userAppRoleOverrides.find? (sub, clientId) with
  | some roleId =>
    left
    have hover' : (change.write db permissions).userAppRoleOverrides.find? (sub, clientId) =
        some roleId := hover
    rw [effectiveAppRole_stored hover, effectiveAppRole_stored hover']
  | none =>
    have hover' : (change.write db permissions).userAppRoleOverrides.find? (sub, clientId) =
        none := hover
    have hcat' : (change.write db permissions).appRoleCatalogs.find? clientId = some cat := hcat
    have hmember' : (change.write db permissions).userOrgRoles.find? sub = some change.slug :=
      hmember
    have hdefaults : (change.write db permissions).orgRoleAppDefaults =
        writeValues change.slug change.appValues db.orgRoleAppDefaults := rfl
    rw [effectiveAppRole_inherited hcat' hover', effectiveAppRole_inherited hcat hover, hmember,
      hmember']
    simp only [orgDefault, hcat, hcat', Option.bind_some]
    rcases writeValues_find change.slug change.appValues db.orgRoleAppDefaults
      (change.slug, clientId) with ⟨hsame, -⟩ | ⟨-, value, hvalue, hstored⟩
    · left
      rw [hdefaults, hsame]
    · right
      obtain ⟨entry, -, hentry⟩ := mapM_mem_right h.appValues hvalue
      obtain ⟨-, -, cat', hfound, -, hlevel⟩ := checkAppDefault_ok hentry
      obtain rfl : cat' = cat := Option.some.inj (hfound.symm.trans hcat)
      rw [hdefaults, hstored]
      cases hchoice : value.stored with
      | none =>
        rw [hchoice] at hlevel
        exact hlevel
      | some roleId =>
        rw [hchoice] at hlevel
        exact hlevel

section Calls

variable {env : Surroundings} {db db' : Db} {actorSub : JsString} {changes : Members}
  {action : JsString}

theorem UnderCeiling.of_no_roles {clientId : ClientId} (hroles : db'.appRoles = db.appRoles)
    (h : ∀ id, db.appRoles.find? (clientId, id) = none) (level : WithTop ℤ) :
    UnderCeiling db db' level clientId := by
  intro sub _
  rw [appRoleLevel_congr hroles, appRoleLevel_top h]
  exact le_top

theorem applyUserAccess_ceiling {targetSub : JsString}
    (h : applyUserAccess env db actorSub targetSub changes action = .ok db') {clientId : ClientId}
    (hcatalogued : Catalogued db clientId) :
    UnderCeiling db db' (ceiling db actorSub clientId) clientId := by
  obtain ⟨change, permissions, published, log, hchecked, hkept, hpublish, hdb⟩ :=
    applyUserAccess_ok h
  have htables : db'.toRoleTables = (change.write db permissions).toRoleTables := by
    rw [hdb]
    exact (publishIf_unpublished hpublish).tables
  have hroles : db'.appRoles = db.appRoles := by
    rw [htables, UserChange.write]
  rcases hcatalogued with hcatalog | hnone
  · obtain ⟨cat, hcat⟩ := (Table.contains_iff _ _).mp hcatalog
    intro sub hchanged
    rw [hchecked.actor.ceiling]
    by_cases hsub : sub = change.target.sub
    · subst hsub
      have hwritten : effectiveAppRole db' change.target.sub clientId =
          effectiveAppRole (change.write db permissions) change.target.sub clientId :=
        (SameRights.of_tables htables _).effectiveAppRole clientId
      rw [hwritten] at hchanged ⊢
      rw [appRoleLevel_congr hroles]
      rcases hchecked.write_role hcat with hsame | ⟨value, hvalue, hafter⟩ |
        ⟨hunnamed, hsome, hover, hafter⟩
      · exact (hchanged hsame).elim
      · rw [hafter]
        exact hchecked.appValue hvalue
      · rw [hafter] at hchanged ⊢
        exact checkInherited_ok (hchecked.inherited hsome clientId hcatalog) hunnamed hover hchanged
    · have hsame : SameRights db db' sub := change.write_sameRights hkept htables hsub
      exact (hchanged (by rw [hsame.effectiveAppRole])).elim
  · exact UnderCeiling.of_no_roles hroles hnone _

theorem applyRoleAccess_ceiling {slug : JsString}
    (h : applyRoleAccess env db actorSub slug changes action = .ok db') {clientId : ClientId}
    (hcatalogued : Catalogued db clientId) :
    UnderCeiling db db' (ceiling db actorSub clientId) clientId := by
  obtain ⟨change, permissions, published, log, hchecked, hkept, hpublish, hdb⟩ :=
    applyRoleAccess_ok h
  have htables : db'.toRoleTables = (change.write db permissions).toRoleTables := by
    rw [hdb]
    exact (publishIf_unpublished hpublish).tables
  have hroles : db'.appRoles = db.appRoles := by
    rw [htables, RoleChange.write]
  rcases hcatalogued with hcatalog | hnone
  · obtain ⟨cat, hcat⟩ := (Table.contains_iff _ _).mp hcatalog
    intro sub hchanged
    rw [hchecked.actor.ceiling]
    by_cases hsub : db.userOrgRoles.find? sub = some change.slug
    · have hwritten : effectiveAppRole db' sub clientId =
          effectiveAppRole (change.write db permissions) sub clientId :=
        (SameRights.of_tables htables _).effectiveAppRole clientId
      rw [hwritten] at hchanged ⊢
      rw [appRoleLevel_congr hroles]
      exact (hchecked.write_role hsub hcat).resolve_left hchanged
    · have hsame : SameRights db db' sub := change.write_sameRights hkept htables hsub
      exact (hchanged (by rw [hsame.effectiveAppRole])).elim
  · exact UnderCeiling.of_no_roles hroles hnone _

/-- The caller's own role is not among the changed ones. -/
theorem ceiling_kept {call : AdminCall} (h : call.run env actorSub db = .ok db')
    (hroles : db'.appRoles = db.appRoles) (clientId : ClientId) :
    ceiling db' actorSub clientId = ceiling db actorSub clientId := by
  unfold ceiling
  cases hactor : Uuid.parse? actorSub with
  | none => rfl
  | some sub =>
    have hlevel : actorLevel db actorSub = orgLevel db sub := by simp [actorLevel, hactor]
    rcases AdminCall.confined h sub with hsame | ⟨hbelow, -⟩
    · simp only [hsame.effectiveAppRole]
      exact appRoleLevel_congr hroles _ _
    · rw [hlevel] at hbelow
      exact (lt_irrefl _ hbelow).elim

end Calls

/-- An administrator and a user below him, and an org role whose default for the
client is its one role; the client has a catalog or not. -/
def staffDb (managed : Bool) : Db :=
  { Db.empty with
    oauthClients := (∅ : Table ClientId OauthClient).upsert (js "app") ⟨js "App", none, none⟩
    identities := ((∅ : Table Uuid Identity).upsert (Uuid.numbered 1)
      ⟨js "ann", js "Ann", none, false, none, none, .active, none⟩).upsert (Uuid.numbered 2)
      ⟨js "bob", js "Bob", none, false, none, none, .active, none⟩
    orgRoles := ((∅ : Table Slug OrgRole).upsert (js "admin") ⟨js "Admin", 1, true⟩).upsert
      (js "staff") ⟨js "Staff", 20, false⟩
    userOrgRoles := (∅ : Table Uuid Slug).upsert (Uuid.numbered 1) (js "admin")
    rolePermissions := (∅ : Table (Slug × PermKey) Effect).upsert
      (js "admin", js "org.users.edit.permissions.acctPortal") .grant
    orgRoleAppDefaults := (∅ : Table (Slug × ClientId) (Option ℤ)).upsert (js "staff", js "app")
      (some 1)
    userAppRoleOverrides := if managed then (∅ : Table (Uuid × ClientId) (Option ℤ)).upsert
      (Uuid.numbered 1, js "app") (some 1) else ∅
    appRoles := (∅ : Table (ClientId × ℤ) AppRole).upsert (js "app", 1) ⟨js "user", 10, false⟩
    appRoleCatalogs := if managed then
      (∅ : Table ClientId AppRoleCatalog).upsert (js "app") ⟨none, 0⟩ else ∅ }

def sampleSurroundings : Surroundings :=
  ⟨0, fun _ => Uuid.numbered 5, fun _ => Uuid.numbered 6, fun s => s⟩

/-- The administrator gives the user the org role. -/
def staffed (managed : Bool) : Db :=
  withRoleTransaction (staffDb managed) fun db => applyUserAccess sampleSurroundings db
    (Uuid.numbered 1).text (Uuid.numbered 2).text [(js "org_role", .str (js "staff"))]
    (js "user.access_change")

theorem staffed_committed (managed : Bool) :
    applyUserAccess sampleSurroundings (staffDb managed) (Uuid.numbered 1).text
      (Uuid.numbered 2).text [(js "org_role", .str (js "staff"))] (js "user.access_change") =
        .ok (staffed managed) := by
  refine @withRoleTransaction_committed (staffDb managed) (fun db => applyUserAccess
    sampleSurroundings db (Uuid.numbered 1).text (Uuid.numbered 2).text
    [(js "org_role", .str (js "staff"))] (js "user.access_change")) ?_
  cases managed <;> decide +kernel

/-- A committed change of a user or of an org role leaves every changed app role
of a catalogued client at or below the caller's own, and each value it replaces
was at or below it as well. -/
theorem app_role_ceiling :
    (∀ (env : Surroundings) (db db' : Db) (actorSub targetSub : JsString) (changes : Members)
      (action : JsString), applyUserAccess env db actorSub targetSub changes action = .ok db' →
      (∀ clientId, Catalogued db clientId →
        UnderCeiling db db' (ceiling db actorSub clientId) clientId ∧
        ceiling db' actorSub clientId = ceiling db actorSub clientId) ∧
      ∀ entries, mapArgument (Json.member? changes (js "app_roles")) = .ok entries →
        ∀ entry ∈ entries, ∃ target, Uuid.parse? targetSub = some target ∧
          ceiling db actorSub entry.1 ≤
            appRoleLevel db entry.1 (effectiveAppRole db target entry.1).roleId) ∧
    (∀ (env : Surroundings) (db db' : Db) (actorSub slug : JsString) (changes : Members)
      (action : JsString), applyRoleAccess env db actorSub slug changes action = .ok db' →
      (∀ clientId, Catalogued db clientId →
        UnderCeiling db db' (ceiling db actorSub clientId) clientId ∧
        ceiling db' actorSub clientId = ceiling db actorSub clientId) ∧
      ∀ entries, mapArgument (Json.member? changes (js "app_defaults")) = .ok entries →
        ∀ entry ∈ entries, ∃ stored clientId, param slug = .ok stored ∧
          param entry.1 = .ok clientId ∧ ceiling db actorSub clientId ≤
            appRoleLevel db clientId (orgDefault db (some stored) clientId)) := by
  constructor
  · intro env db db' actorSub targetSub changes action h
    obtain ⟨change, permissions, published, log, hchecked, -, hpublish, hdb⟩ := applyUserAccess_ok h
    have hroles : db'.appRoles = db.appRoles := by
      rw [hdb]
      show published.appRoles = _
      rw [(publishIf_unpublished hpublish).tables, UserChange.write]
    constructor
    · intro clientId hcatalogued
      have hrun : (AdminCall.applyUserAccess targetSub changes action).run env actorSub db =
          .ok db' := h
      exact ⟨applyUserAccess_ceiling h hcatalogued, ceiling_kept hrun hroles clientId⟩
    · intro entries hentries entry hentry
      obtain rfl : change.appRoles = entries := Except.ok.inj (hchecked.asked.symm.trans hentries)
      obtain ⟨value, -, hvalue⟩ := mapM_mem_left hchecked.appValues hentry
      obtain ⟨hclient, -, hbefore, -⟩ := checkAppRole_ok hvalue
      refine ⟨change.target.sub, hchecked.target, ?_⟩
      rw [hchecked.actor.ceiling, hclient]
      exact hbefore
  · intro env db db' actorSub slug changes action h
    obtain ⟨change, permissions, published, log, hchecked, -, hpublish, hdb⟩ := applyRoleAccess_ok h
    have hroles : db'.appRoles = db.appRoles := by
      rw [hdb]
      show published.appRoles = _
      rw [(publishIf_unpublished hpublish).tables, RoleChange.write]
    constructor
    · intro clientId hcatalogued
      have hrun : (AdminCall.applyRoleAccess slug changes action).run env actorSub db =
          .ok db' := h
      exact ⟨applyRoleAccess_ceiling h hcatalogued, ceiling_kept hrun hroles clientId⟩
    · intro entries hentries entry hentry
      obtain rfl : change.defaults = entries := Except.ok.inj (hchecked.asked.symm.trans hentries)
      obtain ⟨value, -, hvalue⟩ := mapM_mem_left hchecked.appValues hentry
      obtain ⟨hclient, -, cat, -, hbefore, -⟩ := checkAppDefault_ok hvalue
      refine ⟨change.slug, value.1, hchecked.slug, hclient, ?_⟩
      rw [hchecked.actor.ceiling]
      exact hbefore

/-- For a client without a catalog the new org role slips its app role past. -/
theorem uncatalogued_role_above_ceiling :
    ¬∀ (env : Surroundings) (db db' : Db) (actorSub targetSub : JsString) (changes : Members)
      (action : JsString) (clientId : ClientId),
      applyUserAccess env db actorSub targetSub changes action = .ok db' →
        UnderCeiling db db' (ceiling db actorSub clientId) clientId := by
  intro h
  have hunder := h sampleSurroundings (staffDb false) (staffed false) (Uuid.numbered 1).text
    (Uuid.numbered 2).text [(js "org_role", .str (js "staff"))] (js "user.access_change") (js "app")
    (staffed_committed false)
  have hchanged : (effectiveAppRole (staffed false) (Uuid.numbered 2) (js "app")).roleId = some 1 ∧
      (effectiveAppRole (staffDb false) (Uuid.numbered 2) (js "app")).roleId = none := by
    decide +kernel
  have habove : ¬ceiling (staffDb false) (Uuid.numbered 1).text (js "app") ≤
      appRoleLevel (staffed false) (js "app") (some 1) := by decide +kernel
  have hlevel := hunder (Uuid.numbered 2) (by rw [hchanged.1, hchanged.2]; simp)
  rw [hchanged.1] at hlevel
  exact habove hlevel

theorem app_role_ceiling_staffed :
    (effectiveAppRole (staffed true) (Uuid.numbered 2) (js "app")).roleId = some 1 ∧
      ceiling (staffDb true) (Uuid.numbered 1).text (js "app") ≤
        appRoleLevel (staffed true) (js "app") (some 1) := by
  have hchanged : (effectiveAppRole (staffed true) (Uuid.numbered 2) (js "app")).roleId = some 1 ∧
      (effectiveAppRole (staffDb true) (Uuid.numbered 2) (js "app")).roleId = none := by
    decide +kernel
  have hcatalogued : Catalogued (staffDb true) (js "app") := .inl (by decide +kernel)
  have hceiling := (app_role_ceiling.1 sampleSurroundings (staffDb true) (staffed true)
    (Uuid.numbered 1).text (Uuid.numbered 2).text [(js "org_role", .str (js "staff"))]
    (js "user.access_change") (staffed_committed true)).1 (js "app") hcatalogued
  have hlevel := hceiling.1 (Uuid.numbered 2) (by rw [hchanged.1, hchanged.2]; simp)
  rw [hchanged.1] at hlevel
  exact ⟨hchanged.1, hlevel⟩

end DreamSso
