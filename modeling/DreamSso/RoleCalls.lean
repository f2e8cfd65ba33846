import DreamSso.RoleLifecycle
import DreamSso.RolePublication

/-!
Inversion of the committed role calls: what each call checked about its actor
and its subject, and which rows it wrote. A publication and the audit entry leave
the role tables as the call wrote them.
-/
namespace DreamSso

open JsStrings JsonValues JsConversions KeyedTables StoredJson Fallible

/-- A failing statement or an invariant of the code, as opposed to a refusal. -/
def Failure.internal : Failure → Bool
  | .outbox _ => true
  | .error _ => true
  | .database _ => true
  | _ => false

theorem insertEvents_failure {now : ℤ} {uuid : ℕ → Uuid} {db : Channel} {clientId : ClientId}
    {events : List OutboundEvent} {failure : Failure}
    (h : insertEvents now uuid db clientId events = .error failure) : failure.internal = true := by
  have hnormalize : ∀ (list : List OutboundEvent) (sequence : ℕ) (f : Failure),
      normalizeAll uuid sequence list = .error f → f.internal = true := by
    intro list
    induction list with
    | nil =>
      intro sequence f hf
      simp [normalizeAll] at hf
    | cons event rest ih =>
      intro sequence f hf
      simp only [normalizeAll, bind_eq_error, reduceCtorEq, and_false, exists_false, or_false] at hf
      rcases hf with hfirst | ⟨first, -, hrest⟩
      · unfold normalizedEvent at hfirst
        simp only at hfirst
        split at hfirst
        · split at hfirst
          · rw [← Except.error.inj hfirst]
            rfl
          · split at hfirst
            · rw [← Except.error.inj hfirst]
              rfl
            · simp at hfirst
        · rw [← Except.error.inj hfirst]
          rfl
      · exact ih _ _ hrest
  have hinsert : ∀ (event : NormalizedEvent) (t : Channel) (f : Failure),
      insertEvent now clientId t event = .error f → f.internal = true := by
    intro event t f hf
    unfold insertEvent at hf
    split at hf
    · split at hf
      · simp at hf
      · split at hf
        · simp at hf
        · rw [← Except.error.inj hf]
          rfl
    · rw [← Except.error.inj hf]
      rfl
  unfold insertEvents at h
  rw [bind_eq_error] at h
  rcases h with hnormalized | ⟨normalized, -, h⟩
  · exact hnormalize _ _ _ hnormalized
  · split at h
    · simp at h
    · rw [bind_eq_error] at h
      rcases h with hlock | ⟨locked, -, h⟩
      · unfold lockDestination at hlock
        split at hlock
        · simp at hlock
        · split at hlock
          · simp at hlock
          · rw [← Except.error.inj hlock]
            rfl
      · simp only [bind_eq_error, reduceCtorEq, and_false, exists_false, or_false] at h
        obtain ⟨event, -, t, ht⟩ := foldlM_eq_error h
        exact hinsert event t failure ht

section Publication

variable {env : Surroundings} {clientId : ClientId} {db : Db} {failure : Failure}

theorem ensureRoleSyncState_failure (h : ensureRoleSyncState env db clientId = .error failure) :
    failure.internal = true := by
  unfold ensureRoleSyncState at h
  simp only at h
  split at h
  · simp at h
  · rw [← Except.error.inj h]
    rfl

theorem publishClient_failure {subjects : Option (List Uuid)} {options : PublishOptions}
    (h : publishClient env subjects options db clientId = .error failure) :
    failure.internal = true := by
  unfold publishClient at h
  rw [bind_eq_error] at h
  rcases h with hensure | ⟨⟨state, ensured⟩, -, h⟩
  · exact ensureRoleSyncState_failure hensure
  · simp only at h
    split at h
    · simp at h
    · split at h
      · simp only [bind_eq_error, reduceCtorEq, and_false, exists_false, or_false] at h
        obtain ⟨part, -, t, ht⟩ := foldlM_eq_error h
        unfold publishPart at ht
        simp only [bind_eq_error, reduceCtorEq, and_false, exists_false, or_false] at ht
        exact insertEvents_failure ht
      · rw [← Except.error.inj h]
        rfl

theorem publishClients_failure {subjects : Option (List Uuid)} {options : PublishOptions}
    {clientIds : List ClientId}
    (h : publishClients env subjects options db clientIds = .error failure) :
    failure.internal = true := by
  induction clientIds generalizing db with
  | nil => simp [publishClients] at h
  | cons first rest ih =>
    rw [publishClients, bind_eq_error] at h
    rcases h with hfirst | ⟨⟨count, mid⟩, -, h⟩
    · exact publishClient_failure hfirst
    · simp only [bind_eq_error, reduceCtorEq, and_false, exists_false, or_false] at h
      exact ih h

end Publication

theorem publishClients_unpublished {env : Surroundings} {subjects : Option (List Uuid)}
    {options : PublishOptions} {clientIds : List ClientId} {db db' : Db} {count : ℕ}
    (h : publishClients env subjects options db clientIds = .ok (count, db')) :
    Unpublished db db' := by
  induction clientIds generalizing db count with
  | nil =>
    simp only [publishClients, Except.ok.injEq, Prod.mk.injEq] at h
    obtain ⟨-, rfl⟩ := h
    exact Unpublished.refl _
  | cons clientId rest ih =>
    rw [publishClients, bind_eq_ok] at h
    obtain ⟨⟨first, mid⟩, hfirst, h⟩ := h
    rw [bind_eq_ok] at h
    obtain ⟨⟨others, last⟩, hrest, h⟩ := h
    simp only [Except.ok.injEq, Prod.mk.injEq] at h
    obtain ⟨-, rfl⟩ := h
    exact (publishClient_ok hfirst).2.unpublished.trans (ih hrest)

theorem publishIf_unpublished {needed : Bool} {env : Surroundings} {db db' : Db}
    {clientIds : List ClientId} {subjects : Option (List Uuid)}
    (h : publishIf needed env db clientIds subjects = .ok db') : Unpublished db db' := by
  unfold publishIf at h
  split at h
  · cases hpublish : publishRoleChanges env db clientIds subjects .default with
    | error failure => simp [hpublish, Except.map] at h
    | ok result =>
      simp only [hpublish, Except.map, Except.ok.injEq] at h
      exact h ▸ publishClients_unpublished hpublish
  · exact (Except.ok.inj h) ▸ Unpublished.refl _

theorem writeAudit_ok {db db' : Db} {actor : Actor} {action : JsString}
    {detail : List (String × Json)} {target : Option (Uuid × JsString)}
    (h : writeAudit db actor action detail target = .ok db') :
    ∃ log, db' = { db with orgAuditLog := log } := by
  unfold writeAudit at h
  split at h
  · exact ⟨_, (Except.ok.inj h).symm⟩
  · simp at h

/-- The actor of a call that got past its locks. -/
structure CheckedActor (db : Db) (actorSub : JsString) (actor : Actor) : Prop where
  sub : Uuid.parse? actorSub = some actor.sub
  identity : presentIdentity db actor.sub = true
  level : actor.level = orgLevel db actor.sub

theorem lockActors_ok {db : Db} {actorSub : JsString} {targets : List JsString} {actor : Actor}
    (h : lockActors db actorSub targets = .ok actor) : CheckedActor db actorSub actor := by
  unfold lockActors at h
  split at h
  · simp at h
  · next sub hsub =>
    split at h
    · simp at h
    · split at h
      · simp at h
      · next identity hidentity =>
        split at h
        · next hactive =>
          simp only [Except.ok.injEq] at h
          subst h
          simp only [Bool.and_eq_true] at hactive
          exact ⟨hsub, by simp [presentIdentity, hidentity, hactive.1], rfl⟩
        · simp at h

/-- A checked change of a user. -/
structure CheckedUser (db : Db) (actorSub targetSub : JsString) (changes : Members)
    (change : UserChange) : Prop where
  actor : CheckedActor db actorSub change.actor
  asked : mapArgument (Json.member? changes (js "app_roles")) = .ok change.appRoles
  target : Uuid.parse? targetSub = some change.target.sub
  identity : db.identities.find? change.target.sub = some change.target.identity
  present : change.target.identity.present = true
  below : change.actor.level < orgLevel db change.target.sub
  slug : change.target.slug = db.userOrgRoles.find? change.target.sub
  orgRole : ∀ slug ∈ change.orgRole, ∃ role, db.orgRoles.find? slug = some role ∧
    change.actor.level < (role.level : WithTop ℤ)
  appValues : change.appRoles.mapM (checkAppRole db change.actor change.target.sub change.newSlug) =
    .ok change.appValues
  inherited : change.orgRole.isSome = true → ∀ clientId, hasAppCatalog db clientId = true →
    checkInherited db change.actor change.target.sub change.newSlug
      (change.appRoles.map Prod.fst) clientId = .ok ()

theorem administered_ok {db : Db} {actor : Actor} {actorSub targetSub : JsString} {target : Target}
    (h : administered db actor actorSub targetSub = .ok target) :
    Uuid.parse? targetSub = some target.sub ∧
      db.identities.find? target.sub = some target.identity ∧ target.identity.present = true ∧
      actor.level < orgLevel db target.sub ∧ target.slug = db.userOrgRoles.find? target.sub := by
  unfold administered at h
  split at h
  · simp at h
  · next sub hsub =>
    split at h
    · simp at h
    · next identity hidentity =>
      split at h
      · simp at h
      · next hchecks =>
        simp only [Except.ok.injEq] at h
        subst h
        simp only [Bool.or_eq_true, Bool.not_eq_true', decide_eq_true_eq, not_or,
          Bool.not_eq_false, not_le] at hchecks
        exact ⟨hsub, hidentity, hchecks.1.1, hchecks.2, rfl⟩

theorem checkOrgRole_ok {db : Db} {actor : Actor} {text : Option JsString} {orgRole : Option Slug}
    (h : checkOrgRole db actor text = .ok orgRole) : ∀ slug ∈ orgRole, ∃ role,
      db.orgRoles.find? slug = some role ∧ actor.level < (role.level : WithTop ℤ) := by
  cases text with
  | none =>
    simp only [checkOrgRole, Except.ok.injEq] at h
    subst h
    simp
  | some text =>
    simp only [checkOrgRole, bind_eq_ok] at h
    obtain ⟨slug, -, h⟩ := h
    split at h
    · next role hrole =>
      split at h
      · simp at h
      · next hlevel =>
        simp only [Except.ok.injEq] at h
        subst h
        rintro _ ⟨⟩
        exact ⟨role, hrole, not_le.mp hlevel⟩
    · simp at h

theorem checkUserAccess_ok {db : Db} {actorSub targetSub : JsString} {changes : Members}
    {change : UserChange} (h : checkUserAccess db actorSub targetSub changes = .ok change) :
    CheckedUser db actorSub targetSub changes change := by
  unfold checkUserAccess at h
  simp only [bind_eq_ok] at h
  obtain ⟨actor, hactor, target, htarget, permissions, -, appRoles, hasked, -, -, -, -, -, -, -, -,
    orgSlug, horg, -, -, appValues, hvalues, u, hinherited, h⟩ := h
  simp only [Except.ok.injEq] at h
  subst h
  obtain ⟨hsub, hidentity, hpresent, hbelow, hslug⟩ := administered_ok htarget
  refine ⟨lockActors_ok hactor, hasked, hsub, hidentity, hpresent, hbelow, hslug, checkOrgRole_ok horg,
    hvalues, ?_⟩
  intro hsome clientId hclient
  have hall := onlyIf_eq_ok.mp hinherited hsome
  rw [checkAll_eq_ok] at hall
  exact hall clientId ((Table.mem_orderedKeys_iff _ _).mpr ((Table.contains_iff _ _).mp hclient))

/-- The checks of a requested value, passed in turn. -/
theorem levels_ok {α : Type} {before resulting own : WithTop ℤ} {e e' : Failure} {x y : α}
    (h : (if before < own then .error e else if resulting < own then .error e' else .ok x) =
      Except.ok y) : own ≤ before ∧ own ≤ resulting ∧ x = y := by
  split at h
  · simp at h
  · next hbefore =>
    split at h
    · simp at h
    · next hresulting => exact ⟨not_lt.mp hbefore, not_lt.mp hresulting, Except.ok.inj h⟩

/-- The same checks where the resulting level has to be strictly below. -/
theorem levels_strict_ok {α : Type} {before resulting own : WithTop ℤ} {e e' : Failure} {x y : α}
    (h : (if before < own then .error e else if resulting ≤ own then .error e' else .ok x) =
      Except.ok y) : own ≤ before ∧ own < resulting ∧ x = y := by
  split at h
  · simp at h
  · next hbefore =>
    split at h
    · simp at h
    · next hresulting => exact ⟨not_lt.mp hbefore, not_le.mp hresulting, Except.ok.inj h⟩

theorem checkAppRole_ok {db : Db} {actor : Actor} {target : Uuid} {newSlug : Option Slug}
    {entry : JsString × Json} {clientId : ClientId} {value : AppValue}
    (h : checkAppRole db actor target newSlug entry = .ok (clientId, value)) :
    entry.1 = clientId ∧ unknownRole db clientId value = false ∧
      actorAppLevel db actor clientId ≤
        appRoleLevel db clientId (effectiveAppRole db target clientId).roleId ∧
      actorAppLevel db actor clientId ≤
        appRoleLevel db clientId (value.stored.getD (orgDefault db newSlug clientId)) := by
  unfold checkAppRole at h
  simp only at h
  split at h
  · simp at h
  · split at h
    · simp at h
    · next asked _ =>
      split at h
      · simp at h
      · next hknown =>
        obtain ⟨hbefore, hresulting, hvalue⟩ := levels_ok h
        obtain ⟨rfl, rfl⟩ := Prod.mk.inj hvalue
        refine ⟨rfl, by simpa using hknown, hbefore, ?_⟩
        cases asked <;> exact hresulting

theorem checkAppDefault_ok {db : Db} {actor : Actor} {slug : Slug} {entry : JsString × Json}
    {clientId : ClientId} {value : AppValue}
    (h : checkAppDefault db actor slug entry = .ok (clientId, value)) :
    param entry.1 = .ok clientId ∧ unknownRole db clientId value = false ∧ ∃ cat, db.appRoleCatalogs.find? clientId = some cat ∧
      actorAppLevel db actor clientId ≤
        appRoleLevel db clientId (orgDefault db (some slug) clientId) ∧
      actorAppLevel db actor clientId ≤
        appRoleLevel db clientId (value.stored.getD cat.defaultRoleId) := by
  unfold checkAppDefault at h
  simp only [bind_eq_ok] at h
  obtain ⟨stored, hstored, h⟩ := h
  split at h
  · simp at h
  · next cat hcat =>
    split at h
    · simp at h
    · next asked _ =>
      split at h
      · simp at h
      · next hknown =>
        obtain ⟨hbefore, hresulting, hvalue⟩ := levels_strict_ok h
        obtain ⟨rfl, rfl⟩ := Prod.mk.inj hvalue
        refine ⟨hstored, by simpa using hknown, cat, hcat, hbefore, ?_⟩
        cases asked <;> exact hresulting.le

/-- App values written one after another under one holder. -/
def writeValues {κ : Type} [DecidableEq κ] (holder : κ) (entries : List (ClientId × AppValue))
    (table : Table (κ × ClientId) (Option ℤ)) : Table (κ × ClientId) (Option ℤ) :=
  entries.foldl (fun t entry => writeOptional t (holder, entry.1) entry.2.stored) table

/-- The state after the writes of a user change, with the permission overrides
they leave. -/
def UserChange.write (change : UserChange) (db : Db)
    (permissions : Table (Uuid × PermKey) Effect) : Db :=
  { db with
    userOrgRoles := change.orgRole.elim db.userOrgRoles (db.userOrgRoles.upsert change.target.sub)
    userPermissionOverrides := permissions
    userAppRoleOverrides :=
      writeValues change.target.sub change.appValues db.userAppRoleOverrides }

/-- The permission overrides of other users than `sub` are the same. -/
def OthersKept (sub : Uuid) (old new : Table (Uuid × PermKey) Effect) : Prop :=
  ∀ other key, other ≠ sub → new.find? (other, key) = old.find? (other, key)

theorem writeOptional_other {κ α : Type} [DecidableEq κ] (table : Table κ α) {key other : κ}
    (hne : other ≠ key) (value : Option α) :
    (writeOptional table key value).find? other = table.find? other := by
  cases value with
  | some v => exact Table.find?_upsert_ne _ _ hne
  | none =>
    simp only [writeOptional, Table.find?_deleteWhere, hne, decide_false, Bool.not_false]
    cases table.find? other <;> rfl

theorem writeOptional_self {κ α : Type} [DecidableEq κ] (table : Table κ α) (key : κ)
    (value : Option α) : (writeOptional table key value).find? key = value := by
  cases value with
  | some v => exact Table.find?_upsert_self _ _ _
  | none =>
    simp only [writeOptional, Table.find?_deleteWhere, decide_true, Bool.not_true]
    cases table.find? key <;> rfl

theorem writeOverride_foldl (sub : Uuid) (entries : List (ClientId × AppValue)) (db : Db) :
    entries.foldl (writeOverride sub) db =
      { db with userAppRoleOverrides := writeValues sub entries db.userAppRoleOverrides } := by
  induction entries generalizing db with
  | nil => rfl
  | cons entry rest ih =>
    rw [List.foldl_cons, ih]
    rfl

theorem writeDefault_foldl (slug : Slug) (entries : List (ClientId × AppValue)) (db : Db) :
    entries.foldl (writeDefault slug) db =
      { db with orgRoleAppDefaults := writeValues slug entries db.orgRoleAppDefaults } := by
  induction entries generalizing db with
  | nil => rfl
  | cons entry rest ih =>
    rw [List.foldl_cons, ih]
    rfl

/-- After writing app values under one holder: other holders and clients that are
not named keep their rows, and a named client has one of the values named for it. -/
theorem writeValues_find {κ : Type} [DecidableEq κ] (holder : κ)
    (entries : List (ClientId × AppValue)) (table : Table (κ × ClientId) (Option ℤ))
    (key : κ × ClientId) :
    (writeValues holder entries table).find? key = table.find? key ∧
        (key.1 ≠ holder ∨ key.2 ∉ entries.map Prod.fst) ∨
      key.1 = holder ∧ ∃ value, (key.2, value) ∈ entries ∧
        (writeValues holder entries table).find? key = value.stored := by
  induction entries generalizing table with
  | nil => exact .inl ⟨rfl, .inr (by simp)⟩
  | cons entry rest ih =>
    rw [writeValues, List.foldl_cons, ← writeValues]
    rcases ih (writeOptional table (holder, entry.1) entry.2.stored) with
      ⟨hsame, hnot⟩ | ⟨hholder, value, hvalue, hstored⟩
    · by_cases hkey : key = (holder, entry.1)
      · right
        subst hkey
        exact ⟨rfl, entry.2, List.mem_cons_self, by rw [hsame, writeOptional_self]⟩
      · left
        refine ⟨by rw [hsame, writeOptional_other _ hkey], ?_⟩
        by_cases hholder : key.1 = holder
        · right
          rw [List.map_cons, List.mem_cons, not_or]
          refine ⟨fun hclient => hkey (Prod.ext hholder hclient), ?_⟩
          exact hnot.resolve_left (not_not.mpr hholder)
        · exact .inl hholder
    · exact .inr ⟨hholder, value, List.mem_cons_of_mem _ hvalue, hstored⟩

theorem writeUserPermissions_ok {sub : Uuid} {entries : Members} {db db' : Db}
    (h : entries.foldlM (writeUserPermission sub) db = .ok db') :
    ∃ permissions, db' = { db with userPermissionOverrides := permissions } ∧
      OthersKept sub db.userPermissionOverrides permissions := by
  refine foldlM_preserves (fun t => ∃ permissions,
    t = { db with userPermissionOverrides := permissions } ∧
      OthersKept sub db.userPermissionOverrides permissions) ?_ h ⟨_, rfl, fun _ _ _ => rfl⟩
  rintro entry - s t ⟨permissions, rfl, hkept⟩ hst
  unfold writeUserPermission at hst
  rw [bind_eq_ok] at hst
  obtain ⟨effect, -, hst⟩ := hst
  refine ⟨_, (Except.ok.inj hst).symm, ?_⟩
  intro other key hne
  rw [← hkept other key hne]
  exact writeOptional_other _ (fun hkey => hne (Prod.mk.inj hkey).1) _

theorem writeUserAccess_ok {db written : Db} {change : UserChange}
    (h : writeUserAccess db change = .ok written) : ∃ permissions,
      written = change.write db permissions ∧
        OthersKept change.target.sub db.userPermissionOverrides permissions := by
  unfold writeUserAccess at h
  rw [bind_eq_ok] at h
  obtain ⟨permitted, hpermitted, h⟩ := h
  obtain ⟨permissions, rfl, hkept⟩ := writeUserPermissions_ok hpermitted
  simp only [Except.ok.injEq] at h
  rw [writeOverride_foldl] at h
  subst h
  refine ⟨permissions, ?_, ?_⟩
  · cases horg : change.orgRole <;> simp [UserChange.write, horg]
  · cases horg : change.orgRole with
    | none => simpa only [horg] using hkept
    | some slug => simpa only [horg] using hkept

/-- A committed change of a user: checked, written, published and audited. -/
theorem applyUserAccess_ok {env : Surroundings} {db db' : Db} {actorSub targetSub : JsString}
    {changes : Members} {action : JsString}
    (h : applyUserAccess env db actorSub targetSub changes action = .ok db') :
    ∃ change permissions published log, CheckedUser db actorSub targetSub changes change ∧
      OthersKept change.target.sub db.userPermissionOverrides permissions ∧
      publishIf (change.orgRole.isSome || !change.appValues.isEmpty) env
        (change.write db permissions) (changedClients db change) (some [change.target.sub]) =
          .ok published ∧
      db' = { published with orgAuditLog := log } := by
  unfold applyUserAccess at h
  simp only [bind_eq_ok] at h
  obtain ⟨change, hchange, written, hwritten, published, hpublished, haudit⟩ := h
  obtain ⟨log, rfl⟩ := writeAudit_ok haudit
  obtain ⟨permissions, rfl, hkept⟩ := writeUserAccess_ok hwritten
  exact ⟨change, permissions, published, log, checkUserAccess_ok hchange, hkept, hpublished, rfl⟩

/-- A checked change of an org role. -/
structure CheckedRole (db : Db) (actorSub slug : JsString) (changes : Members)
    (change : RoleChange) : Prop where
  actor : CheckedActor db actorSub change.actor
  slug : param slug = .ok change.slug
  asked : mapArgument (Json.member? changes (js "app_defaults")) = .ok change.defaults
  below : ∃ role, db.orgRoles.find? change.slug = some role ∧
    change.actor.level < (role.level : WithTop ℤ)
  appValues : change.defaults.mapM (checkAppDefault db change.actor change.slug) =
    .ok change.appValues

theorem roleBelow_ok {db : Db} {actor : Actor} {slug : JsString} {found : Slug × OrgRole}
    (h : roleBelow db actor slug = .ok found) :
    param slug = .ok found.1 ∧ db.orgRoles.find? found.1 = some found.2 ∧
      actor.level < (found.2.level : WithTop ℤ) := by
  unfold roleBelow at h
  rw [bind_eq_ok] at h
  obtain ⟨stored, hstored, h⟩ := h
  split at h
  · simp at h
  · next role hrole =>
    split at h
    · simp at h
    · next hlevel =>
      simp only [Except.ok.injEq] at h
      subst h
      exact ⟨hstored, hrole, not_le.mp hlevel⟩

theorem checkRoleAccess_ok {db : Db} {actorSub slug : JsString} {changes : Members}
    {change : RoleChange} (h : checkRoleAccess db actorSub slug changes = .ok change) :
    CheckedRole db actorSub slug changes change := by
  unfold checkRoleAccess at h
  simp only [bind_eq_ok] at h
  obtain ⟨actor, hactor, role, hrole, permissions, -, defaults, hasked, -, -, -, -, -, -, -, -, -, -,
    appValues, hvalues, h⟩ := h
  simp only [Except.ok.injEq] at h
  subst h
  obtain ⟨hslug, hfound, hbelow⟩ := roleBelow_ok hrole
  exact ⟨lockActors_ok hactor, hslug, hasked, ⟨role.2, hfound, hbelow⟩, hvalues⟩

/-- The rows of other org roles than `slug` are the same. -/
def RowsKept {κ α : Type} [DecidableEq κ] (slug : Slug) (old new : Table (Slug × κ) α) : Prop :=
  ∀ other key, other ≠ slug → new.find? (other, key) = old.find? (other, key)

/-- The state after the writes of a role change, with the role permissions they leave. -/
def RoleChange.write (change : RoleChange) (db : Db)
    (permissions : Table (Slug × PermKey) Effect) : Db :=
  { db with
    rolePermissions := permissions
    orgRoleAppDefaults := writeValues change.slug change.appValues db.orgRoleAppDefaults }

theorem writeRoleAccess_ok {db written : Db} {change : RoleChange}
    (h : writeRoleAccess db change = .ok written) : ∃ permissions,
      written = change.write db permissions ∧
        RowsKept change.slug db.rolePermissions permissions := by
  unfold writeRoleAccess at h
  rw [bind_eq_ok] at h
  obtain ⟨permitted, hpermitted, h⟩ := h
  have hwritten : ∃ permissions, permitted = { db with rolePermissions := permissions } ∧
      RowsKept change.slug db.rolePermissions permissions := by
    refine foldlM_preserves (fun t => ∃ permissions,
      t = { db with rolePermissions := permissions } ∧
        RowsKept change.slug db.rolePermissions permissions) ?_ hpermitted
      ⟨_, rfl, fun _ _ _ => rfl⟩
    rintro entry - s t ⟨permissions, rfl, hkept⟩ hst
    unfold writeRolePermission at hst
    rw [bind_eq_ok] at hst
    obtain ⟨effect, -, hst⟩ := hst
    refine ⟨_, (Except.ok.inj hst).symm, ?_⟩
    intro other key hne
    rw [← hkept other key hne]
    exact writeOptional_other _ (fun hkey => hne (Prod.mk.inj hkey).1) _
  obtain ⟨permissions, rfl, hkept⟩ := hwritten
  simp only [Except.ok.injEq] at h
  rw [writeDefault_foldl] at h
  exact ⟨permissions, h.symm, hkept⟩

theorem applyRoleAccess_ok {env : Surroundings} {db db' : Db} {actorSub slug : JsString}
    {changes : Members} {action : JsString}
    (h : applyRoleAccess env db actorSub slug changes action = .ok db') :
    ∃ change permissions published log, CheckedRole db actorSub slug changes change ∧
      RowsKept change.slug db.rolePermissions permissions ∧
      publishIf (!change.appValues.isEmpty) env (change.write db permissions)
        (change.appValues.map Prod.fst) none = .ok published ∧
      db' = { published with orgAuditLog := log } := by
  unfold applyRoleAccess at h
  simp only [bind_eq_ok] at h
  obtain ⟨change, hchange, written, hwritten, published, hpublished, haudit⟩ := h
  obtain ⟨log, rfl⟩ := writeAudit_ok haudit
  obtain ⟨permissions, rfl, hkept⟩ := writeRoleAccess_ok hwritten
  exact ⟨change, permissions, published, log, checkRoleAccess_ok hchange, hkept, hpublished, rfl⟩

/-- Every row has the value of an old row of some org role. -/
def RowsCopied {κ α : Type} [DecidableEq κ] (old new : Table (Slug × κ) α) : Prop :=
  ∀ slug key value, new.find? (slug, key) = some value →
    ∃ source, old.find? (source, key) = some value

theorem copyRows_copied {κ α : Type} [DecidableEq κ] {table copied : Table (Slug × κ) α}
    {source target : Slug} (h : copyRows table source target = .ok copied) :
    RowsCopied table copied := by
  refine foldlM_preserves (RowsCopied table) ?_ h fun slug _ _ hold => ⟨slug, hold⟩
  intro row hrow s t hs hst
  split at hst
  · next t' hnew =>
    obtain ⟨-, rfl⟩ := (Table.insertNew_eq_some _ _ _ _).mp hnew
    rw [← Except.ok.inj hst]
    intro slug key value hvalue
    rw [Table.find?_upsert] at hvalue
    split at hvalue
    · next hkey =>
      refine ⟨row.1.1, (Table.mem_rows_iff _ _ _).mp ?_⟩
      rw [← Option.some.inj hvalue, (Prod.mk.inj hkey).2]
      exact List.mem_of_mem_filter hrow
    · exact hs slug key value hvalue
  · simp at hst

theorem copyRows_ok {κ α : Type} [DecidableEq κ] {table copied : Table (Slug × κ) α}
    {source target : Slug} (h : copyRows table source target = .ok copied) :
    RowsKept target table copied := by
  refine foldlM_preserves (RowsKept target table) ?_ h fun _ _ _ => rfl
  intro row _ s t hs hst
  split at hst
  · next t' hnew =>
    obtain ⟨-, rfl⟩ := (Table.insertNew_eq_some _ _ _ _).mp hnew
    rw [← Except.ok.inj hst]
    intro other key hne
    rw [Table.find?_upsert_ne _ _ fun hkey => hne (Prod.mk.inj hkey).1]
    exact hs other key hne
  · simp at hst

/-- A new org role ranks strictly below its creator. -/
theorem createOrgRole_ok {db db' : Db} {actorSub : JsString} {body : Members} {slug : Slug}
    (h : createOrgRole db actorSub body = .ok (slug, db')) :
    ∃ actor role rolePermissions orgRoleAppDefaults log, CheckedActor db actorSub actor ∧
      db.orgRoles.find? slug = none ∧ actor.level < (role.level : WithTop ℤ) ∧
      RowsKept slug db.rolePermissions rolePermissions ∧
      RowsKept slug db.orgRoleAppDefaults orgRoleAppDefaults ∧
      RowsCopied db.orgRoleAppDefaults orgRoleAppDefaults ∧
      db' = { db with
        orgRoles := db.orgRoles.upsert slug role
        rolePermissions := rolePermissions
        orgRoleAppDefaults := orgRoleAppDefaults
        orgAuditLog := log } := by
  unfold createOrgRole at h
  rw [bind_eq_ok] at h
  obtain ⟨actor, hactor, h⟩ := h
  rw [bind_eq_ok] at h
  obtain ⟨-, -, h⟩ := h
  simp only at h
  split at h
  · next n hn herrors =>
    simp only [bind_eq_ok, failIf_eq_ok] at h
    obtain ⟨-, hnew, -, -, label, -, rolePermissions, hpermissions, defaults, hdefaults, audited,
      haudit, h⟩ := h
    simp only [Except.ok.injEq, Prod.mk.injEq] at h
    obtain ⟨rfl, rfl⟩ := h
    obtain ⟨log, rfl⟩ := writeAudit_ok haudit
    refine ⟨actor, ⟨label, (n : ℤ), false⟩, rolePermissions, defaults, log, lockActors_ok hactor, ?_, ?_,
      copyRows_ok hpermissions, copyRows_ok hdefaults, copyRows_copied hdefaults, rfl⟩
    · simpa [Table.contains] using hnew
    · simp only [createErrors, hn, List.append_eq_nil_iff] at herrors
      by_contra hlevel
      rw [if_pos (not_lt.mp hlevel)] at herrors
      simp at herrors
  · simp at h

theorem patchLevel_ok {actor : Actor} {body : Members} {level : Option ℕ}
    (h : patchLevel actor body = .ok level) :
    ∀ n ∈ level, actor.level < ((n : ℤ) : WithTop ℤ) := by
  unfold patchLevel at h
  split at h
  · rw [← Except.ok.inj h]
    simp
  · rw [bind_eq_ok] at h
    obtain ⟨-, -, h⟩ := h
    split at h
    · split at h
      · simp at h
      · next hlevel =>
        rw [← Except.ok.inj h]
        rintro _ ⟨⟩
        exact not_le.mp hlevel
    · simp at h

theorem patchOrgRole_ok {db db' : Db} {actorSub slug : JsString} {body : Members}
    (h : patchOrgRole db actorSub slug body = .ok db') :
    ∃ actor stored role edited log, CheckedActor db actorSub actor ∧
      db.orgRoles.find? stored = some role ∧ actor.level < (role.level : WithTop ℤ) ∧
      actor.level < (edited.level : WithTop ℤ) ∧
      db' = { db with orgRoles := db.orgRoles.upsert stored edited, orgAuditLog := log } := by
  unfold patchOrgRole at h
  simp only [bind_eq_ok] at h
  obtain ⟨actor, hactor, ⟨stored, role⟩, hrole, label, -, level, hlevel, -, -, text, -, haudit⟩ := h
  obtain ⟨-, hfound, hbelow⟩ := roleBelow_ok hrole
  obtain ⟨log, rfl⟩ := writeAudit_ok haudit
  refine ⟨actor, stored, role, _, log, lockActors_ok hactor, hfound, hbelow, ?_, rfl⟩
  cases level with
  | none => exact hbelow
  | some n => exact patchLevel_ok hlevel n rfl

/-- Nobody has an org role that is deleted. -/
theorem deleteOrgRole_ok {db db' : Db} {actorSub slug : JsString}
    (h : deleteOrgRole db actorSub slug = .ok db') :
    ∃ actor stored log, CheckedActor db actorSub actor ∧
      (∀ sub, db.userOrgRoles.find? sub ≠ some stored) ∧
      db' = { dropOrgRole db stored with orgAuditLog := log } := by
  unfold deleteOrgRole at h
  simp only [bind_eq_ok] at h
  obtain ⟨actor, hactor, -, -, stored, -, h⟩ := h
  split at h
  · simp at h
  · next role hrole =>
    simp only [bind_eq_ok, failIf_eq_ok] at h
    obtain ⟨-, -, -, -, -, hmembers, -, -, haudit⟩ := h
    obtain ⟨log, rfl⟩ := writeAudit_ok haudit
    refine ⟨actor, stored, log, lockActors_ok hactor, ?_, rfl⟩
    intro sub hsub
    have hfree := (Table.any_eq_false_iff _ _).mp hmembers sub stored hsub
    simp at hfree

theorem setDefaultOrgRole_ok {db db' : Db} {actorSub slug : JsString}
    (h : setDefaultOrgRole db actorSub slug = .ok db') :
    ∃ settings log, db' = { db with settings := settings, orgAuditLog := log } := by
  unfold setDefaultOrgRole at h
  simp only [bind_eq_ok] at h
  obtain ⟨actor, -, -, -, ⟨stored, role⟩, -, haudit⟩ := h
  obtain ⟨log, rfl⟩ := writeAudit_ok haudit
  exact ⟨_, log, rfl⟩

theorem insertIdentity_ok {env : Surroundings} {db db' : Db} {input : PreparedOrgUser} {sub : Uuid}
    (h : insertIdentity env db input = .ok (sub, db')) :
    uuidParam input.sub = .ok sub ∧ db.identities.find? sub = none ∧ ∃ identity : Identity, identity.present = true ∧
      db' = { db with identities := db.identities.upsert sub identity } := by
  unfold insertIdentity at h
  simp only [bind_eq_ok] at h
  obtain ⟨stored, hstored, username, -, displayName, -, email, -, passwordHash, -, h⟩ := h
  split at h
  · simp at h
  · next hfree =>
    split at h
    · simp at h
    · simp only [Except.ok.injEq, Prod.mk.injEq] at h
      obtain ⟨rfl, rfl⟩ := h
      simp only [Bool.or_eq_true, not_or, Table.contains, Option.not_isSome_iff_eq_none] at hfree
      exact ⟨hstored, hfree.1, _, rfl, rfl⟩

/-- A new user is new to the identities and to the memberships, and its org role
ranks strictly below the actor. -/
theorem createOrgUser_ok {env : Surroundings} {db db' : Db} {actorSub : JsString}
    {input : PreparedOrgUser} (h : createOrgUser env db actorSub input = .ok db') :
    ∃ actor sub slug role identity log, CheckedActor db actorSub actor ∧
      uuidParam input.sub = .ok sub ∧ param input.roleSlug = .ok slug ∧
      db.orgRoles.find? slug = some role ∧ actor.level < (role.level : WithTop ℤ) ∧
      db.identities.find? sub = none ∧ db.userOrgRoles.find? sub = none ∧
      identity.present = true ∧
      db' = { db with
        identities := db.identities.upsert sub identity
        userOrgRoles := db.userOrgRoles.upsert sub slug
        orgAuditLog := log } := by
  unfold createOrgUser at h
  simp only [bind_eq_ok] at h
  obtain ⟨actor, hactor, -, -, slug, hslug, h⟩ := h
  split at h
  · simp at h
  · next role hrole =>
    simp only [bind_eq_ok, failIf_eq_ok] at h
    obtain ⟨-, hlevel, ⟨sub, created⟩, hidentity, h⟩ := h
    obtain ⟨hsub, hnew, identity, hpresent, rfl⟩ := insertIdentity_ok hidentity
    split at h
    · simp at h
    · next userOrgRoles hmember =>
      obtain ⟨hfree, rfl⟩ := (Table.insertNew_eq_some _ _ _ _).mp hmember
      obtain ⟨log, rfl⟩ := writeAudit_ok h
      exact ⟨actor, sub, slug, role, identity, log, lockActors_ok hactor, hsub, hslug, hrole,
        not_le.mp (of_decide_eq_false hlevel), hnew, hfree, hpresent, rfl⟩

end DreamSso
