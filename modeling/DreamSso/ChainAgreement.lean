import DreamSso.AccessState
import DreamSso.RoleChanges

/-!
The override, org default and catalog default chain is written four times: in
the role check at login, in the access-state statement, in the publication query
and in the default of an org role. The four agree.
-/
namespace DreamSso

open JsStrings KeyedTables

theorem effectiveAppRole_override {db : Db} {sub : Uuid} {clientId : ClientId}
    {roleId : Option ℤ} (h : db.userAppRoleOverrides.find? (sub, clientId) = some roleId) :
    effectiveAppRole db sub clientId = ⟨roleId, .override⟩ := by
  simp [effectiveAppRole, h]

theorem effectiveAppRole_org {db : Db} {sub : Uuid} {clientId : ClientId} {roleId : Option ℤ}
    (hnone : db.userAppRoleOverrides.find? (sub, clientId) = none)
    (h : orgLayer db sub clientId = some roleId) :
    effectiveAppRole db sub clientId = ⟨roleId, .org⟩ := by
  simp [effectiveAppRole, hnone, h]

theorem rawRole_eq {db : Db} {cat : AppRoleCatalog} {clientId : ClientId}
    (h : db.appRoleCatalogs.find? clientId = some cat) (sub : Uuid) :
    rawRole db cat clientId sub = (effectiveAppRole db sub clientId).roleId := by
  unfold rawRole effectiveAppRole
  cases db.userAppRoleOverrides.find? (sub, clientId) with
  | some roleId => rfl
  | none =>
    cases orgLayer db sub clientId with
    | some roleId => rfl
    | none => simp [h]

theorem resolvedRow_role {db : Db} {clientId : ClientId}
    (h : hasAppCatalog db clientId = true) (sub : Uuid) :
    (resolvedRow db clientId sub).roleId = (effectiveAppRole db sub clientId).roleId ∧
      (resolvedRow db clientId sub).roleSource = (effectiveAppRole db sub clientId).source := by
  obtain ⟨cat, hcat⟩ := (Table.contains_iff _ _).mp h
  unfold resolvedRow effectiveAppRole orgLayer
  cases hover : db.userAppRoleOverrides.find? (sub, clientId) with
  | some roleId => exact ⟨rfl, rfl⟩
  | none =>
    cases horg : (db.userOrgRoles.find? sub).bind fun slug =>
        db.orgRoleAppDefaults.find? (slug, clientId) with
    | some roleId => exact ⟨rfl, rfl⟩
    | none => simp [hcat]

theorem orgDefault_eq {db : Db} {clientId : ClientId} (h : hasAppCatalog db clientId = true)
    {sub : Uuid} (hnone : db.userAppRoleOverrides.find? (sub, clientId) = none) :
    orgDefault db (db.userOrgRoles.find? sub) clientId =
      (effectiveAppRole db sub clientId).roleId := by
  obtain ⟨cat, hcat⟩ := (Table.contains_iff _ _).mp h
  unfold orgDefault effectiveAppRole orgLayer
  simp only [hcat, hnone]
  split <;> rfl

/-- An active user is allowed by the snapshot exactly when sign-in allows it. -/
theorem accessState_allowed {db : Db} {clientId : ClientId} {sub : Uuid} {i : Identity}
    (hi : db.identities.find? sub = some i) (hlive : i.deletedAt = none)
    (hactive : i.status = .active) :
    (accessState (resolvedRow db clientId sub)).allowed = appAccessAllowed db clientId sub := by
  have hstatus : accountState (resolvedRow db clientId sub) = .active := by
    simp [accountState, resolvedRow, hi, hlive, hactive]
  have hsynced : (resolvedRow db clientId sub).catalogSynced = hasAppCatalog db clientId := rfl
  unfold accessState appAccessAllowed
  simp only [hstatus, hsynced]
  cases hcat : hasAppCatalog db clientId with
  | false => simp
  | true =>
    have hrole := (resolvedRow_role hcat sub).1
    have hexists : (resolvedRow db clientId sub).roleExists =
        (resolvedRow db clientId sub).roleId.any fun id => db.appRoles.contains (clientId, id) := rfl
    rw [hexists, hrole]
    cases (effectiveAppRole db sub clientId).roleId with
    | none => simp
    | some id => cases hid : db.appRoles.contains (clientId, id) <;> simp [hid]

theorem accessState_role {db : Db} {clientId : ClientId} {sub : Uuid} {i : Identity}
    (hi : db.identities.find? sub = some i) (h : hasAppCatalog db clientId = true) :
    (accessState (resolvedRow db clientId sub)).roleId =
        (effectiveAppRole db sub clientId).roleId ∧
      (accessState (resolvedRow db clientId sub)).roleSource =
        (effectiveAppRole db sub clientId).source := by
  have hfound : accountState (resolvedRow db clientId sub) ≠ .notFound := by
    simp only [accountState, resolvedRow, hi]
    split
    · simp
    · split <;> simp
  have hsynced : (resolvedRow db clientId sub).catalogSynced = true := h
  obtain ⟨hrole, hsource⟩ := resolvedRow_role h sub
  simp [accessState, hfound, hsynced, hrole, hsource]

/-- For an enabled client the read fails only over a missing authority row. -/
theorem readAccessStateSnapshot_enabled {db : Db} {clientId : ClientId} {client : OauthClient}
    (hclient : db.oauthClients.find? clientId = some client) (henabled : client.disabledAt = none)
    {subjects : List Uuid} (hne : subjects ≠ []) :
    readAccessStateSnapshot db clientId subjects =
      if hasAppCatalog db clientId then
        match db.appRoleSyncState.find? clientId with
        | none => .error snapshotUnavailable
        | some a => .ok ⟨subjects.map fun sub => accessState (resolvedRow db clientId sub),
            some ⟨a.authorityEpoch, a.authorityRevision⟩⟩
      else .ok ⟨subjects.map fun sub => accessState (resolvedRow db clientId sub), none⟩ := by
  have hrows : accessStateRows db clientId subjects = subjects.map (resolvedRow db clientId) := by
    simp [accessStateRows, hclient, henabled]
  have hsynced : ((subjects.map (resolvedRow db clientId)).any fun row => row.catalogSynced) =
      hasAppCatalog db clientId := by
    obtain ⟨first, rest, rfl⟩ := List.exists_cons_of_ne_nil hne
    have hall : ∀ sub, (resolvedRow db clientId sub).catalogSynced = hasAppCatalog db clientId :=
      fun _ => rfl
    cases hcat : hasAppCatalog db clientId <;> simp [hall, hcat]
  have hauthority : ∀ sub, (resolvedRow db clientId sub).authority =
      (db.appRoleSyncState.find? clientId).map fun a =>
        ⟨a.authorityEpoch, a.authorityRevision⟩ := fun _ => rfl
  unfold readAccessStateSnapshot
  simp only [hrows, hsynced, List.map_map, Function.comp_def]
  cases hcat : hasAppCatalog db clientId with
  | false => simp
  | true =>
    obtain ⟨first, rest, rfl⟩ := List.exists_cons_of_ne_nil hne
    cases hstate : db.appRoleSyncState.find? clientId with
    | none => simp [hauthority, hstate]
    | some a =>
      have hrange := a.inRange
      simp [hauthority, hstate, Nat.not_lt.mpr hrange]

/-- The publication query has one row for a user it covers. -/
theorem effectiveRow_mem {db : Db} {clientId : ClientId} {cat : AppRoleCatalog}
    (hcat : db.appRoleCatalogs.find? clientId = some cat) {sub : Uuid}
    (hpresent : presentIdentity db sub = true) {subjects : Option (List Uuid)}
    (hsubjects : ∀ list ∈ subjects, sub ∈ list) (row : EffectiveRow) :
    row ∈ effectiveRows db clientId subjects ∧ row.userSub = sub ↔
      row = effectiveRow db cat clientId sub := by
  have hmem : sub ∈ publishedSubjects db subjects := by
    obtain ⟨i, hi, -⟩ := (Option.any_eq_true _ _).mp hpresent
    simp only [publishedSubjects, List.mem_filter, Table.mem_orderedKeys_iff, Bool.and_eq_true]
    refine ⟨⟨i, hi⟩, hpresent, ?_⟩
    cases subjects with
    | none => rfl
    | some list => simpa using hsubjects list rfl
  simp only [effectiveRows, hcat, List.mem_map]
  constructor
  · rintro ⟨⟨other, -, rfl⟩, rfl⟩
    rfl
  · rintro rfl
    exact ⟨⟨sub, hmem, rfl⟩, rfl⟩

/-- The read fails exactly when the client has a catalog but no authority row;
where it succeeds the four chains agree on every active user. -/
theorem chain_agreement {db : Db} {clientId : ClientId} {client : OauthClient} {sub : Uuid}
    {i : Identity} {subjects : List Uuid}
    (hclient : db.oauthClients.find? clientId = some client) (henabled : client.disabledAt = none)
    (hi : db.identities.find? sub = some i) (hlive : i.deletedAt = none)
    (hactive : i.status = .active) (hsub : sub ∈ subjects) :
    (readAccessStateSnapshot db clientId subjects = .error snapshotUnavailable ↔
      hasAppCatalog db clientId = true ∧ db.appRoleSyncState.find? clientId = none) ∧
    (∀ snapshot, readAccessStateSnapshot db clientId subjects = .ok snapshot →
      (∃ state ∈ snapshot.states, state.sub = sub) ∧
      ∀ state ∈ snapshot.states, state.sub = sub →
        state.allowed = appAccessAllowed db clientId sub ∧
        (hasAppCatalog db clientId = true →
          state.roleId = (effectiveAppRole db sub clientId).roleId ∧
          state.roleSource = (effectiveAppRole db sub clientId).source)) ∧
    (∀ roleId, db.userAppRoleOverrides.find? (sub, clientId) = some roleId →
      effectiveAppRole db sub clientId = ⟨roleId, .override⟩) ∧
    (∀ roleId, db.userAppRoleOverrides.find? (sub, clientId) = none →
      orgLayer db sub clientId = some roleId →
      effectiveAppRole db sub clientId = ⟨roleId, .org⟩) ∧
    (hasAppCatalog db clientId = true →
      (∀ published : Option (List Uuid), (∀ list ∈ published, sub ∈ list) →
        (∃ row ∈ effectiveRows db clientId published, row.userSub = sub) ∧
        ∀ row ∈ effectiveRows db clientId published, row.userSub = sub →
          row.roleId = knownRole db clientId (effectiveAppRole db sub clientId).roleId) ∧
      (db.userAppRoleOverrides.find? (sub, clientId) = none →
        orgDefault db (db.userOrgRoles.find? sub) clientId =
          (effectiveAppRole db sub clientId).roleId)) := by
  have hread := readAccessStateSnapshot_enabled hclient henabled (List.ne_nil_of_mem hsub)
  have hstates : ∀ snapshot, readAccessStateSnapshot db clientId subjects = .ok snapshot →
      snapshot.states = subjects.map fun s => accessState (resolvedRow db clientId s) := by
    intro snapshot hok
    rw [hread] at hok
    split at hok
    · split at hok
      · simp at hok
      · exact (Except.ok.inj hok) ▸ rfl
    · exact (Except.ok.inj hok) ▸ rfl
  refine ⟨?_, ?_, fun _ => effectiveAppRole_override, fun _ => effectiveAppRole_org, ?_⟩
  · rw [hread]
    cases hcat : hasAppCatalog db clientId with
    | false => simp
    | true => cases hstate : db.appRoleSyncState.find? clientId <;> simp
  · intro snapshot hok
    rw [hstates snapshot hok]
    refine ⟨⟨_, List.mem_map_of_mem hsub, rfl⟩, ?_⟩
    intro state hstate hsame
    obtain ⟨other, -, rfl⟩ := List.mem_map.mp hstate
    obtain rfl : other = sub := hsame
    exact ⟨accessState_allowed hi hlive hactive, accessState_role hi⟩
  · intro hcatalog
    obtain ⟨cat, hcat⟩ := (Table.contains_iff _ _).mp hcatalog
    have hpresent : presentIdentity db sub = true := by
      simp [presentIdentity, hi, Identity.present, hlive]
    refine ⟨?_, orgDefault_eq hcatalog⟩
    intro published hpublished
    have hrow := effectiveRow_mem hcat hpresent hpublished
    have hself := (hrow (effectiveRow db cat clientId sub)).mpr rfl
    refine ⟨⟨_, hself.1, hself.2⟩, ?_⟩
    intro row hmem hsame
    rw [(hrow row).mp ⟨hmem, hsame⟩, ← rawRole_eq hcat]
    rfl

/-- A client with one role, which is its default, and one active user. -/
def oneRoleDb : Db :=
  { Db.empty with
    oauthClients := (∅ : Table ClientId OauthClient).upsert (js "app") ⟨js "App", none, none⟩
    identities := (∅ : Table Uuid Identity).upsert (Uuid.numbered 1)
      ⟨js "ann", js "Ann", none, false, none, none, .active, none⟩
    appRoles := (∅ : Table (ClientId × ℤ) AppRole).upsert (js "app", 1) ⟨js "user", 10, false⟩
    appRoleCatalogs := (∅ : Table ClientId AppRoleCatalog).upsert (js "app") ⟨some 1, 0⟩ }

/-- Without its authority row the client admits the user but has no snapshot. -/
theorem allowed_without_snapshot :
    ¬∀ (db : Db) (clientId : ClientId) (client : OauthClient) (sub : Uuid) (i : Identity),
      db.oauthClients.find? clientId = some client → client.disabledAt = none →
      db.identities.find? sub = some i → i.deletedAt = none → i.status = .active →
      (appAccessAllowed db clientId sub = true ↔
        ∃ snapshot, readAccessStateSnapshot db clientId [sub] = .ok snapshot ∧
          ∃ state ∈ snapshot.states, state.sub = sub ∧ state.allowed = true) := by
  intro h
  have hread : readAccessStateSnapshot oneRoleDb (js "app") [Uuid.numbered 1] =
      .error snapshotUnavailable := by decide +kernel
  have hagree := h oneRoleDb (js "app") ⟨js "App", none, none⟩ (Uuid.numbered 1)
    ⟨js "ann", js "Ann", none, false, none, none, .active, none⟩ (by decide +kernel) rfl
    (by decide +kernel) rfl rfl
  obtain ⟨snapshot, hok, -⟩ := hagree.mp (by decide +kernel)
  rw [hread] at hok
  simp at hok

/-- The same database with the authority row of its client. -/
def oneAuthorityDb : Db :=
  { oneRoleDb with
    appRoleSyncState := (∅ : Table ClientId RoleSyncState).upsert (js "app")
      ⟨.legacy, none, 0, Uuid.numbered 2, 0, Nat.zero_le _⟩ }

theorem chain_agreement_oneAuthority :
    ∃ snapshot, readAccessStateSnapshot oneAuthorityDb (js "app") [Uuid.numbered 1] =
      .ok snapshot ∧ ∃ state ∈ snapshot.states, state.sub = Uuid.numbered 1 := by
  have hagree := @chain_agreement oneAuthorityDb (js "app") ⟨js "App", none, none⟩
    (Uuid.numbered 1) ⟨js "ann", js "Ann", none, false, none, none, .active, none⟩
    [Uuid.numbered 1] (by decide +kernel) rfl (by decide +kernel) rfl rfl List.mem_cons_self
  have hok : (readAccessStateSnapshot oneAuthorityDb (js "app")
      [Uuid.numbered 1]).toOption.isSome = true := by decide +kernel
  cases hread : readAccessStateSnapshot oneAuthorityDb (js "app") [Uuid.numbered 1] with
  | error failure => simp [hread, Except.toOption] at hok
  | ok snapshot => exact ⟨snapshot, rfl, (hagree.2.1 snapshot hread).1⟩

end DreamSso
