import DreamSso.RoleUpgrade
import DreamSso.RoleSteps

/-!
The baseline of the upgrade and the running publisher. The migration resolves the
role chain in one statement over all users and clients, the publisher one client at
a time; both read the same layers, so a publication after the upgrade finds every
ledger row as it would write it.
-/
namespace DreamSso.Upgrade

open JsStrings JsonValues KeyedTables Fallible

section Statements

variable {κ α : Type} [DecidableEq κ] {constraint : String} {referenced : κ → Bool}
  {t t' : Table κ α} {rows : List (κ × α)}

theorem insertReferenced_ok (h : insertReferenced constraint referenced t rows = .ok t') :
    t' = t.insertAll rows := by
  unfold insertReferenced at h
  split at h
  · simpa using h.symm
  · simp at h

theorem insertReferenced_total (h : ∀ r ∈ rows, referenced r.1 = true) :
    insertReferenced constraint referenced t rows = .ok (t.insertAll rows) := by
  refine if_pos (List.all_eq_true.mpr ?_)
  intro r hr
  rw [h r hr, Bool.or_true]

theorem insertReferenced_taken (h : ∀ r ∈ rows, t.contains r.1 = true) :
    insertReferenced constraint referenced t rows = .ok t := by
  unfold insertReferenced
  rw [if_pos, Table.insertAll_taken h]
  refine List.all_eq_true.mpr ?_
  intro r hr
  rw [h r hr, Bool.true_or]

end Statements

section Requests

variable {env : Surroundings} {o o' : UpgradedOutbox} {clientId : ClientId}

/-- An unanswered request of the upgrade to one of the peers. -/
structure Requested (peers : List ClientId) (e : PlainEvent) : Prop where
  kind : e.kind = syncRequestType
  payload : e.payload = upgradePayload
  status : e.status = .pending
  target : ∃ c ∈ peers, e.targetClientId = some c

theorem insertRequest_ok (h : insertRequest env o clientId = .ok o') :
    o'.rows = o.rows ++ [upgradeRequest env o clientId] ∧
      o'.nextSequence = o.nextSequence + 1 := by
  unfold insertRequest at h
  split at h
  · simp at h
  · simp only [Except.ok.injEq] at h
    subst h
    exact ⟨rfl, rfl⟩

theorem upgradeReason_payload : upgradeReason upgradePayload = true := by decide

theorem isUpgradeRequest_added (c : ClientId) :
    isUpgradeRequest c (upgradeRequest env o clientId).toPlainEvent = decide (clientId = c) := by
  unfold isUpgradeRequest upgradeRequest
  simp [upgradeReason_payload]

theorem insertRequests_rows {peers : List ClientId}
    (h : peers.foldlM (insertRequest env) o = .ok o') :
    ∃ added, o'.rows = o.rows ++ added ∧ ∀ e ∈ added, Requested peers e.toPlainEvent := by
  refine foldlM_preserves (fun u : UpgradedOutbox =>
    ∃ added, u.rows = o.rows ++ added ∧ ∀ e ∈ added, Requested peers e.toPlainEvent)
    ?_ h ⟨[], by simp, by simp⟩
  rintro c hc u u' ⟨added, hrows, hadded⟩ hinsert
  refine ⟨added ++ [upgradeRequest env u c], ?_, ?_⟩
  · rw [(insertRequest_ok hinsert).1, hrows, List.append_assoc]
  · intro e he
    rcases List.mem_append.mp he with hold | hnew
    · exact hadded e hold
    · rw [List.mem_singleton] at hnew
      exact hnew ▸ ⟨rfl, rfl, rfl, c, hc, rfl⟩

def requestCount (o : UpgradedOutbox) (c : ClientId) : ℕ :=
  o.rows.countP fun e => isUpgradeRequest c e.toPlainEvent

theorem insertRequests_count {peers : List ClientId}
    (h : peers.foldlM (insertRequest env) o = .ok o') (c : ClientId) :
    requestCount o' c = requestCount o c + peers.count c := by
  induction peers generalizing o with
  | nil =>
    simp only [List.foldlM_nil, pure, Except.pure, Except.ok.injEq] at h
    simp [h]
  | cons first rest ih =>
    rw [List.foldlM_cons, bind_eq_ok] at h
    obtain ⟨mid, hmid, hrest⟩ := h
    have hone : requestCount mid c = requestCount o c + if first = c then 1 else 0 := by
      unfold requestCount
      rw [(insertRequest_ok hmid).1, List.countP_append, List.countP_singleton,
        isUpgradeRequest_added]
      simp
    rw [ih hrest, hone, List.count_cons]
    by_cases hc : first = c
    · simp [hc]
      omega
    · simp [hc]

/-- The ids still to be drawn and the stored ones are all different. -/
def FreshIds (env : Surroundings) (o : UpgradedOutbox) (n : ℕ) : Prop :=
  ((List.range' o.nextSequence n).map env.eventId ++ o.rows.map fun e => e.id).Nodup

theorem FreshIds.insertRequest {n : ℕ} (h : FreshIds env o (n + 1)) (clientId : ClientId) :
    ∃ o', insertRequest env o clientId = .ok o' ∧ FreshIds env o' n := by
  unfold FreshIds at h
  rw [List.range'_succ, List.map_cons, List.cons_append, List.nodup_cons] at h
  obtain ⟨hnew, hrest⟩ := h
  have hfree : env.eventId o.nextSequence ∉ o.rows.map fun e => e.id :=
    fun hmem => hnew (List.mem_append_right _ hmem)
  refine ⟨_, dif_neg hfree, ?_⟩
  unfold FreshIds
  simp only [List.map_append, List.map_singleton]
  have hall := List.nodup_cons.mpr ⟨hnew, hrest⟩
  refine (List.Perm.nodup_iff ?_).mp hall
  rw [← List.append_assoc]
  exact (List.perm_append_singleton _ _).symm

theorem insertRequests_total {peers : List ClientId} {n : ℕ} (hlen : peers.length ≤ n)
    (h : FreshIds env o n) : ∃ o', peers.foldlM (insertRequest env) o = .ok o' := by
  induction peers generalizing o n with
  | nil => exact ⟨o, rfl⟩
  | cons first rest ih =>
    rw [List.length_cons] at hlen
    obtain ⟨m, rfl⟩ : ∃ m, n = m + 1 := ⟨n - 1, by omega⟩
    obtain ⟨mid, hmid, hfresh⟩ := h.insertRequest first
    obtain ⟨o', ho'⟩ := ih (by omega) hfresh
    refine ⟨o', ?_⟩
    rw [List.foldlM_cons, bind_eq_ok]
    exact ⟨mid, hmid, ho'⟩

end Requests

section Migration

variable {env : Surroundings} {db : PlainDb} {up : UpgradedDb}

theorem activePeer_iff (up : UpgradedDb) (c : ClientId) :
    activePeer up c = true ↔ ∃ client, up.oauthClients.find? c = some client ∧
      client.disabledAt = none ∧ client.eventsUri.isSome = true ∧
      up.appRoleCatalogs.contains c = true := by
  unfold activePeer
  rw [Bool.and_eq_true, Option.any_eq_true]
  constructor
  · rintro ⟨⟨client, hfound, hboth⟩, hcat⟩
    rw [Bool.and_eq_true, Option.isNone_iff_eq_none] at hboth
    exact ⟨client, hfound, hboth.1, hboth.2, hcat⟩
  · rintro ⟨client, hfound, henabled, huri, hcat⟩
    refine ⟨⟨client, hfound, ?_⟩, hcat⟩
    rw [henabled, huri]
    rfl

theorem mem_unaskedPeers (up : UpgradedDb) (c : ClientId) :
    c ∈ unaskedPeers up ↔ activePeer up c = true ∧ requestCount up.eventOutbox c = 0 := by
  unfold unaskedPeers requestCount
  rw [List.mem_filter, Bool.and_eq_true, Bool.not_eq_true', List.any_eq_false, List.countP_eq_zero]
  constructor
  · rintro ⟨-, hactive, hnone⟩
    exact ⟨hactive, hnone⟩
  · rintro ⟨hactive, hnone⟩
    obtain ⟨client, hfound, -⟩ := (activePeer_iff up c).mp hactive
    exact ⟨(up.oauthClients.mem_keys_iff c).mpr ⟨client, hfound⟩, hactive, hnone⟩

theorem unaskedPeers_nodup (up : UpgradedDb) : (unaskedPeers up).Nodup :=
  up.oauthClients.keys_nodup.filter _

/-- What the statements leave behind, in the terms of the upgraded database. -/
structure Migrated (env : Surroundings) (db : PlainDb) (up : UpgradedDb) : Prop where
  tables : up.toRoleTables = db.toRoleTables
  clients : up.oauthClients = db.oauthClients
  inbox : up.processedEvents = (∅ : Table _ _).insertAll (rekeyed db.processedEvents)
  states : up.appRoleSyncState = (∅ : Table _ _).insertAll (baselineStates env up)
  entries : up.appRoleEffective = (∅ : Table _ _).insertAll (baselineEntries up)
  requests : (unaskedPeers (alterTables (.plain db))).foldlM (insertRequest env)
    (numberedOutbox db.eventOutbox db.uniqueIds) = .ok up.eventOutbox
  destinations : up.eventDestinations = (∅ : Table _ _).insertAll
    ((pendingTargets up.eventOutbox).map fun c => (c, ⟨none, env.now, 0⟩))

theorem migrate_ok (h : migrate env (.plain db) = .ok up) : Migrated env db up := by
  unfold migrate at h
  rw [bind_eq_ok] at h
  obtain ⟨first, hfirst, h⟩ := h
  rw [bind_eq_ok] at h
  obtain ⟨second, hsecond, h⟩ := h
  rw [bind_eq_ok] at h
  obtain ⟨third, hthird, hfourth⟩ := h
  unfold baselineSyncState at hfirst
  unfold baselineEffective at hsecond
  unfold requestSync at hthird
  unfold createDestinations at hfourth
  simp only [bind_eq_ok, Except.ok.injEq] at hfirst hsecond hthird hfourth
  obtain ⟨states, hstates, rfl⟩ := hfirst
  obtain ⟨entries, hentries, rfl⟩ := hsecond
  obtain ⟨outbox, houtbox, rfl⟩ := hthird
  obtain ⟨destinations, hdestinations, rfl⟩ := hfourth
  exact ⟨rfl, rfl, rfl, insertReferenced_ok hstates, insertReferenced_ok hentries, houtbox,
    insertReferenced_ok hdestinations⟩

theorem Migrated.find_state (h : Migrated env db up) {c : ClientId} {cat : AppRoleCatalog}
    (hcat : db.appRoleCatalogs.find? c = some cat) :
    up.appRoleSyncState.find? c =
      some ⟨.legacy, none, cat.lastSyncIat, env.authorityEpoch c, 0, Nat.zero_le _⟩ := by
  have hrow : (c, cat) ∈ up.appRoleCatalogs.rows := by
    rw [h.tables]
    exact (Table.mem_rows_iff _ c cat).mpr hcat
  rw [h.states]
  refine Table.find?_insertAll_of_key (List.mem_map.mpr ⟨(c, cat), hrow, rfl⟩) ?_
  intro q hq hkey
  obtain ⟨⟨c', cat'⟩, hrow', rfl⟩ := List.mem_map.mp hq
  have hc : c' = c := hkey
  subst hc
  have hsame : some cat = some cat' := by
    rw [← (Table.mem_rows_iff _ _ _).mp hrow, ← (Table.mem_rows_iff _ _ _).mp hrow']
  rw [Option.some.inj hsame]

theorem Migrated.contains_state (h : Migrated env db up) (c : ClientId) :
    up.appRoleSyncState.contains c = db.appRoleCatalogs.contains c := by
  rw [Bool.eq_iff_iff, h.states, Table.contains_insertAll, ← congrArg RoleTables.appRoleCatalogs
    h.tables]
  constructor
  · rintro (hnone | ⟨r, hr, rfl⟩)
    · simp [Table.contains] at hnone
    · obtain ⟨⟨c', cat⟩, hrow, rfl⟩ := List.mem_map.mp hr
      exact (Table.contains_iff _ _).mpr ⟨cat, (Table.mem_rows_iff _ _ _).mp hrow⟩
  · intro hcat
    obtain ⟨cat, hfound⟩ := (Table.contains_iff _ _).mp hcat
    exact .inr ⟨_, List.mem_map.mpr ⟨(c, cat), (Table.mem_rows_iff _ _ _).mpr hfound, rfl⟩, rfl⟩

/-- A row of the baseline is decided by its key. -/
theorem mem_effective {tables : RoleTables} {e : BaselineRow} (he : e ∈ effective tables) :
    ∃ i cat, tables.identities.find? e.sub = some i ∧ i.deletedAt = none ∧
      tables.appRoleCatalogs.find? e.clientId = some cat ∧
      e.rawRole = ((tables.userAppRoleOverrides.find? (e.sub, e.clientId)).or
        ((tables.userOrgRoles.find? e.sub).bind fun slug =>
          tables.orgRoleAppDefaults.find? (slug, e.clientId))).getD cat.defaultRoleId := by
  unfold effective at he
  obtain ⟨⟨sub, i⟩, hi, he⟩ := List.mem_flatMap.mp he
  obtain ⟨⟨c, cat⟩, hcat, rfl⟩ := List.mem_map.mp he
  obtain ⟨hrow, hdeleted⟩ := List.mem_filter.mp hi
  refine ⟨i, cat, (Table.mem_rows_iff _ _ _).mp hrow, Option.isNone_iff_eq_none.mp hdeleted,
    (Table.mem_rows_iff _ _ _).mp hcat, ?_⟩
  show (match tables.userAppRoleOverrides.find? (sub, c), _ with
    | some appRoleId, _ => appRoleId
    | none, some appRoleId => appRoleId
    | none, none => cat.defaultRoleId) = _
  cases tables.userAppRoleOverrides.find? (sub, c) with
  | some appRoleId => rfl
  | none =>
    cases (tables.userOrgRoles.find? sub).bind fun slug =>
        tables.orgRoleAppDefaults.find? (slug, c) with
    | some appRoleId => rfl
    | none => rfl

theorem exists_effective {tables : RoleTables} {c : ClientId} {sub : Uuid} {i : Identity}
    (hi : tables.identities.find? sub = some i) (hpresent : i.deletedAt = none)
    (hcat : tables.appRoleCatalogs.contains c = true) :
    ∃ e ∈ effective tables, e.clientId = c ∧ e.sub = sub := by
  obtain ⟨cat, hfound⟩ := (Table.contains_iff _ _).mp hcat
  refine ⟨_, List.mem_flatMap.mpr ⟨(sub, i), List.mem_filter.mpr
    ⟨(Table.mem_rows_iff _ _ _).mpr hi, Option.isNone_iff_eq_none.mpr hpresent⟩,
    List.mem_map.mpr ⟨(c, cat), (Table.mem_rows_iff _ _ _).mpr hfound, rfl⟩⟩, rfl, rfl⟩

theorem Serves.tables_find {view : Db} (h : Serves up view) :
    view.userAppRoleOverrides = up.userAppRoleOverrides ∧ view.userOrgRoles = up.userOrgRoles ∧
      view.orgRoleAppDefaults = up.orgRoleAppDefaults ∧ view.appRoles = up.appRoles := by
  refine ⟨?_, ?_, ?_, ?_⟩
  · exact congrArg RoleTables.userAppRoleOverrides h.tables
  · exact congrArg RoleTables.userOrgRoles h.tables
  · exact congrArg RoleTables.orgRoleAppDefaults h.tables
  · exact congrArg RoleTables.appRoles h.tables

/-- Both statements of the role chain: the migration's and the publisher's. -/
theorem rawRole_eq {view : Db} (h : Serves up view) (cat : AppRoleCatalog) (c : ClientId)
    (sub : Uuid) :
    rawRole view cat c sub = ((up.userAppRoleOverrides.find? (sub, c)).or
      ((up.userOrgRoles.find? sub).bind fun slug =>
        up.orgRoleAppDefaults.find? (slug, c))).getD cat.defaultRoleId := by
  obtain ⟨hov, hur, hod, -⟩ := h.tables_find
  unfold rawRole orgLayer
  rw [hov, hur, hod]
  cases up.userAppRoleOverrides.find? (sub, c) with
  | some roleId => rfl
  | none =>
    cases (up.userOrgRoles.find? sub).bind fun slug => up.orgRoleAppDefaults.find? (slug, c) with
    | some roleId => rfl
    | none => rfl

theorem mem_baselineEntries {k : ClientId × Uuid} {entry : EffectiveEntry} {view : Db}
    (hview : Serves up view) (h : (k, entry) ∈ baselineEntries up) :
    ∃ i cat state, up.identities.find? k.2 = some i ∧ i.deletedAt = none ∧
      up.appRoleCatalogs.find? k.1 = some cat ∧ up.appRoleSyncState.find? k.1 = some state ∧
      entry = ⟨(effectiveRow view cat k.1 k.2).roleId, true, state.authorityRevision⟩ := by
  unfold baselineEntries at h
  obtain ⟨e, he, hentry⟩ := List.mem_filterMap.mp h
  obtain ⟨state, hstate, heq⟩ := Option.map_eq_some_iff.mp hentry
  obtain ⟨i, cat, hi, hpresent, hcat, hraw⟩ := mem_effective he
  obtain ⟨rfl, rfl⟩ := Prod.mk.inj heq
  refine ⟨i, cat, state, hi, hpresent, hcat, hstate, ?_⟩
  have hrole : (effectiveRow view cat e.clientId e.sub).roleId =
      e.rawRole.filter fun id => up.appRoles.contains (e.clientId, id) := by
    show knownRole view e.clientId (rawRole view cat e.clientId e.sub) = _
    rw [rawRole_eq hview, ← hraw, knownRole, hview.tables_find.2.2.2]
  rw [hrole]

/-- One ledger row for each managed client and user that is not deleted, and no other. -/
theorem Migrated.find_entry (h : Migrated env db up) {view : Db} (hview : Serves up view)
    (c : ClientId) (sub : Uuid) (entry : EffectiveEntry) :
    up.appRoleEffective.find? (c, sub) = some entry ↔
      ∃ i cat state, up.identities.find? sub = some i ∧ i.deletedAt = none ∧
        up.appRoleCatalogs.find? c = some cat ∧ up.appRoleSyncState.find? c = some state ∧
        entry = ⟨(effectiveRow view cat c sub).roleId, true, state.authorityRevision⟩ := by
  constructor
  · intro hfound
    rw [h.entries] at hfound
    exact mem_baselineEntries hview (Table.mem_of_find?_insertAll hfound)
  · rintro ⟨i, cat, state, hi, hpresent, hcat, hstate, rfl⟩
    have hmanaged : up.appRoleCatalogs.contains c = true := (Table.contains_iff _ _).mpr ⟨cat, hcat⟩
    obtain ⟨e, he, hc, hsub⟩ := exists_effective hi hpresent hmanaged
    subst hc hsub
    have hmem : ∃ entry, ((e.clientId, e.sub), entry) ∈ baselineEntries up :=
      ⟨_, List.mem_filterMap.mpr ⟨e, he, by rw [hstate]; rfl⟩⟩
    have hcontains : up.appRoleEffective.contains (e.clientId, e.sub) = true := by
      obtain ⟨entry, hentry⟩ := hmem
      rw [h.entries]
      exact (Table.contains_insertAll _ _ _).mpr (.inr ⟨_, hentry, rfl⟩)
    obtain ⟨entry, hfound⟩ := (Table.contains_iff _ _).mp hcontains
    rw [hfound]
    rw [h.entries] at hfound
    obtain ⟨i', cat', state', -, -, hcat', hstate', rfl⟩ :=
      mem_baselineEntries hview (Table.mem_of_find?_insertAll hfound)
    have hcats : cat' = cat := Option.some.inj (hcat'.symm.trans hcat)
    have hstates : state' = state := Option.some.inj (hstate'.symm.trans hstate)
    subst hcats hstates
    rfl

end Migration

section Publisher

variable {env : Surroundings} {db : PlainDb} {up : UpgradedDb} {view : Db}

theorem ensureRoleSyncState_present {db : Db} {c : ClientId} {state : RoleSyncState}
    (h : db.appRoleSyncState.find? c = some state) :
    ensureRoleSyncState env db c = .ok (state, db) := by
  have hcontains : db.appRoleSyncState.contains c = true := (Table.contains_iff _ _).mpr ⟨_, h⟩
  unfold ensureRoleSyncState
  simp [hcontains, h]

theorem publishClient_unchanged {db : Db} {c : ClientId} {subjects : Option (List Uuid)}
    {options : PublishOptions} (hstate : db.appRoleSyncState.contains c = true)
    (hrows : changedRows db c subjects options = []) :
    publishClient env subjects options db c = .ok (0, db) := by
  obtain ⟨state, hfound⟩ := (Table.contains_iff _ _).mp hstate
  unfold publishClient
  rw [ensureRoleSyncState_present hfound, ok_bind]
  exact if_pos hrows

theorem publishClients_unchanged {db : Db} {ids : List ClientId} {subjects : Option (List Uuid)}
    {options : PublishOptions}
    (hstate : ∀ c ∈ ids, db.appRoleSyncState.contains c = true)
    (hrows : ∀ c ∈ ids, changedRows db c subjects options = []) :
    publishClients env subjects options db ids = .ok (0, db) := by
  induction ids with
  | nil => rfl
  | cons first rest ih =>
    unfold publishClients
    rw [publishClient_unchanged (hstate first List.mem_cons_self) (hrows first List.mem_cons_self),
      ok_bind]
    show (publishClients env subjects options db rest >>= _) = _
    rw [ih (fun c hc => hstate c (List.mem_cons_of_mem _ hc))
      fun c hc => hrows c (List.mem_cons_of_mem _ hc)]
    rfl

/-- The publisher finds every row of the baseline as it would write it. -/
theorem Migrated.no_changes (h : Migrated env db up) (hview : Serves up view) (c : ClientId)
    (subjects : Option (List Uuid)) : changedRows view c subjects .default = [] := by
  unfold changedRows effectiveRows
  cases hcat : view.appRoleCatalogs.find? c with
  | none => rfl
  | some cat =>
    refine List.filter_eq_nil_iff.mpr ?_
    intro row hrow
    obtain ⟨sub, hsub, rfl⟩ := List.mem_map.mp hrow
    have hpresent : presentIdentity view sub = true := by
      have := (List.mem_filter.mp hsub).2
      rw [Bool.and_eq_true] at this
      exact this.1
    unfold presentIdentity Identity.present at hpresent
    obtain ⟨i, hi, hdeleted⟩ := (Option.any_eq_true ..).mp hpresent
    have hcats : view.appRoleCatalogs = up.appRoleCatalogs :=
      congrArg RoleTables.appRoleCatalogs hview.tables
    have hids : view.identities = up.identities := congrArg RoleTables.identities hview.tables
    have hledger : view.appRoleEffective = up.appRoleEffective :=
      congrArg Ledger.appRoleEffective hview.ledger
    rw [hcats] at hcat
    rw [hids] at hi
    have hstate := h.find_state (by rw [← congrArg RoleTables.appRoleCatalogs h.tables]; exact hcat)
    have hentry := (h.find_entry hview c sub _).mpr
      ⟨i, cat, _, hi, Option.isNone_iff_eq_none.mp hdeleted, hcat, hstate, rfl⟩
    have hprevious : view.appRoleEffective.find? (c, sub) = _ := hledger ▸ hentry
    have hknown : (effectiveRow view cat c sub).known = true := congrArg Option.isSome hprevious
    have hrole : (effectiveRow view cat c sub).previousRole =
        (effectiveRow view cat c sub).roleId :=
      congrArg (fun p => Option.bind p EffectiveEntry.roleId) hprevious
    have hmanaged : (effectiveRow view cat c sub).previousManaged = some true :=
      congrArg (Option.map EffectiveEntry.managed) hprevious
    have hself : (effectiveRow view cat c sub).managed = true := rfl
    unfold rowChanged PublishOptions.default
    simp [hknown, hrole, hmanaged, hself]

theorem Migrated.publishes_nothing (h : Migrated env db up) (hview : Serves up view)
    (env' : Surroundings) {clientIds : List ClientId}
    (hmanaged : ∀ c ∈ clientIds, db.appRoleCatalogs.contains c = true)
    (subjects : Option (List Uuid)) :
    publishRoleChanges env' view clientIds subjects .default = .ok (0, view) := by
  unfold publishRoleChanges
  refine publishClients_unchanged ?_ fun c _ => h.no_changes hview c subjects
  intro c hc
  rw [congrArg Ledger.appRoleSyncState hview.ledger, h.contains_state]
  exact hmanaged c (mem_sortedClients.mp hc)

end Publisher

section Upgraded

variable {env : Surroundings} {db : PlainDb} {up : UpgradedDb}

theorem mem_pendingTargets (o : UpgradedOutbox) (c : ClientId) :
    c ∈ pendingTargets o ↔ ∃ e ∈ o.rows, e.status = .pending ∧ e.targetClientId = some c := by
  unfold pendingTargets
  rw [List.mem_dedup, List.mem_filterMap]
  constructor
  · rintro ⟨e, he, htarget⟩
    by_cases hpending : e.status = .pending
    · rw [if_pos hpending] at htarget
      exact ⟨e, he, hpending, htarget⟩
    · rw [if_neg hpending] at htarget
      cases htarget
  · rintro ⟨e, he, hpending, htarget⟩
    exact ⟨e, he, by rw [if_pos hpending]; exact htarget⟩

/-- The rows after the requests: those before the upgrade and the requests. -/
theorem requests_rows {o : UpgradedOutbox}
    (h : (unaskedPeers (alterTables (.plain db))).foldlM (insertRequest env)
      (numberedOutbox db.eventOutbox db.uniqueIds) = .ok o) :
    ∃ added, o.rows = numberedFrom 1 db.eventOutbox ++ added ∧
      ∀ e ∈ added, Requested (unaskedPeers (alterTables (.plain db))) e.toPlainEvent :=
  insertRequests_rows h

theorem registered_of_pending {o : UpgradedOutbox}
    (h : (unaskedPeers (alterTables (.plain db))).foldlM (insertRequest env)
      (numberedOutbox db.eventOutbox db.uniqueIds) = .ok o) {c : ClientId}
    (hc : c ∈ pendingTargets o) : db.oauthClients.contains c = true := by
  obtain ⟨added, hrows, hadded⟩ := requests_rows h
  obtain ⟨e, he, -, htarget⟩ := (mem_pendingTargets o c).mp hc
  rw [hrows] at he
  rcases List.mem_append.mp he with hold | hnew
  · have hplain : e.toPlainEvent ∈ db.eventOutbox := by
      rw [← numberedFrom_plain 1 db.eventOutbox]
      exact List.mem_map_of_mem hold
    exact db.targetsExist _ hplain c htarget
  · obtain ⟨c', hpeer, htarget'⟩ := (hadded e hnew).target
    obtain ⟨client, hfound, -⟩ :=
      (activePeer_iff _ c').mp ((mem_unaskedPeers _ c').mp hpeer).1
    have hsame : c' = c := Option.some.inj (htarget'.symm.trans htarget)
    exact hsame ▸ (Table.contains_iff _ _).mpr ⟨client, hfound⟩

/-- Without an id drawn twice the migration commits. -/
theorem migrate_total (env : Surroundings) (db : PlainDb)
    (h : FreshIds env (numberedOutbox db.eventOutbox db.uniqueIds) db.oauthClients.keys.length) :
    ∃ up, migrate env (.plain db) = .ok up := by
  unfold migrate baselineSyncState baselineEffective requestSync createDestinations
  simp only [bind_eq_ok, Except.ok.injEq]
  have hpeers : (unaskedPeers (alterTables (.plain db))).length ≤ db.oauthClients.keys.length :=
    List.length_filter_le _ _
  obtain ⟨outbox, houtbox⟩ := insertRequests_total hpeers h
  have hstates : ∀ r ∈ baselineStates env (alterTables (.plain db)),
      db.oauthClients.contains r.1 = true := by
    intro r hr
    obtain ⟨⟨c, cat⟩, hrow, rfl⟩ := List.mem_map.mp hr
    exact db.catalogsExist c
      ((Table.contains_iff _ _).mpr ⟨cat, (Table.mem_rows_iff _ _ _).mp hrow⟩)
  refine ⟨_, _, ⟨_, insertReferenced_total hstates, rfl⟩, _, ⟨_, insertReferenced_total ?_, rfl⟩, _,
    ⟨outbox, houtbox, rfl⟩, _, insertReferenced_total ?_, rfl⟩
  · intro r hr
    obtain ⟨e, he, hentry⟩ := List.mem_filterMap.mp hr
    obtain ⟨state, -, rfl⟩ := Option.map_eq_some_iff.mp hentry
    obtain ⟨i, cat, hi, -, hcat, -⟩ := mem_effective he
    have hclient := db.catalogsExist e.clientId ((Table.contains_iff _ _).mpr ⟨cat, hcat⟩)
    have hidentity := (Table.contains_iff _ _).mpr ⟨i, hi⟩
    exact Bool.and_eq_true_iff.mpr ⟨hclient, hidentity⟩
  · intro r hr
    obtain ⟨c, hc, rfl⟩ := List.mem_map.mp hr
    exact registered_of_pending houtbox hc

theorem Migrated.request_count (h : Migrated env db up) {c : ClientId}
    (hactive : activePeer up c = true) :
    requestCount up.eventOutbox c =
      max 1 (db.eventOutbox.countP fun e => isUpgradeRequest c e) := by
  have hbefore : requestCount (numberedOutbox db.eventOutbox db.uniqueIds) c =
      db.eventOutbox.countP fun e => isUpgradeRequest c e := by
    conv_rhs => rw [← numberedFrom_plain 1 db.eventOutbox]
    rw [List.countP_map]
    rfl
  have hactive' : activePeer (alterTables (.plain db)) c = true := by
    rw [activePeer_iff] at hactive ⊢
    rw [h.clients, h.tables] at hactive
    exact hactive
  have hasked := mem_unaskedPeers (alterTables (.plain db)) c
  have hcount : (unaskedPeers (alterTables (.plain db))).count c =
      if c ∈ unaskedPeers (alterTables (.plain db)) then 1 else 0 :=
    (unaskedPeers_nodup _).count
  rw [insertRequests_count h.requests c, hbefore, hcount]
  have hsame : requestCount (alterTables (.plain db)).eventOutbox c =
      requestCount (numberedOutbox db.eventOutbox db.uniqueIds) c := rfl
  rw [hsame, hbefore] at hasked
  by_cases hzero : db.eventOutbox.countP (fun e => isUpgradeRequest c e) = 0
  · rw [if_pos (hasked.mpr ⟨hactive', hzero⟩), hzero]
    rfl
  · rw [if_neg fun hmem => hzero (hasked.mp hmem).2]
    omega

theorem Migrated.contains_destination (h : Migrated env db up) {c : ClientId}
    (hc : c ∈ pendingTargets up.eventOutbox) : up.eventDestinations.contains c = true := by
  rw [h.destinations, Table.contains_insertAll]
  exact .inr ⟨_, List.mem_map.mpr ⟨c, hc, rfl⟩, rfl⟩

theorem Migrated.contains_entry (h : Migrated env db up) {r : (ClientId × Uuid) × EffectiveEntry}
    (hr : r ∈ baselineEntries up) : up.appRoleEffective.contains r.1 = true := by
  rw [h.entries, Table.contains_insertAll]
  exact .inr ⟨r, hr, rfl⟩

theorem Migrated.receipt (h : Migrated env db up) (source : JsString) (id : Uuid)
    (r : UpgradedReceipt) :
    up.processedEvents.find? (source, id) = some r ↔
      ∃ old, db.processedEvents.find? id = some old ∧ old.source = source ∧
        r = ⟨old.processedAt, none, none⟩ := by
  rw [h.inbox]
  constructor
  · intro hfound
    obtain ⟨⟨id', old⟩, hrow, heq⟩ := List.mem_map.mp (Table.mem_of_find?_insertAll hfound)
    simp only [Prod.mk.injEq] at heq
    obtain ⟨⟨rfl, rfl⟩, rfl⟩ := heq
    exact ⟨old, (Table.mem_rows_iff _ _ _).mp hrow, rfl, rfl⟩
  · rintro ⟨old, hold, rfl, rfl⟩
    refine Table.find?_insertAll_of_key
      (List.mem_map.mpr ⟨(id, old), (Table.mem_rows_iff _ _ _).mpr hold, rfl⟩) ?_
    intro q hq hkey
    obtain ⟨⟨id', old'⟩, hrow, rfl⟩ := List.mem_map.mp hq
    have hid : id' = id := (Prod.mk.inj hkey).2
    subst hid
    have hsame : some old' = some old := by
      rw [← (Table.mem_rows_iff _ _ _).mp hrow, hold]
    rw [Option.some.inj hsame]

/-- A second application finds every row it would insert. -/
theorem Migrated.again (h : Migrated env db up) (env' : Surroundings) :
    migrate env' (.upgraded up) = .ok up := by
  have hstates : ∀ r ∈ baselineStates env' up, up.appRoleSyncState.contains r.1 = true := by
    intro r hr
    obtain ⟨⟨c, cat⟩, hrow, rfl⟩ := List.mem_map.mp hr
    rw [h.contains_state, ← congrArg RoleTables.appRoleCatalogs h.tables]
    exact (Table.contains_iff _ _).mpr ⟨cat, (Table.mem_rows_iff _ _ _).mp hrow⟩
  have hpeers : unaskedPeers up = [] := by
    refine List.eq_nil_iff_forall_not_mem.mpr ?_
    intro c hc
    obtain ⟨hactive, hzero⟩ := (mem_unaskedPeers up c).mp hc
    rw [h.request_count hactive] at hzero
    omega
  have hdestinations : ∀ r ∈ (pendingTargets up.eventOutbox).map
      fun c => (c, (⟨none, env'.now, 0⟩ : Destination)),
      up.eventDestinations.contains r.1 = true := by
    intro r hr
    obtain ⟨c, hc, rfl⟩ := List.mem_map.mp hr
    exact h.contains_destination hc
  have hfirst : baselineSyncState env' up = .ok up := by
    unfold baselineSyncState
    rw [insertReferenced_taken hstates]
    rfl
  have hsecond : baselineEffective up = .ok up := by
    unfold baselineEffective
    rw [insertReferenced_taken fun r hr => h.contains_entry hr]
    rfl
  have hthird : requestSync env' up = .ok up := by
    unfold requestSync
    rw [hpeers]
    rfl
  have hfourth : createDestinations env' up = .ok up := by
    unfold createDestinations
    rw [insertReferenced_taken hdestinations]
    rfl
  unfold migrate
  show (baselineSyncState env' up >>= _) = _
  rw [hfirst, ok_bind, hsecond, ok_bind, hthird, ok_bind, hfourth]

/-- What the migration leaves in a database of any content, for the running server
and for a second application. -/
theorem upgrade_baseline (env : Surroundings) (db : PlainDb) :
    (FreshIds env (numberedOutbox db.eventOutbox db.uniqueIds) db.oauthClients.keys.length →
      ∃ up, migrate env (.plain db) = .ok up) ∧
    ∀ up, migrate env (.plain db) = .ok up →
      (∀ view, Serves up view →
        (∀ c sub entry, up.appRoleEffective.find? (c, sub) = some entry ↔
          ∃ i cat, db.identities.find? sub = some i ∧ i.deletedAt = none ∧
            db.appRoleCatalogs.find? c = some cat ∧
            entry = ⟨(effectiveRow view cat c sub).roleId, true, 0⟩) ∧
        ∀ env' clientIds, (∀ c ∈ clientIds, db.appRoleCatalogs.contains c = true) →
          ∀ subjects, publishRoleChanges env' view clientIds subjects .default = .ok (0, view)) ∧
      (up.toRoleTables = db.toRoleTables ∧ up.oauthClients = db.oauthClients ∧
        (∃ added, (up.eventOutbox.rows.map fun e => e.toPlainEvent) = db.eventOutbox ++ added ∧
          ∀ e ∈ added, e.kind ≠ rolesChangeType ∧
            ∃ c, activePeer up c = true ∧ isUpgradeRequest c e = true) ∧
        ∀ source id r, up.processedEvents.find? (source, id) = some r ↔
          ∃ old, db.processedEvents.find? id = some old ∧ old.source = source ∧
            r = ⟨old.processedAt, none, none⟩) ∧
      (∀ c, activePeer up c = true → requestCount up.eventOutbox c =
        max 1 (db.eventOutbox.countP fun e => isUpgradeRequest c e)) ∧
      (∀ e ∈ up.eventOutbox.rows, e.status = .pending → ∀ c, e.targetClientId = some c →
        up.eventDestinations.contains c = true) ∧
      ∀ env', migrate env' (.upgraded up) = .ok up := by
  refine ⟨migrate_total env db, ?_⟩
  intro up hup
  have h := migrate_ok hup
  have hcats : up.appRoleCatalogs = db.appRoleCatalogs :=
    congrArg RoleTables.appRoleCatalogs h.tables
  have hids : up.identities = db.identities := congrArg RoleTables.identities h.tables
  refine ⟨?_, ⟨h.tables, h.clients, ?_, h.receipt⟩, fun c => h.request_count, ?_, h.again⟩
  · intro view hview
    refine ⟨?_, fun env' _ hmanaged subjects => h.publishes_nothing hview env' hmanaged subjects⟩
    intro c sub entry
    rw [h.find_entry hview, hids, hcats]
    constructor
    · rintro ⟨i, cat, state, hi, hpresent, hcat, hstate, rfl⟩
      rw [h.find_state hcat] at hstate
      rw [← Option.some.inj hstate]
      exact ⟨i, cat, hi, hpresent, hcat, rfl⟩
    · rintro ⟨i, cat, hi, hpresent, hcat, rfl⟩
      exact ⟨i, cat, _, hi, hpresent, hcat, h.find_state hcat, rfl⟩
  · obtain ⟨added, hrows, hadded⟩ := requests_rows h.requests
    refine ⟨added.map fun e => e.toPlainEvent, ?_, ?_⟩
    · rw [hrows, List.map_append, numberedFrom_plain]
    · intro e he
      obtain ⟨row, hrow, rfl⟩ := List.mem_map.mp he
      obtain ⟨hkind, hpayload, -, c, hpeer, htarget⟩ := hadded row hrow
      refine ⟨?_, c, ?_, ?_⟩
      · rw [hkind]
        decide
      · have hactive := ((mem_unaskedPeers _ c).mp hpeer).1
        rw [activePeer_iff] at hactive ⊢
        rw [h.clients, h.tables]
        exact hactive
      · unfold isUpgradeRequest
        rw [htarget, hkind, hpayload, upgradeReason_payload]
        simp
  · intro e he hpending c htarget
    exact h.contains_destination ((mem_pendingTargets _ c).mpr ⟨e, he, hpending, htarget⟩)

end Upgraded

section Examples

def askedBefore (digit : Fin 10) : PlainEvent where
  id := Uuid.numbered digit
  kind := syncRequestType
  targetClientId := some (js "app")
  payload := upgradePayload
  version := 0
  status := .delivered
  attempts := 1
  nextAttemptAt := 0
  createdAt := 0
  deliveredAt := some 0

/-- One client that holds two requests with the reason of the upgrade already. -/
def askedTwice : PlainDb where
  toRoleTables := { Db.empty.toRoleTables with
    appRoleCatalogs := (∅ : Table ClientId AppRoleCatalog).upsert (js "app") ⟨none, 0⟩ }
  oauthClients := (∅ : Table ClientId OauthClient).upsert (js "app")
    ⟨js "App", some (js "https://app/events"), none⟩
  eventOutbox := [askedBefore 1, askedBefore 2]
  processedEvents := ∅
  uniqueIds := by decide
  targetsExist := by
    intro e he c hc
    have htarget : e.targetClientId = some (js "app") := by
      rcases List.mem_cons.mp he with rfl | he
      · rfl
      · rw [List.mem_singleton.mp he]
        rfl
    rw [htarget] at hc
    rw [← Option.some.inj hc]
    decide
  catalogsExist := by
    intro c hc
    rw [Table.contains_upsert] at hc ⊢
    rw [Bool.or_eq_true] at hc ⊢
    rcases hc with hc | hnone
    · exact .inl hc
    · simp [Table.contains] at hnone

/-- The guard of the requests leaves both rows in place. -/
theorem two_requests_kept :
    ∃ env db up c, migrate env (.plain db) = .ok up ∧ activePeer up c = true ∧
      requestCount up.eventOutbox c ≠ 1 := by
  let env : Surroundings := ⟨0, fun _ => Uuid.numbered 5, fun _ => Uuid.numbered 6, fun s => s⟩
  have hrun : (migrate env (.plain askedTwice)).toOption.any (fun up =>
      activePeer up (js "app") && decide (requestCount up.eventOutbox (js "app") ≠ 1)) = true := by
    decide +kernel
  cases hup : migrate env (.plain askedTwice) with
  | error e =>
    rw [hup] at hrun
    simp [Except.toOption] at hrun
  | ok up =>
    rw [hup] at hrun
    have hboth := Bool.and_eq_true_iff.mp hrun
    exact ⟨env, askedTwice, up, js "app", hup, hboth.1, of_decide_eq_true hboth.2⟩

/-- One user of a client that has a catalog of one role, an event that waits for its delivery
and one that was processed. -/
def oneUserBefore : PlainDb where
  toRoleTables := { Db.empty.toRoleTables with
    identities := (∅ : Table Uuid Identity).upsert (Uuid.numbered 1)
      ⟨js "ann", js "Ann", none, false, none, none, .active, none⟩
    appRoles := (∅ : Table (ClientId × ℤ) AppRole).upsert (js "app", 5) ⟨js "user", 10, false⟩
    appRoleCatalogs := (∅ : Table ClientId AppRoleCatalog).upsert (js "app") ⟨some 5, 0⟩ }
  oauthClients := (∅ : Table ClientId OauthClient).upsert (js "app")
    ⟨js "App", some (js "https://app/events"), none⟩
  eventOutbox := [{ askedBefore 1 with kind := js "org.settings", status := .pending }]
  processedEvents := (∅ : Table Uuid PlainReceipt).upsert (Uuid.numbered 2) ⟨js "app", 0⟩
  uniqueIds := by decide
  targetsExist := by
    intro e he c hc
    rw [List.mem_singleton.mp he] at hc
    rw [← Option.some.inj hc]
    decide
  catalogsExist := by
    intro c hc
    rw [Table.contains_upsert] at hc ⊢
    rw [Bool.or_eq_true] at hc ⊢
    rcases hc with hc | hnone
    · exact .inl hc
    · simp [Table.contains] at hnone

def upgradeDraws : Surroundings :=
  ⟨0, fun _ => Uuid.numbered 5, fun _ => Uuid.numbered 6, fun s => s⟩

/-- A server that has read nothing else. -/
def serving (up : UpgradedDb) : Db :=
  { Db.empty with
    toRoleTables := up.toRoleTables
    toLedger := up.toLedger
    oauthClients := up.oauthClients
    eventDestinations := up.eventDestinations }

/-- The user has the catalog's default role at once, and a publication finds nothing to do. -/
theorem upgrade_baseline_oneUser :
    ∃ up, migrate upgradeDraws (.plain oneUserBefore) = .ok up ∧
      up.appRoleEffective.find? (js "app", Uuid.numbered 1) = some ⟨some 5, true, 0⟩ ∧
      publishRoleChanges upgradeDraws (serving up) [js "app"] none .default =
        .ok (0, serving up) ∧
      up.processedEvents.find? (js "app", Uuid.numbered 2) = some ⟨0, none, none⟩ ∧
      requestCount up.eventOutbox (js "app") = 1 ∧
      up.eventDestinations.contains (js "app") = true ∧
      migrate upgradeDraws (.upgraded up) = .ok up := by
  obtain ⟨htotal, hall⟩ := upgrade_baseline upgradeDraws oneUserBefore
  have hfresh : FreshIds upgradeDraws (numberedOutbox oneUserBefore.eventOutbox
      oneUserBefore.uniqueIds) oneUserBefore.oauthClients.keys.length := by
    unfold FreshIds
    decide +kernel
  obtain ⟨up, hup⟩ := htotal hfresh
  obtain ⟨hserves, ⟨htables, hclients, ⟨added, hrows, -⟩, hreceipt⟩, hrequests, hdestinations,
    hagain⟩ := hall up hup
  obtain ⟨hentries, hnothing⟩ := hserves (serving up) ⟨rfl, rfl, rfl, rfl⟩
  have hrole : (effectiveRow (serving up) ⟨some 5, 0⟩ (js "app") (Uuid.numbered 1)).roleId =
      some 5 := by
    unfold effectiveRow serving knownRole rawRole orgLayer
    simp only [htables]
    decide +kernel
  have hactive : activePeer up (js "app") = true := by
    unfold activePeer
    rw [hclients, htables]
    decide +kernel
  obtain ⟨row, hrow, hplain⟩ : ∃ e ∈ up.eventOutbox.rows,
      e.toPlainEvent = { askedBefore 1 with kind := js "org.settings", status := .pending } := by
    refine List.mem_map.mp ?_
    rw [hrows]
    exact List.mem_append_left _ (List.mem_singleton_self _)
  refine ⟨up, hup, ?_, ?_, ?_, ?_, ?_, hagain upgradeDraws⟩
  · exact (hentries _ _ _).mpr ⟨_, ⟨some 5, 0⟩, Table.find?_upsert_self .., rfl,
      Table.find?_upsert_self .., by rw [hrole]⟩
  · refine hnothing upgradeDraws [js "app"] (fun c hc => ?_) none
    rw [List.mem_singleton.mp hc]
    decide
  · exact (hreceipt _ _ _).mpr ⟨⟨js "app", 0⟩, by decide, rfl, rfl⟩
  · rw [hrequests _ hactive]
    decide
  · exact hdestinations row hrow (congrArg PlainEvent.status hplain) _
      (congrArg PlainEvent.targetClientId hplain)

end Examples

end DreamSso.Upgrade
