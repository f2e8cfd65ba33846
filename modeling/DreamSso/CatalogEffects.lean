import DreamSso.RolePublication
import DreamSso.RolesSync

/-!
What a committed envelope did, event by event. An event repeats a bound receipt,
is acknowledged, or carries a catalog that was ordered against the stored one; an
applied catalog only writes rows of its own client, apart from the root defaults
it only touches the client's own catalog, holders and ledger.
-/
namespace DreamSso

open JsStrings JsonValues KeyedTables StoredJson Fallible

/-- The rows of other clients are the same. -/
def ClientsKept {κ α : Type} [DecidableEq κ] (clientId : ClientId)
    (old new : Table (κ × ClientId) α) : Prop :=
  ∀ key, key.2 ≠ clientId → new.find? key = old.find? key

theorem ClientsKept.trans {κ α : Type} [DecidableEq κ] {clientId : ClientId}
    {a b c : Table (κ × ClientId) α} (h : ClientsKept clientId a b)
    (h' : ClientsKept clientId b c) : ClientsKept clientId a c :=
  fun key hkey => (h' key hkey).trans (h key hkey)

theorem moveRoles_kept {κ : Type} [DecidableEq κ] (clientId : ClientId) (catalog : RoleCatalog)
    (removed : List CatalogRole) (table : Table (κ × ClientId) (Option ℤ)) :
    ClientsKept clientId table
      (removed.foldl (fun t role => moveRoles clientId catalog role t) table) := by
  induction removed generalizing table with
  | nil => exact fun _ _ => rfl
  | cons role rest ih =>
    rw [List.foldl_cons]
    refine ClientsKept.trans ?_ (ih _)
    intro key hkey
    rw [moveRoles, Table.find?_updateWhere]
    cases table.find? key <;> simp [hkey]

theorem moveHolders_foldl (clientId : ClientId) (catalog : RoleCatalog)
    (removed : List CatalogRole) (db : Db) :
    removed.foldl (moveHolders clientId catalog) db = { db with
      userAppRoleOverrides := removed.foldl (fun t role => moveRoles clientId catalog role t)
        db.userAppRoleOverrides
      orgRoleAppDefaults := removed.foldl (fun t role => moveRoles clientId catalog role t)
        db.orgRoleAppDefaults } := by
  induction removed generalizing db with
  | nil => rfl
  | cons role rest ih =>
    rw [List.foldl_cons, ih]
    rfl

theorem rootDefaults_kept (clientId : ClientId) (roleId : ℤ) (db : Db) :
    ClientsKept clientId db.orgRoleAppDefaults (rootDefaults clientId roleId db) := by
  unfold rootDefaults
  generalize db.orgRoles.rows.filter (fun row => decide (row.2.level = 0)) = rows
  generalize db.orgRoleAppDefaults = table
  induction rows generalizing table with
  | nil => exact fun _ _ => rfl
  | cons row rest ih =>
    rw [List.foldl_cons]
    refine ClientsKept.trans ?_ (ih _)
    intro key hkey
    refine Table.find?_upsert_ne _ _ ?_
    rintro rfl
    exact hkey rfl

/-- A replaced catalog is stored, and holders of this client are moved. -/
theorem replaceCatalog_eq (sha256 : JsString → Digest) (db : Db) (clientId : ClientId) (iat : ℤ)
    (catalog : RoleCatalog) : ∃ overrides defaults,
      ClientsKept clientId db.userAppRoleOverrides overrides ∧
      ClientsKept clientId db.orgRoleAppDefaults defaults ∧
      (replaceCatalog sha256 db clientId iat catalog).2 =
        { storeCatalog sha256 clientId iat catalog db with
          userAppRoleOverrides := overrides
          orgRoleAppDefaults := defaults } := by
  unfold replaceCatalog
  simp only [moveHolders_foldl]
  generalize (storedRoles db clientId).filter (fun role => !catalog.has role.roleId) = removed
  unfold grantTop
  split
  · exact ⟨_, _, moveRoles_kept clientId catalog removed _, moveRoles_kept clientId catalog removed _,
      rfl⟩
  · next top _ =>
    refine ⟨_, _, moveRoles_kept clientId catalog removed _, ?_, rfl⟩
    exact (moveRoles_kept clientId catalog removed _).trans (rootDefaults_kept clientId top.roleId _)

theorem replaceRoles_other {clientId other : ClientId} (hne : other ≠ clientId)
    (catalog : RoleCatalog) (appRoles : Table (ClientId × ℤ) AppRole) (id : ℤ) :
    (replaceRoles clientId catalog appRoles).find? (other, id) = appRoles.find? (other, id) := by
  unfold replaceRoles
  rw [Table.find?_deleteWhere_kept _ (by simp [hne])]
  induction catalog.roles generalizing appRoles with
  | nil => rfl
  | cons role rest ih =>
    rw [List.foldl_cons, ih, Table.find?_upsert_ne]
    exact fun hkey => hne (Prod.mk.inj hkey).1

/-- After the replacement the client has exactly the roles of the catalog. -/
theorem replaceRoles_self (clientId : ClientId) (catalog : RoleCatalog)
    (appRoles : Table (ClientId × ℤ) AppRole) (id : ℤ) :
    (replaceRoles clientId catalog appRoles).find? (clientId, id) =
      (catalog.roles.find? fun role => decide (role.roleId = id)).map CatalogRole.row := by
  have hdistinct : (catalog.roles.map CatalogRole.roleId).Nodup :=
    (List.pairwise_map.mpr catalog.sorted).imp fun hlt => ne_of_lt hlt
  have hfold : ∀ (roles : List CatalogRole) (table : Table (ClientId × ℤ) AppRole),
      (roles.map CatalogRole.roleId).Nodup →
      (roles.foldl (fun t role => t.upsert (clientId, role.roleId) role.row) table).find?
        (clientId, id) = ((roles.find? fun role => decide (role.roleId = id)).map
          CatalogRole.row).or (table.find? (clientId, id)) := by
    intro roles
    induction roles with
    | nil => intros; rfl
    | cons role rest ih =>
      intro table hnodup
      obtain ⟨hnew, hrest⟩ := List.nodup_cons.mp hnodup
      rw [List.foldl_cons, ih _ hrest]
      by_cases hid : role.roleId = id
      · have hnone : rest.find? (fun role => decide (role.roleId = id)) = none := by
          rw [List.find?_eq_none]
          intro other hother hsame
          exact hnew (List.mem_map.mpr ⟨other, hother, (of_decide_eq_true hsame).trans hid.symm⟩)
        rw [hnone, List.find?_cons_of_pos (by simpa using hid), ← hid, Table.find?_upsert_self]
        rfl
      · rw [List.find?_cons_of_neg (by simpa using hid),
          Table.find?_upsert_ne _ _ fun hkey => hid (Prod.mk.inj hkey).2.symm]
  unfold replaceRoles
  rw [Table.find?_deleteWhere, hfold _ _ hdistinct]
  cases hfind : catalog.roles.find? fun role => decide (role.roleId = id) with
  | none =>
    have hmissing : catalog.has id = false := by
      simp only [RoleCatalog.has, decide_eq_false_iff_not, List.mem_map, not_exists, not_and]
      intro role hrole hid
      have hnot := List.find?_eq_none.mp hfind role hrole
      simp [hid] at hnot
    cases appRoles.find? (clientId, id) <;> simp [hmissing]
  | some role =>
    have hrole := List.mem_of_find?_eq_some hfind
    have hid : role.roleId = id := by simpa using List.find?_some hfind
    have hhas : catalog.has id = true := by
      simp only [RoleCatalog.has, decide_eq_true_eq]
      exact List.mem_map.mpr ⟨role, hrole, hid⟩
    simp [hhas]

theorem reconcileAudit_ok {db db' : Db} {clientId : ClientId} {changed : ℕ}
    (h : reconcileAudit db clientId changed = .ok db') : ∃ log, db' = { db with orgAuditLog := log } := by
  unfold reconcileAudit at h
  split at h
  · exact ⟨_, (Except.ok.inj h).symm⟩
  · split at h
    · exact ⟨_, (Except.ok.inj h).symm⟩
    · simp at h

/-- The catalog was left alone, or it was replaced and everybody's role published. -/
theorem applyCatalog_ok {env : Surroundings} {sha256 : JsString → Digest} {db db' : Db}
    {clientId : ClientId} {iat : ℤ} {catalog : RoleCatalog} {state : RoleSyncState}
    {order : CatalogOrder}
    (h : applyCatalog env sha256 db clientId iat catalog state = .ok (order, db')) :
    catalogOrder sha256 (comparableState sha256 db clientId catalog state) catalog iat
        (existingCatalog db clientId).isSome = .ok order ∧
      ((order = .stale ∨ order = .same ∧ forceCurrent state catalog = false) ∧ db' = db ∨
        (order = .apply ∨ order = .same ∧ forceCurrent state catalog = true) ∧
        ∃ changed published log, publishRoleChanges env
            (replaceCatalog sha256 db clientId iat catalog).2 [clientId] none
            ⟨forceCurrent state catalog, (replaceCatalog sha256 db clientId iat catalog).1⟩ =
              .ok (changed, published) ∧ db' = { published with orgAuditLog := log }) := by
  unfold applyCatalog at h
  rw [bind_eq_ok] at h
  obtain ⟨order', horder, h⟩ := h
  split at h
  · next hkept =>
    simp only [Except.ok.injEq, Prod.mk.injEq] at h
    obtain ⟨rfl, rfl⟩ := h
    exact ⟨horder, .inl ⟨hkept, rfl⟩⟩
  · next hreplaced =>
    simp only [bind_eq_ok] at h
    obtain ⟨⟨changed, published⟩, hpublished, audited, haudit, h⟩ := h
    simp only [Except.ok.injEq, Prod.mk.injEq] at h
    obtain ⟨rfl, rfl⟩ := h
    obtain ⟨log, rfl⟩ := reconcileAudit_ok haudit
    refine ⟨horder, .inr ⟨?_, changed, published, log, hpublished, rfl⟩⟩
    cases order' with
    | apply => exact .inl rfl
    | stale => exact (hreplaced (.inl rfl)).elim
    | same =>
      right
      refine ⟨rfl, ?_⟩
      by_contra hforce
      exact hreplaced (.inr ⟨rfl, by simpa using hforce⟩)

/-- The receipt of the event is bound to this digest. -/
def Bound (db : Db) (clientId : ClientId) (event : IncomingEvent) (digest : Digest) : Prop :=
  ∃ prior, db.processedEvents.find? (clientId, event.id) = some prior ∧
    prior.payloadDigest = some digest

/-- The event is new, or its receipt may be replaced by it. -/
def Replaceable (db : Db) (clientId : ClientId) (event : IncomingEvent) : Prop :=
  ∀ prior, db.processedEvents.find? (clientId, event.id) = some prior →
    historicalUnknown prior = true ∨ legacyMutable event prior = true

/-- The receipt is from before contents were bound. -/
def Historical (db : Db) (clientId : ClientId) (event : IncomingEvent) : Prop :=
  ∃ prior, db.processedEvents.find? (clientId, event.id) = some prior ∧
    historicalUnknown prior = true

/-- What one accepted event did. -/
inductive Reception (env : Surroundings) (sha256 : JsString → Digest) (clientId : ClientId)
    (iat : ℤ) (event : IncomingEvent) (digest : Digest) (db : Db) : Db → Prop
  | repeated (hplain : event.catalog = none) (hbound : Bound db clientId event digest) :
      Reception env sha256 clientId iat event digest db db
  | acknowledged {db' : Db} (hplain : event.catalog = none)
      (hfree : Replaceable db clientId event)
      (hreceipt : bindReceipt db clientId event digest = .ok db') :
      Reception env sha256 clientId iat event digest db db'
  | repeatedCatalog {catalog : RoleCatalog} {state : RoleSyncState} {ensured : Db}
      (hcatalog : event.catalog = some catalog)
      (hensured : ensureRoleSyncState env db clientId = .ok (state, ensured))
      (hversion : checkVersion state catalog = .ok ())
      (hbound : Bound db clientId event digest) (hdigest : state.catalogDigest ≠ none) :
      Reception env sha256 clientId iat event digest db ensured
  | ordered {catalog : RoleCatalog} {state : RoleSyncState} {ensured applied db' : Db}
      {order : CatalogOrder} (hcatalog : event.catalog = some catalog)
      (hensured : ensureRoleSyncState env db clientId = .ok (state, ensured))
      (hversion : checkVersion state catalog = .ok ())
      (hnew : Bound db clientId event digest → state.catalogDigest = none)
      (hfree : Replaceable db clientId event)
      (happlied : applyCatalog env sha256 ensured clientId iat catalog state = .ok (order, applied))
      (hreceipt : order = .stale ∧ Historical db clientId event ∧ db' = applied ∨
        bindReceipt applied clientId event digest = .ok db') :
      Reception env sha256 clientId iat event digest db db'

theorem receiveEvent_ok {env : Surroundings} {sha256 : JsString → Digest} {clientId : ClientId}
    {iat : ℤ} {db db' : Db} {event : IncomingEvent}
    (h : receiveEvent env sha256 clientId iat db event = .ok db') :
    ∃ digest, inboxDigest sha256 event = .ok digest ∧
      Reception env sha256 clientId iat event digest db db' := by
  unfold receiveEvent at h
  rw [bind_eq_ok] at h
  obtain ⟨digest, hdigest, h⟩ := h
  rw [bind_eq_ok] at h
  obtain ⟨⟨reported, ensured⟩, hlock, h⟩ := h
  refine ⟨digest, hdigest, ?_⟩
  have hbound : (db.processedEvents.find? (clientId, event.id)).any
      (fun p => decide (p.payloadDigest = some digest)) = true ↔
        Bound db clientId event digest := by
    simp [Option.any_eq_true, Bound]
  have hfree : (db.processedEvents.find? (clientId, event.id)).any
      (fun p => !historicalUnknown p && !legacyMutable event p) = false ↔
        Replaceable db clientId event := by
    simp only [Option.any_eq_false, Replaceable, Bool.and_eq_false_iff, Bool.not_eq_false']
  have hhistorical : (db.processedEvents.find? (clientId, event.id)).any historicalUnknown = true ↔
      Historical db clientId event := by
    simp [Option.any_eq_true, Historical]
  simp only at h
  cases hcatalog : event.catalog with
  | none =>
    simp only [lockCatalogState, hcatalog, Except.ok.injEq, Prod.mk.injEq] at hlock
    obtain ⟨rfl, rfl⟩ := hlock
    simp only [Option.any_none, Bool.not_false, Bool.and_true] at h
    split at h
    · next hrepeated =>
      rw [← Except.ok.inj h]
      exact .repeated hcatalog (hbound.mp hrepeated)
    · split at h
      · simp at h
      · next hallowed => exact .acknowledged hcatalog (hfree.mp (by simpa using hallowed)) h
  | some catalog =>
    simp only [lockCatalogState, hcatalog, bind_eq_ok] at hlock
    obtain ⟨⟨state, locked⟩, hensured, checked, hversion, hlock⟩ := hlock
    simp only [Except.ok.injEq, Prod.mk.injEq] at hlock
    obtain ⟨rfl, rfl⟩ := hlock
    simp only [Option.any_some] at h
    split at h
    · next hrepeated =>
      simp only [Bool.and_eq_true, Bool.not_eq_true', Option.isNone_eq_false_iff] at hrepeated
      rw [← Except.ok.inj h]
      exact .repeatedCatalog hcatalog hensured hversion (hbound.mp hrepeated.1)
        (Option.isSome_iff_ne_none.mp hrepeated.2)
    · next hnot =>
      split at h
      · simp at h
      · next hallowed =>
        rw [bind_eq_ok] at h
        obtain ⟨⟨order, applied⟩, happlied, h⟩ := h
        refine .ordered hcatalog hensured hversion ?_ (hfree.mp (by simpa using hallowed)) happlied ?_
        · intro hb
          simpa [hbound.mpr hb] using hnot
        · simp only at h
          split at h
          · next hstale =>
            simp only [Bool.and_eq_true, decide_eq_true_eq] at hstale
            exact .inl ⟨hstale.2, hhistorical.mp hstale.1, (Except.ok.inj h).symm⟩
          · exact .inr h

theorem bindReceipt_ok {db db' : Db} {clientId : ClientId} {event : IncomingEvent} {digest : Digest}
    (h : bindReceipt db clientId event digest = .ok db') : ∃ type, param event.type = .ok type ∧
      db' = { db with processedEvents :=
        db.processedEvents.upsert (clientId, event.id) ⟨some type, some digest⟩ } := by
  unfold bindReceipt at h
  rw [bind_eq_ok] at h
  obtain ⟨type, htype, h⟩ := h
  exact ⟨type, htype, (Except.ok.inj h).symm⟩

theorem processIncomingEvents_ok {env : Surroundings} {sha256 : JsString → Digest}
    {clientId : ClientId} {time : EnvelopeTime} {clock : ℕ → ℤ} {events : List IncomingEvent}
    {db db' : Db} (h : processIncomingEvents env sha256 clientId time clock events db = .ok db') :
    (∃ client, db.oauthClients.find? clientId = some client ∧ client.disabledAt = none) ∧
      receiveEvents env sha256 clientId time clock 1 events db = .ok db' := by
  unfold processIncomingEvents at h
  simp only [bind_eq_ok, failIf_eq_ok, Bool.not_eq_false'] at h
  obtain ⟨-, -, -, hclient, received, hreceived, -, -, h⟩ := h
  obtain rfl : received = db' := Except.ok.inj h
  obtain ⟨client, hfound, hdisabled⟩ := (Option.any_eq_true _ _).mp hclient
  exact ⟨⟨client, hfound, by simpa using hdisabled⟩, hreceived⟩

/-- A property of the events received so far and the state they left, kept by
every event, holds after the envelope. -/
theorem receiveEvents_history {env : Surroundings} {sha256 : JsString → Digest}
    {clientId : ClientId} {time : EnvelopeTime} {clock : ℕ → ℤ}
    (J : List IncomingEvent → Db → Prop) {events : List IncomingEvent}
    (hstep : ∀ earlier s event t, event ∈ events → J earlier s →
      receiveEvent env sha256 clientId time.iat s event = .ok t → J (earlier ++ [event]) t)
    {asked : ℕ} {earlier : List IncomingEvent} {db db' : Db}
    (h : receiveEvents env sha256 clientId time clock asked events db = .ok db')
    (hJ : J earlier db) : J (earlier ++ events) db' := by
  induction events generalizing asked earlier db with
  | nil =>
    rw [receiveEvents] at h
    rw [List.append_nil, ← Except.ok.inj h]
    exact hJ
  | cons event rest ih =>
    simp only [receiveEvents, bind_eq_ok] at h
    obtain ⟨-, -, received, hreceived, h⟩ := h
    have hnext := hstep earlier db event received List.mem_cons_self hJ hreceived
    have hrest := ih (fun e s a t ha => hstep e s a t (List.mem_cons_of_mem _ ha)) h hnext
    rw [List.append_assoc] at hrest
    exact hrest

/-- The same for a property of the state alone. -/
theorem receiveEvents_preserves {env : Surroundings} {sha256 : JsString → Digest}
    {clientId : ClientId} {time : EnvelopeTime} {clock : ℕ → ℤ} (P : Db → Prop)
    {events : List IncomingEvent}
    (hstep : ∀ s event t, event ∈ events → P s →
      receiveEvent env sha256 clientId time.iat s event = .ok t → P t)
    {asked : ℕ} {db db' : Db}
    (h : receiveEvents env sha256 clientId time clock asked events db = .ok db') (hP : P db) :
    P db' :=
  @receiveEvents_history env sha256 clientId time clock (fun _ => P) events
    (fun _ s event t => hstep s event t) asked [] db db' h hP

end DreamSso
