import DreamSso.CatalogEffects
import DreamSso.RoleCalls
import DreamSso.RoleTransactions

/-!
Frames of the catalog of one client. Administration, publications and the
catalogs of other clients leave the roles, the default, the ordering state and
the inbox receipts of a client as they are.
-/
namespace DreamSso

open JsStrings JsonValues KeyedTables StoredJson Fallible

/-- The ordering state of a client; a client without a row is legacy. -/
def catalogModeOf (db : Db) (clientId : ClientId) : CatalogMode :=
  (db.appRoleSyncState.find? clientId).elim .legacy RoleSyncState.catalogMode

def catalogDigestOf (db : Db) (clientId : ClientId) : Option Digest :=
  (db.appRoleSyncState.find? clientId).bind RoleSyncState.catalogDigest

theorem catalogModeOf_state {db : Db} {clientId : ClientId} {state : RoleSyncState}
    (h : db.appRoleSyncState.find? clientId = some state) :
    catalogModeOf db clientId = state.catalogMode := by
  rw [catalogModeOf, h]
  rfl

theorem catalogDigestOf_state {db : Db} {clientId : ClientId} {state : RoleSyncState}
    (h : db.appRoleSyncState.find? clientId = some state) :
    catalogDigestOf db clientId = state.catalogDigest := by
  rw [catalogDigestOf, h]
  rfl

/-- The stored catalog of a client and what orders the next one. -/
structure SameCatalog (clientId : ClientId) (db db' : Db) : Prop where
  mode : catalogModeOf db' clientId = catalogModeOf db clientId
  digest : catalogDigestOf db' clientId = catalogDigestOf db clientId
  roles : ∀ id, db'.appRoles.find? (clientId, id) = db.appRoles.find? (clientId, id)
  catalog : db'.appRoleCatalogs.find? clientId = db.appRoleCatalogs.find? clientId
  receipts : ∀ id, db'.processedEvents.find? (clientId, id) = db.processedEvents.find? (clientId, id)
  row : db.appRoleSyncState.contains clientId = true →
    db'.appRoleSyncState.contains clientId = true

theorem SameCatalog.refl (clientId : ClientId) (db : Db) : SameCatalog clientId db db :=
  ⟨rfl, rfl, fun _ => rfl, rfl, fun _ => rfl, id⟩

theorem SameCatalog.trans {clientId : ClientId} {a b c : Db} (h : SameCatalog clientId a b)
    (h' : SameCatalog clientId b c) : SameCatalog clientId a c :=
  ⟨h'.mode.trans h.mode, h'.digest.trans h.digest, fun id => (h'.roles id).trans (h.roles id),
    h'.catalog.trans h.catalog, fun id => (h'.receipts id).trans (h.receipts id),
    fun hrow => h'.row (h.row hrow)⟩

/-- A client whose state row is the same, or is created unused. -/
theorem SameCatalog.of_unpublished {clientId : ClientId} {db db' : Db} (h : Unpublished db db')
    (hstate : db'.appRoleSyncState.find? clientId = db.appRoleSyncState.find? clientId ∨
      ∃ state state', db'.appRoleSyncState.find? clientId = some state' ∧
        (db.appRoleSyncState.find? clientId = some state ∨
          db.appRoleSyncState.find? clientId = none ∧ state.Unused) ∧
        state'.catalogMode = state.catalogMode ∧ state'.catalogDigest = state.catalogDigest) :
    SameCatalog clientId db db' := by
  have hordering : catalogModeOf db' clientId = catalogModeOf db clientId ∧
      catalogDigestOf db' clientId = catalogDigestOf db clientId := by
    rcases hstate with hsame | ⟨state, state', hafter, hbefore, hmode, hdigest⟩
    · simp only [catalogModeOf, catalogDigestOf, hsame, and_self]
    · rw [catalogModeOf_state hafter, catalogDigestOf_state hafter, hmode, hdigest]
      rcases hbefore with hold | ⟨hnone, -, hlegacy, hunknown⟩
      · exact ⟨(catalogModeOf_state hold).symm, (catalogDigestOf_state hold).symm⟩
      · simp [catalogModeOf, catalogDigestOf, hnone, hlegacy, hunknown]
  refine ⟨hordering.1, hordering.2, fun id => ?_, ?_, fun id => ?_, ?_⟩
  · rw [h.tables]
  · rw [h.tables]
  · rw [h.inbox]
  · intro hrow
    rcases hstate with hsame | ⟨state, state', hafter, -⟩
    · rw [Table.contains, hsame]
      exact hrow
    · exact (Table.contains_iff _ _).mpr ⟨state', hafter⟩

section Publication

variable {env : Surroundings} {db db' : Db} {clientId : ClientId}

theorem ensureRoleSyncState_same {state : RoleSyncState}
    (h : ensureRoleSyncState env db clientId = .ok (state, db')) (other : ClientId) :
    SameCatalog other db db' := by
  obtain ⟨hkept, -, -, hothers⟩ := ensureRoleSyncState_unpublished h
  obtain ⟨hstate, hcases⟩ := ensureRoleSyncState_ok h
  apply SameCatalog.of_unpublished hkept
  by_cases hother : other = clientId
  · subst hother
    right
    refine ⟨state, state, hstate, ?_, rfl, rfl⟩
    rcases hcases with rfl | ⟨hnone, hunused, -⟩
    · exact .inl hstate
    · exact .inr ⟨hnone, hunused⟩
  · exact .inl (hothers other hother)

theorem PublishedClient.sameCatalog {changed : List EffectiveRow}
    (h : PublishedClient db db' clientId changed) (other : ClientId) : SameCatalog other db db' := by
  apply SameCatalog.of_unpublished h.unpublished
  by_cases hother : other = clientId
  · subst hother
    by_cases hchanged : changed = []
    · obtain ⟨-, -, hsame | ⟨hnone, state, hstate, hunused⟩⟩ := h.quiet hchanged
      · exact .inl hsame
      · exact .inr ⟨state, state, hstate, .inr ⟨hnone, hunused⟩, rfl, rfl⟩
    · obtain ⟨state, state', hafter, hbefore, -, -, hmode, hdigest, -⟩ := h.reported hchanged
      exact .inr ⟨state, state', hafter, hbefore, hmode, hdigest⟩
  · exact .inl (h.others other hother)

theorem publishClients_same {subjects : Option (List Uuid)} {options : PublishOptions}
    {clientIds : List ClientId} {count : ℕ}
    (h : publishClients env subjects options db clientIds = .ok (count, db')) (other : ClientId) :
    SameCatalog other db db' := by
  induction clientIds generalizing db count with
  | nil =>
    simp only [publishClients, Except.ok.injEq, Prod.mk.injEq] at h
    rw [h.2]
    exact SameCatalog.refl _ _
  | cons clientId rest ih =>
    rw [publishClients, bind_eq_ok] at h
    obtain ⟨⟨first, mid⟩, hfirst, h⟩ := h
    rw [bind_eq_ok] at h
    obtain ⟨⟨others, last⟩, hrest, h⟩ := h
    simp only [Except.ok.injEq, Prod.mk.injEq] at h
    obtain ⟨-, rfl⟩ := h
    exact ((publishClient_ok hfirst).2.sameCatalog other).trans (ih hrest)

theorem publishIf_same {needed : Bool} {clientIds : List ClientId} {subjects : Option (List Uuid)}
    (h : publishIf needed env db clientIds subjects = .ok db') (other : ClientId) :
    SameCatalog other db db' := by
  unfold publishIf at h
  split at h
  · cases hpublish : publishRoleChanges env db clientIds subjects .default with
    | error failure => simp [hpublish, Except.map] at h
    | ok result =>
      simp only [hpublish, Except.map, Except.ok.injEq] at h
      exact h ▸ publishClients_same hpublish other
  · exact (Except.ok.inj h) ▸ SameCatalog.refl _ _

end Publication

section Calls

variable {env : Surroundings} {db db' : Db}

/-- No administration call touches a catalog or the inbox. -/
theorem AdminCall.sameCatalog {actorSub : JsString} {call : AdminCall}
    (h : call.run env actorSub db = .ok db') (clientId : ClientId) : SameCatalog clientId db db' := by
  cases call with
  | applyUserAccess targetSub changes action =>
    obtain ⟨change, permissions, published, log, -, -, hpublish, rfl⟩ := applyUserAccess_ok h
    have hsame := publishIf_same hpublish clientId
    exact ⟨hsame.mode, hsame.digest, hsame.roles, hsame.catalog, hsame.receipts, hsame.row⟩
  | applyRoleAccess slug changes action =>
    obtain ⟨change, permissions, published, log, -, -, hpublish, rfl⟩ := applyRoleAccess_ok h
    have hsame := publishIf_same hpublish clientId
    exact ⟨hsame.mode, hsame.digest, hsame.roles, hsame.catalog, hsame.receipts, hsame.row⟩
  | createOrgRole body =>
    cases hcreate : DreamSso.createOrgRole db actorSub body with
    | error failure => simp [AdminCall.run, hcreate, Except.map] at h
    | ok created =>
      simp only [AdminCall.run, hcreate, Except.map, Except.ok.injEq] at h
      obtain ⟨slug, created⟩ := created
      obtain ⟨actor, role, permissions, defaults, log, -, -, -, -, -, -, rfl⟩ :=
        createOrgRole_ok hcreate
      subst h
      exact ⟨rfl, rfl, fun _ => rfl, rfl, fun _ => rfl, id⟩
  | patchOrgRole slug body =>
    obtain ⟨actor, stored, role, edited, log, -, -, -, -, rfl⟩ := patchOrgRole_ok h
    exact ⟨rfl, rfl, fun _ => rfl, rfl, fun _ => rfl, id⟩
  | deleteOrgRole slug =>
    obtain ⟨actor, stored, log, -, -, rfl⟩ := deleteOrgRole_ok h
    exact ⟨rfl, rfl, fun _ => rfl, rfl, fun _ => rfl, id⟩
  | setDefaultOrgRole slug =>
    obtain ⟨settings, log, rfl⟩ := setDefaultOrgRole_ok h
    exact ⟨rfl, rfl, fun _ => rfl, rfl, fun _ => rfl, id⟩
  | createOrgUser input =>
    obtain ⟨actor, sub, slug, role, identity, log, -, -, -, -, -, -, -, -, rfl⟩ :=
      createOrgUser_ok h
    exact ⟨rfl, rfl, fun _ => rfl, rfl, fun _ => rfl, id⟩

end Calls

section Incoming

variable {env : Surroundings} {sha256 : JsString → Digest} {clientId : ClientId} {iat : ℤ}
  {db db' : Db}

theorem bindReceipt_other {event : IncomingEvent} {digest : Digest}
    (h : bindReceipt db clientId event digest = .ok db') {other : ClientId} (hne : other ≠ clientId) :
    SameCatalog other db db' := by
  obtain ⟨type, -, rfl⟩ := bindReceipt_ok h
  refine ⟨rfl, rfl, fun _ => rfl, rfl, fun id => ?_, id⟩
  exact Table.find?_upsert_ne _ _ fun hkey => hne (Prod.mk.inj hkey).1

theorem replaceCatalog_other (catalog : RoleCatalog) {other : ClientId} (hne : other ≠ clientId) :
    SameCatalog other db (replaceCatalog sha256 db clientId iat catalog).2 := by
  obtain ⟨overrides, defaults, -, -, heq⟩ := replaceCatalog_eq sha256 db clientId iat catalog
  have hstate : (storeCatalog sha256 clientId iat catalog db).appRoleSyncState.find? other =
      db.appRoleSyncState.find? other := by
    rw [storeCatalog, Table.find?_updateWhere]
    cases db.appRoleSyncState.find? other <;> simp [hne]
  rw [heq]
  refine ⟨?_, ?_, fun id => replaceRoles_other hne catalog _ id, Table.find?_upsert_ne _ _ hne,
    fun _ => rfl, ?_⟩
  · simp only [catalogModeOf, hstate]
  · simp only [catalogDigestOf, hstate]
  · intro hrow
    rw [Table.contains, hstate]
    exact hrow

theorem applyCatalog_other {catalog : RoleCatalog} {state : RoleSyncState} {order : CatalogOrder}
    (h : applyCatalog env sha256 db clientId iat catalog state = .ok (order, db'))
    {other : ClientId} (hne : other ≠ clientId) : SameCatalog other db db' := by
  rcases (applyCatalog_ok h).2 with ⟨-, rfl⟩ | ⟨-, changed, published, log, hpublish, rfl⟩
  · exact SameCatalog.refl _ _
  · have hsame := (replaceCatalog_other catalog hne).trans (publishClients_same hpublish other)
    exact ⟨hsame.mode, hsame.digest, hsame.roles, hsame.catalog, hsame.receipts, hsame.row⟩

theorem replaceCatalog_inbox (catalog : RoleCatalog) :
    (replaceCatalog sha256 db clientId iat catalog).2.processedEvents = db.processedEvents := by
  obtain ⟨overrides, defaults, -, -, heq⟩ := replaceCatalog_eq sha256 db clientId iat catalog
  rw [heq]
  rfl

theorem replaceCatalog_row (catalog : RoleCatalog)
    (hrow : db.appRoleSyncState.contains clientId = true) :
    (replaceCatalog sha256 db clientId iat catalog).2.appRoleSyncState.contains clientId = true := by
  obtain ⟨overrides, defaults, -, -, heq⟩ := replaceCatalog_eq sha256 db clientId iat catalog
  obtain ⟨state, hstate⟩ := (Table.contains_iff _ _).mp hrow
  rw [heq]
  simp [storeCatalog, Table.contains, hstate]

/-- A catalog leaves the inbox and keeps the state row of its client. -/
theorem applyCatalog_kept {catalog : RoleCatalog} {state : RoleSyncState} {order : CatalogOrder}
    (h : applyCatalog env sha256 db clientId iat catalog state = .ok (order, db')) :
    db'.processedEvents = db.processedEvents ∧
      (db.appRoleSyncState.contains clientId = true →
        db'.appRoleSyncState.contains clientId = true) := by
  rcases (applyCatalog_ok h).2 with ⟨-, rfl⟩ | ⟨-, changed, published, log, hpublish, rfl⟩
  · exact ⟨rfl, id⟩
  · constructor
    · show published.processedEvents = _
      rw [(publishClients_unpublished hpublish).inbox, replaceCatalog_inbox]
    · intro hrow
      exact (publishClients_same hpublish clientId).row (replaceCatalog_row catalog hrow)

/-- An event of one client leaves the catalogs of the others alone. -/
theorem receiveEvent_other {event : IncomingEvent}
    (h : receiveEvent env sha256 clientId iat db event = .ok db') {other : ClientId}
    (hne : other ≠ clientId) : SameCatalog other db db' := by
  obtain ⟨digest, -, hreception⟩ := receiveEvent_ok h
  cases hreception with
  | repeated => exact SameCatalog.refl _ _
  | acknowledged hplain hfree hreceipt => exact bindReceipt_other hreceipt hne
  | repeatedCatalog hcatalog hensured => exact ensureRoleSyncState_same hensured other
  | ordered hcatalog hensured hversion hnew hfree happlied hreceipt =>
    have hsame := (ensureRoleSyncState_same hensured other).trans (applyCatalog_other happlied hne)
    rcases hreceipt with ⟨-, -, rfl⟩ | hreceipt
    · exact hsame
    · exact hsame.trans (bindReceipt_other hreceipt hne)

theorem processIncomingEvents_other {time : EnvelopeTime} {clock : ℕ → ℤ}
    {events : List IncomingEvent}
    (h : processIncomingEvents env sha256 clientId time clock events db = .ok db')
    {other : ClientId} (hne : other ≠ clientId) : SameCatalog other db db' :=
  receiveEvents_preserves (SameCatalog other db)
    (fun _ _ _ _ hs hst => hs.trans (receiveEvent_other hst hne))
    (processIncomingEvents_ok h).2 (SameCatalog.refl _ _)

end Incoming

end DreamSso
