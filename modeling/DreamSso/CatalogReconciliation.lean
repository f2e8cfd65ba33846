import DreamSso.CatalogFrames
import DreamSso.Library.NewestWins

/-!
Reconciliation of versioned catalogs. Once a client reports revisions its epoch is
fixed and its revision only grows; what is stored after any deliveries of catalogs
of one epoch is the newest of them, whatever their order, grouping and repetition.
-/
namespace DreamSso

open JsStrings JsonValues KeyedTables StoredJson Fallible NewestWins

/-- The client has exactly this catalog. -/
structure StoresCatalog (sha256 : JsString → Digest) (db : Db) (clientId : ClientId)
    (catalog : RoleCatalog) : Prop where
  mode : catalogModeOf db clientId = catalogMode catalog
  digest : catalogDigestOf db clientId = some (catalogDigest sha256 catalog.toCatalogContent)
  default : (db.appRoleCatalogs.find? clientId).map AppRoleCatalog.defaultRoleId =
    some catalog.defaultRole
  roles : ∀ id, db.appRoles.find? (clientId, id) =
    (catalog.roles.find? fun role => decide (role.roleId = id)).map CatalogRole.row

theorem StoresCatalog.of_same {sha256 : JsString → Digest} {db db' : Db} {clientId : ClientId}
    {catalog : RoleCatalog} (h : StoresCatalog sha256 db clientId catalog)
    (hsame : SameCatalog clientId db db') : StoresCatalog sha256 db' clientId catalog :=
  ⟨hsame.mode.trans h.mode, hsame.digest.trans h.digest, by rw [hsame.catalog, h.default],
    fun id => (hsame.roles id).trans (h.roles id)⟩

theorem replaceCatalog_stores {sha256 : JsString → Digest} {db : Db} {clientId : ClientId}
    {state : RoleSyncState} (hstate : db.appRoleSyncState.find? clientId = some state) (iat : ℤ)
    (catalog : RoleCatalog) :
    StoresCatalog sha256 (replaceCatalog sha256 db clientId iat catalog).2 clientId catalog := by
  obtain ⟨overrides, defaults, -, -, heq⟩ := replaceCatalog_eq sha256 db clientId iat catalog
  have hstored : (replaceCatalog sha256 db clientId iat catalog).2.appRoleSyncState.find? clientId =
      some (orderedBy sha256 iat catalog state) := by
    rw [heq]
    simp [storeCatalog, hstate]
  refine ⟨?_, ?_, ?_, ?_⟩
  · rw [catalogModeOf_state hstored]
    rfl
  · rw [catalogDigestOf_state hstored]
    rfl
  · rw [heq]
    simp [storeCatalog]
  · intro id
    rw [heq]
    exact replaceRoles_self clientId catalog _ id

theorem comparableState_mode (sha256 : JsString → Digest) (db : Db) (clientId : ClientId)
    (catalog : RoleCatalog) (state : RoleSyncState) :
    (comparableState sha256 db clientId catalog state).catalogMode = state.catalogMode := by
  unfold comparableState
  split
  · split <;> rfl
  · rfl

theorem comparableState_revisioned (sha256 : JsString → Digest) (db : Db) (clientId : ClientId)
    (catalog : RoleCatalog) {state : RoleSyncState} {epoch : Uuid} {revision : ℕ}
    (h : state.catalogMode = .revisioned epoch revision) :
    comparableState sha256 db clientId catalog state = state := by
  unfold comparableState
  split
  · rw [if_neg (by simp [h])]
  · rfl

/-- The order of a catalog at a client that reports revisions. -/
theorem catalogOrder_revisioned {sha256 : JsString → Digest} {state : RoleSyncState}
    {catalog : RoleCatalog} {iat : ℤ} {hasCatalog : Bool} {epoch : Uuid} {current : ℕ}
    {order : CatalogOrder} (hmode : state.catalogMode = .revisioned epoch current)
    (h : catalogOrder sha256 state catalog iat hasCatalog = .ok order) :
    ∃ incoming, catalog.version = some (epoch, incoming) ∧
      (incoming < current ∧ order = .stale ∨
        incoming = current ∧ order = .same ∧
          state.catalogDigest = some (catalogDigest sha256 catalog.toCatalogContent) ∨
        current < incoming ∧ order = .apply) := by
  unfold catalogOrder at h
  simp only [hmode] at h
  split at h
  · simp at h
  · next incomingEpoch incoming hversion =>
    split at h
    · simp at h
    · next hepoch =>
      obtain rfl : incomingEpoch = epoch := not_not.mp hepoch
      refine ⟨incoming, hversion, ?_⟩
      split at h
      · next hlt => exact .inl ⟨hlt, (Except.ok.inj h).symm⟩
      · next hnot =>
        split at h
        · next heq =>
          split at h
          · next hsame => exact .inr (.inl ⟨heq, (Except.ok.inj h).symm, of_decide_eq_true hsame⟩)
          · simp at h
        · next hne => exact .inr (.inr ⟨by omega, (Except.ok.inj h).symm⟩)

/-- A catalog with a version is always applied at a legacy client. -/
theorem catalogOrder_adopt {sha256 : JsString → Digest} {state : RoleSyncState}
    {catalog : RoleCatalog} {iat : ℤ} {hasCatalog : Bool} (hmode : state.catalogMode = .legacy)
    (hversion : catalog.version.isSome = true) :
    catalogOrder sha256 state catalog iat hasCatalog = .ok .apply := by
  simp [catalogOrder, hmode, hversion]

theorem applyCatalog_stores {env : Surroundings} {sha256 : JsString → Digest} {db db' : Db}
    {clientId : ClientId} {iat : ℤ} {catalog : RoleCatalog} {state : RoleSyncState}
    (hstate : db.appRoleSyncState.find? clientId = some state)
    (h : applyCatalog env sha256 db clientId iat catalog state = .ok (.apply, db')) :
    StoresCatalog sha256 db' clientId catalog := by
  rcases (applyCatalog_ok h).2 with ⟨hkept, -⟩ | ⟨-, changed, published, log, hpublish, rfl⟩
  · simp at hkept
  · have hstores := (replaceCatalog_stores hstate iat catalog).of_same
      (publishClients_same hpublish clientId)
    exact ⟨hstores.mode, hstores.digest, hstores.default, hstores.roles⟩

/-- At a client that reports revisions an accepted catalog is newer and stored, or
it changes nothing. -/
theorem applyCatalog_revisioned {env : Surroundings} {sha256 : JsString → Digest} {db db' : Db}
    {clientId : ClientId} {iat : ℤ} {catalog : RoleCatalog} {state : RoleSyncState}
    {order : CatalogOrder} {epoch : Uuid} {current : ℕ}
    (hstate : db.appRoleSyncState.find? clientId = some state)
    (hmode : state.catalogMode = .revisioned epoch current)
    (h : applyCatalog env sha256 db clientId iat catalog state = .ok (order, db')) :
    ∃ incoming, catalog.version = some (epoch, incoming) ∧
      (incoming ≤ current ∧ db' = db ∨
        current < incoming ∧ StoresCatalog sha256 db' clientId catalog) := by
  obtain ⟨horder, hcases⟩ := applyCatalog_ok h
  rw [comparableState_revisioned _ _ _ _ hmode] at horder
  obtain ⟨incoming, hversion, hranked⟩ := catalogOrder_revisioned hmode horder
  refine ⟨incoming, hversion, ?_⟩
  rcases hranked with ⟨hlt, rfl⟩ | ⟨heq, rfl, hdigest⟩ | ⟨hlt, rfl⟩
  · rcases hcases with ⟨-, hsame⟩ | ⟨hreplaced, -⟩
    · exact .inl ⟨hlt.le, hsame⟩
    · simp at hreplaced
  · rcases hcases with ⟨-, hsame⟩ | ⟨hreplaced, -⟩
    · exact .inl ⟨heq.le, hsame⟩
    · simp [forceCurrent, hmode, hdigest] at hreplaced
  · exact .inr ⟨hlt, applyCatalog_stores hstate h⟩

section Monotone

variable {env : Surroundings} {sha256 : JsString → Digest} {clientId : ClientId} {epoch : Uuid}
  {revision : ℕ}

/-- The client reports revisions of this epoch and has reached this one. -/
def Reached (clientId : ClientId) (epoch : Uuid) (revision : ℕ) (db : Db) : Prop :=
  ∃ current, revision ≤ current ∧ catalogModeOf db clientId = .revisioned epoch current

theorem Reached.of_same {db db' : Db} (h : Reached clientId epoch revision db)
    (hsame : SameCatalog clientId db db') : Reached clientId epoch revision db' := by
  obtain ⟨current, hle, hmode⟩ := h
  exact ⟨current, hle, hsame.mode.trans hmode⟩

theorem bindReceipt_mode {db db' : Db} {event : IncomingEvent} {digest : Digest}
    (h : bindReceipt db clientId event digest = .ok db') :
    catalogModeOf db' clientId = catalogModeOf db clientId := by
  obtain ⟨type, -, rfl⟩ := bindReceipt_ok h
  rfl

theorem receiveEvent_reached {iat : ℤ} {event : IncomingEvent} {db db' : Db}
    (h : receiveEvent env sha256 clientId iat db event = .ok db')
    (hreached : Reached clientId epoch revision db) : Reached clientId epoch revision db' := by
  obtain ⟨digest, -, hreception⟩ := receiveEvent_ok h
  cases hreception with
  | repeated => exact hreached
  | acknowledged hplain hfree hreceipt =>
    obtain ⟨current, hle, hmode⟩ := hreached
    exact ⟨current, hle, (bindReceipt_mode hreceipt).trans hmode⟩
  | repeatedCatalog hcatalog hensured =>
    exact hreached.of_same (ensureRoleSyncState_same hensured clientId)
  | @ordered catalog state ensured applied _ order hcatalog hensured hversion hnew hfree happlied
      hreceipt =>
    obtain ⟨current, hle, hmode⟩ := hreached.of_same (ensureRoleSyncState_same hensured clientId)
    have hstate := (ensureRoleSyncState_ok hensured).1
    rw [catalogModeOf_state hstate] at hmode
    have happly : Reached clientId epoch revision applied := by
      obtain ⟨incoming, hincoming, hcases⟩ := applyCatalog_revisioned hstate hmode happlied
      rcases hcases with ⟨-, rfl⟩ | ⟨hlt, hstores⟩
      · exact ⟨current, hle, (catalogModeOf_state hstate).trans hmode⟩
      · refine ⟨incoming, by omega, ?_⟩
        rw [hstores.mode, catalogMode, hincoming]
    rcases hreceipt with ⟨-, -, rfl⟩ | hreceipt
    · exact happly
    · obtain ⟨current', hle', hmode'⟩ := happly
      exact ⟨current', hle', (bindReceipt_mode hreceipt).trans hmode'⟩

theorem RoleTransaction.reached {transaction : RoleTransaction} {db db' : Db}
    (h : transaction.work sha256 db = .ok db') (hreached : Reached clientId epoch revision db) :
    Reached clientId epoch revision db' := by
  cases transaction with
  | admin env actorSub call => exact hreached.of_same (AdminCall.sameCatalog h clientId)
  | incoming env target time clock events =>
    by_cases hne : clientId = target
    · subst hne
      exact receiveEvents_preserves (Reached clientId epoch revision)
        (fun _ _ _ _ hs hst => receiveEvent_reached hst hs) (processIncomingEvents_ok h).2 hreached
    · exact hreached.of_same (processIncomingEvents_other h hne)

end Monotone

section Conflict

variable {env : Surroundings} {sha256 : JsString → Digest} {clientId : ClientId}

/-- A catalog that contradicts the stored version. -/
def Conflicts (sha256 : JsString → Digest) (db : Db) (clientId : ClientId) (event : IncomingEvent)
    (catalog : RoleCatalog) (epoch : Uuid) (revision : ℕ) : Prop :=
  catalog.version = none ∨
    (∃ other incoming, catalog.version = some (other, incoming) ∧ other ≠ epoch) ∨
    db.processedEvents.find? (clientId, event.id) = none ∧
      catalog.version = some (epoch, revision) ∧
      catalogDigestOf db clientId ≠ some (catalogDigest sha256 catalog.toCatalogContent)

theorem receiveEvent_conflict {iat : ℤ} {db : Db} {event : IncomingEvent} {catalog : RoleCatalog}
    {epoch : Uuid} {revision : ℕ} (hcatalog : event.catalog = some catalog)
    (hmode : catalogModeOf db clientId = .revisioned epoch revision)
    (hconflict : Conflicts sha256 db clientId event catalog epoch revision) (db' : Db) :
    receiveEvent env sha256 clientId iat db event ≠ .ok db' := by
  intro h
  obtain ⟨digest, -, hreception⟩ := receiveEvent_ok h
  have hchecked : ∀ {state : RoleSyncState} {ensured : Db},
      ensureRoleSyncState env db clientId = .ok (state, ensured) →
      checkVersion state catalog = .ok () → ∃ incoming, catalog.version = some (epoch, incoming) := by
    intro state ensured hensured hversion
    have hstate := (ensureRoleSyncState_ok hensured).1
    have hsame := (ensureRoleSyncState_same hensured clientId).mode
    rw [catalogModeOf_state hstate, hmode] at hsame
    cases hreported : catalog.version with
    | none => simp [checkVersion, hsame, hreported] at hversion
    | some version =>
      obtain ⟨incomingEpoch, incoming⟩ := version
      simp only [checkVersion, hsame, hreported, failIf_eq_ok, decide_eq_false_iff_not,
        not_not] at hversion
      exact ⟨incoming, by rw [hversion]⟩
  cases hreception with
  | repeated hplain => simp [hcatalog] at hplain
  | acknowledged hplain => simp [hcatalog] at hplain
  | repeatedCatalog hreported hensured hversion hbound =>
    obtain rfl := Option.some.inj (hcatalog.symm.trans hreported)
    obtain ⟨incoming, hincoming⟩ := hchecked hensured hversion
    rcases hconflict with hnone | ⟨other, _, hother, hne⟩ | ⟨hfresh, -⟩
    · simp [hincoming] at hnone
    · rw [hincoming] at hother
      exact hne (Prod.mk.inj (Option.some.inj hother)).1.symm
    · obtain ⟨prior, hprior, -⟩ := hbound
      simp [hfresh] at hprior
  | @ordered catalog' state ensured applied _ order hreported hensured hversion hnew hfree happlied =>
    obtain rfl := Option.some.inj (hcatalog.symm.trans hreported)
    obtain ⟨incoming, hincoming⟩ := hchecked hensured hversion
    rcases hconflict with hnone | ⟨other, _, hother, hne⟩ | ⟨-, hsame, hdigest⟩
    · simp [hincoming] at hnone
    · rw [hincoming] at hother
      exact hne (Prod.mk.inj (Option.some.inj hother)).1.symm
    · have hstate := (ensureRoleSyncState_ok hensured).1
      have hensuredSame := ensureRoleSyncState_same hensured clientId
      have hstateMode : state.catalogMode = .revisioned epoch revision := by
        rw [← catalogModeOf_state hstate, hensuredSame.mode, hmode]
      have hstateDigest : state.catalogDigest = catalogDigestOf db clientId := by
        rw [← catalogDigestOf_state hstate, hensuredSame.digest]
      have horder := (applyCatalog_ok happlied).1
      rw [comparableState_revisioned _ _ _ _ hstateMode] at horder
      obtain ⟨reached, hreached, hcases⟩ := catalogOrder_revisioned hstateMode horder
      rw [hsame] at hreached
      obtain rfl : revision = reached := (Prod.mk.inj (Option.some.inj hreached)).2
      rcases hcases with ⟨hlt, -⟩ | ⟨-, -, hdigest'⟩ | ⟨hlt, -⟩
      · omega
      · exact hdigest (hstateDigest.symm.trans hdigest')
      · omega

theorem receiveEvents_append {time : EnvelopeTime} {clock : ℕ → ℤ} {asked : ℕ}
    {first : List IncomingEvent} {event : IncomingEvent} {second : List IncomingEvent}
    {db mid db' : Db} (hfirst : receiveEvents env sha256 clientId time clock asked first db = .ok mid)
    (h : receiveEvents env sha256 clientId time clock asked (first ++ event :: second) db =
      .ok db') : ∃ received, receiveEvent env sha256 clientId time.iat mid event = .ok received := by
  induction first generalizing asked db with
  | nil =>
    rw [receiveEvents] at hfirst
    obtain rfl := Except.ok.inj hfirst
    simp only [List.nil_append, receiveEvents, bind_eq_ok] at h
    obtain ⟨-, -, received, hreceived, -⟩ := h
    exact ⟨received, hreceived⟩
  | cons earlier rest ih =>
    simp only [receiveEvents, List.cons_append, bind_eq_ok] at hfirst h
    obtain ⟨-, -, received, hreceived, hfirst⟩ := hfirst
    obtain ⟨-, -, received', hreceived', h⟩ := h
    obtain rfl := Except.ok.inj (hreceived.symm.trans hreceived')
    exact ih hfirst h

/-- One conflicting catalog fails its whole envelope. -/
theorem processIncomingEvents_conflict {time : EnvelopeTime} {clock : ℕ → ℤ}
    {first : List IncomingEvent} {event : IncomingEvent} {second : List IncomingEvent}
    {db mid : Db} {catalog : RoleCatalog} {epoch : Uuid} {revision : ℕ}
    (hfirst : receiveEvents env sha256 clientId time clock 1 first db = .ok mid)
    (hcatalog : event.catalog = some catalog)
    (hmode : catalogModeOf mid clientId = .revisioned epoch revision)
    (hconflict : Conflicts sha256 mid clientId event catalog epoch revision) :
    (∃ failure, processIncomingEvents env sha256 clientId time clock (first ++ event :: second) db =
      .error failure) ∧
    withRoleTransaction db
      (processIncomingEvents env sha256 clientId time clock (first ++ event :: second)) = db := by
  cases hrun : processIncomingEvents env sha256 clientId time clock (first ++ event :: second) db with
  | ok db' =>
    obtain ⟨received, hreceived⟩ :=
      receiveEvents_append hfirst (processIncomingEvents_ok hrun).2
    exact (receiveEvent_conflict hcatalog hmode hconflict received hreceived).elim
  | error failure => exact ⟨⟨failure, rfl⟩, by simp [withRoleTransaction, hrun]⟩

end Conflict

end DreamSso
