import DreamSso.CatalogReconciliation

/-!
Confluence of catalog deliveries. The stored catalog of a client is a newest-wins
register over the catalogs delivered to it: what it ends with is the catalog of
the greatest revision, and no delivery of these catalogs is refused.
-/
namespace DreamSso

open JsStrings JsonValues KeyedTables StoredJson Fallible NewestWins

def versionOf (event : IncomingEvent) : Option (Uuid × ℕ) :=
  event.catalog.bind RoleCatalog.version

def revisionOf (event : IncomingEvent) : ℕ := (versionOf event).elim 0 Prod.snd

/-- Catalogs of one epoch with distinct revisions and distinct event ids. -/
structure OneEpoch (epoch : Uuid) (events : List IncomingEvent) : Prop where
  versioned : ∀ event ∈ events, ∃ revision, versionOf event = some (epoch, revision)
  revisions : ∀ a ∈ events, ∀ b ∈ events, revisionOf a = revisionOf b → a = b
  ids : ∀ a ∈ events, ∀ b ∈ events, a.id = b.id → a = b

theorem OneEpoch.catalog {epoch : Uuid} {events : List IncomingEvent} (h : OneEpoch epoch events)
    {event : IncomingEvent} (hevent : event ∈ events) : ∃ catalog, event.catalog = some catalog ∧
      catalog.version = some (epoch, revisionOf event) := by
  obtain ⟨revision, hversion⟩ := h.versioned event hevent
  obtain ⟨catalog, hcatalog, hreported⟩ := Option.bind_eq_some_iff.mp hversion
  refine ⟨catalog, hcatalog, ?_⟩
  rw [hreported, revisionOf, hversion]
  rfl

/-- The client reports no revisions yet, or only older ones of this epoch. -/
def StartsBelow (db : Db) (clientId : ClientId) (epoch : Uuid) (events : List IncomingEvent) : Prop :=
  catalogModeOf db clientId = .legacy ∨ ∃ revision,
    catalogModeOf db clientId = .revisioned epoch revision ∧
      ∀ event ∈ events, revision < revisionOf event

/-- The stored catalog is the one a newest-wins register keeps. -/
def Keeps (sha256 : JsString → Digest) (epoch : Uuid) (events : List IncomingEvent)
    (clientId : ClientId) (db : Db) : Option IncomingEvent → Prop
  | none => StartsBelow db clientId epoch events
  | some top => top ∈ events ∧
      ∃ catalog, top.catalog = some catalog ∧ StoresCatalog sha256 db clientId catalog

/-- No receipt of these events is bound, except to the delivered event itself. -/
def Receipts (sha256 : JsString → Digest) (events : List IncomingEvent) (clientId : ClientId)
    (delivered : List IncomingEvent) (db : Db) : Prop :=
  ∀ event ∈ events, ∀ prior, db.processedEvents.find? (clientId, event.id) = some prior →
    historicalUnknown prior = true ∨
      event ∈ delivered ∧ prior.payloadDigest = some (sha256 (canonicalText event.json))

structure Reconciled (sha256 : JsString → Digest) (epoch : Uuid) (events : List IncomingEvent)
    (clientId : ClientId) (delivered : List IncomingEvent) (db : Db) : Prop where
  keeps : Keeps sha256 epoch events clientId db (offerAll revisionOf delivered)
  receipts : Receipts sha256 events clientId delivered db

section Deliveries

variable {env : Surroundings} {sha256 : JsString → Digest} {epoch : Uuid}
  {events delivered : List IncomingEvent} {clientId : ClientId} {db db' : Db}

theorem Keeps.of_same {kept : Option IncomingEvent}
    (h : Keeps sha256 epoch events clientId db kept) (hsame : SameCatalog clientId db db') :
    Keeps sha256 epoch events clientId db' kept := by
  cases kept with
  | none =>
    rcases h with hlegacy | ⟨revision, hmode, hbelow⟩
    · exact .inl (hsame.mode.trans hlegacy)
    · exact .inr ⟨revision, hsame.mode.trans hmode, hbelow⟩
  | some top =>
    obtain ⟨hmem, catalog, hcatalog, hstores⟩ := h
    exact ⟨hmem, catalog, hcatalog, hstores.of_same hsame⟩

theorem Receipts.of_same (h : Receipts sha256 events clientId delivered db)
    (hsame : SameCatalog clientId db db') : Receipts sha256 events clientId delivered db' := by
  intro event hevent prior hprior
  rw [hsame.receipts] at hprior
  exact h event hevent prior hprior

theorem Receipts.snoc (h : Receipts sha256 events clientId delivered db) (event : IncomingEvent) :
    Receipts sha256 events clientId (delivered ++ [event]) db := by
  intro other hother prior hprior
  exact (h other hother prior hprior).imp_right fun hbound =>
    ⟨List.mem_append_left _ hbound.1, hbound.2⟩

theorem Reconciled.of_same (h : Reconciled sha256 epoch events clientId delivered db)
    (hsame : SameCatalog clientId db db') :
    Reconciled sha256 epoch events clientId delivered db' :=
  ⟨h.keeps.of_same hsame, h.receipts.of_same hsame⟩

theorem Reconciled.snoc_bound (h : Reconciled sha256 epoch events clientId delivered db)
    {event : IncomingEvent} (hevent : event ∈ events)
    (hbound : Bound db clientId event (sha256 (canonicalText event.json))) :
    Reconciled sha256 epoch events clientId (delivered ++ [event]) db := by
  obtain ⟨prior, hprior, hdigest⟩ := hbound
  rcases h.receipts event hevent prior hprior with hhistorical | ⟨hdelivered, -⟩
  · simp [historicalUnknown, hdigest] at hhistorical
  · refine ⟨?_, h.receipts.snoc event⟩
    rw [offerAll_snoc, offer_mem revisionOf hdelivered]
    exact h.keeps

/-- The state row of the register's client agrees with what it keeps. -/
theorem Keeps.mode (hepoch : OneEpoch epoch events) {kept : Option IncomingEvent}
    (h : Keeps sha256 epoch events clientId db kept) :
    catalogModeOf db clientId = .legacy ∧ kept = none ∨ ∃ current,
      catalogModeOf db clientId = .revisioned epoch current ∧
        (kept = none ∧ (∀ event ∈ events, current < revisionOf event) ∨
          ∃ top, kept = some top ∧ current = revisionOf top) := by
  cases kept with
  | none =>
    rcases h with hlegacy | ⟨revision, hmode, hbelow⟩
    · exact .inl ⟨hlegacy, rfl⟩
    · exact .inr ⟨revision, hmode, .inl ⟨rfl, hbelow⟩⟩
  | some top =>
    obtain ⟨hmem, catalog, hcatalog, hstores⟩ := h
    obtain ⟨catalog', hcatalog', hversion⟩ := hepoch.catalog hmem
    obtain rfl := Option.some.inj (hcatalog.symm.trans hcatalog')
    refine .inr ⟨revisionOf top, ?_, .inr ⟨top, rfl, rfl⟩⟩
    rw [hstores.mode, catalogMode, hversion]

/-- An ordered catalog moves the register as the abstract one. -/
theorem applyCatalog_keeps (hepoch : OneEpoch epoch events) {iat : ℤ} {event : IncomingEvent}
    (hevent : event ∈ events) {catalog : RoleCatalog} (hcatalog : event.catalog = some catalog)
    {state : RoleSyncState} (hstate : db.appRoleSyncState.find? clientId = some state)
    {order : CatalogOrder}
    (h : applyCatalog env sha256 db clientId iat catalog state = .ok (order, db'))
    {kept : Option IncomingEvent} (hkeeps : Keeps sha256 epoch events clientId db kept) :
    Keeps sha256 epoch events clientId db' (offer revisionOf kept event) := by
  obtain ⟨catalog', hcatalog', hversion⟩ := hepoch.catalog hevent
  obtain rfl := Option.some.inj (hcatalog.symm.trans hcatalog')
  rcases hkeeps.mode hepoch with ⟨hlegacy, rfl⟩ | ⟨current, hmode, hcurrent⟩
  · rw [catalogModeOf_state hstate] at hlegacy
    have hlegacy' : (comparableState sha256 db clientId catalog state).catalogMode = .legacy :=
      (comparableState_mode sha256 db clientId catalog state).trans hlegacy
    have horder := (applyCatalog_ok h).1
    rw [catalogOrder_adopt hlegacy' (by rw [hversion]; rfl)] at horder
    obtain rfl := Except.ok.inj horder
    exact ⟨hevent, catalog, hcatalog, applyCatalog_stores hstate h⟩
  · rw [catalogModeOf_state hstate] at hmode
    obtain ⟨incoming, hincoming, hcases⟩ := applyCatalog_revisioned hstate hmode h
    rw [hversion] at hincoming
    obtain rfl : revisionOf event = incoming := (Prod.mk.inj (Option.some.inj hincoming)).2
    rcases hcurrent with ⟨rfl, hbelow⟩ | ⟨top, rfl, rfl⟩
    · rcases hcases with ⟨hle, -⟩ | ⟨-, hstores⟩
      · exact absurd (hbelow event hevent) (not_lt.mpr hle)
      · exact ⟨hevent, catalog, hcatalog, hstores⟩
    · rcases hcases with ⟨hle, rfl⟩ | ⟨hlt, hstores⟩
      · rw [offer, if_neg (not_lt.mpr hle)]
        exact hkeeps
      · rw [offer, if_pos hlt]
        exact ⟨hevent, catalog, hcatalog, hstores⟩

theorem bindReceipt_reconciled (hepoch : OneEpoch epoch events) {event : IncomingEvent}
    (hevent : event ∈ events)
    (h : bindReceipt db clientId event (sha256 (canonicalText event.json)) = .ok db')
    (hreconciled : Reconciled sha256 epoch events clientId (delivered ++ [event]) db) :
    Reconciled sha256 epoch events clientId (delivered ++ [event]) db' := by
  obtain ⟨type, -, rfl⟩ := bindReceipt_ok h
  have hkeeps := hreconciled.keeps
  constructor
  · cases hkept : offerAll revisionOf (delivered ++ [event]) with
    | none =>
      rw [hkept] at hkeeps
      exact hkeeps
    | some top =>
      rw [hkept] at hkeeps
      obtain ⟨hmem, catalog, hcatalog, hstores⟩ := hkeeps
      exact ⟨hmem, catalog, hcatalog, hstores.mode, hstores.digest, hstores.default, hstores.roles⟩
  · intro other hother prior hprior
    by_cases hid : other.id = event.id
    · obtain rfl := hepoch.ids other hother event hevent hid
      rw [Table.find?_upsert_self] at hprior
      rw [← Option.some.inj hprior]
      exact .inr ⟨by simp, rfl⟩
    · rw [Table.find?_upsert_ne _ _ fun hkey => hid (Prod.mk.inj hkey).2] at hprior
      exact hreconciled.receipts other hother prior hprior

/-- One delivered event moves the register as the abstract one. -/
theorem receiveEvent_reconciled (hepoch : OneEpoch epoch events) {iat : ℤ} {event : IncomingEvent}
    (hevent : event ∈ events) (h : receiveEvent env sha256 clientId iat db event = .ok db')
    (hreconciled : Reconciled sha256 epoch events clientId delivered db) :
    Reconciled sha256 epoch events clientId (delivered ++ [event]) db' := by
  obtain ⟨digest, hdigest, hreception⟩ := receiveEvent_ok h
  obtain rfl := inboxDigest_ok hdigest
  obtain ⟨catalog, hcatalog, -⟩ := hepoch.catalog hevent
  cases hreception with
  | repeated hplain => simp [hcatalog] at hplain
  | acknowledged hplain => simp [hcatalog] at hplain
  | repeatedCatalog _ hensured _ hbound =>
    exact (hreconciled.snoc_bound hevent hbound).of_same (ensureRoleSyncState_same hensured clientId)
  | @ordered catalog' state ensured applied _ order hreported hensured hversion hnew hfree happlied
      hreceipt =>
    obtain rfl := Option.some.inj (hcatalog.symm.trans hreported)
    have hbefore := hreconciled.of_same (ensureRoleSyncState_same hensured clientId)
    have hstate := (ensureRoleSyncState_ok hensured).1
    have hinbox := (applyCatalog_kept happlied).1
    have hafter : Reconciled sha256 epoch events clientId (delivered ++ [event]) applied := by
      constructor
      · rw [offerAll_snoc]
        exact applyCatalog_keeps hepoch hevent hcatalog hstate happlied hbefore.keeps
      · intro other hother prior hprior
        rw [hinbox] at hprior
        exact (hbefore.receipts.snoc event) other hother prior hprior
    rcases hreceipt with ⟨-, -, rfl⟩ | hreceipt
    · exact hafter
    · exact bindReceipt_reconciled hepoch hevent hreceipt hafter

theorem processIncomingEvents_reconciled (hepoch : OneEpoch epoch events) {time : EnvelopeTime}
    {clock : ℕ → ℤ} {envelope : List IncomingEvent} (henvelope : ∀ event ∈ envelope, event ∈ events)
    (h : processIncomingEvents env sha256 clientId time clock envelope db = .ok db')
    (hreconciled : Reconciled sha256 epoch events clientId delivered db) :
    Reconciled sha256 epoch events clientId (delivered ++ envelope) db' :=
  receiveEvents_history (Reconciled sha256 epoch events clientId)
    (fun _ _ event _ hmem hs hst => receiveEvent_reconciled hepoch (henvelope event hmem) hst hs)
    (processIncomingEvents_ok h).2 hreconciled

end Deliveries

/-- The events a transaction delivers to a client when it commits. -/
def committedEvents (sha256 : JsString → Digest) (clientId : ClientId) (db : Db)
    (transaction : RoleTransaction) : List IncomingEvent :=
  match transaction with
  | .incoming _ target _ _ envelope =>
      if target = clientId ∧ (transaction.work sha256 db).toOption.isSome = true then envelope else []
  | .admin .. => []

/-- The events of the committed envelopes of a client, in order. -/
def deliveredTo (sha256 : JsString → Digest) (clientId : ClientId) :
    Db → List RoleTransaction → List IncomingEvent
  | _, [] => []
  | db, transaction :: rest => committedEvents sha256 clientId db transaction ++
      deliveredTo sha256 clientId (transaction.commit sha256 db) rest

/-- The envelopes of the client only carry the given events. -/
def OnlyDelivers (clientId : ClientId) (events : List IncomingEvent)
    (transactions : List RoleTransaction) : Prop :=
  ∀ env time clock envelope, RoleTransaction.incoming env clientId time clock envelope ∈ transactions →
    ∀ event ∈ envelope, event ∈ events

theorem deliveredTo_mem {sha256 : JsString → Digest} {clientId : ClientId}
    {events : List IncomingEvent} {transactions : List RoleTransaction}
    (honly : OnlyDelivers clientId events transactions) {db : Db} :
    ∀ event ∈ deliveredTo sha256 clientId db transactions, event ∈ events := by
  induction transactions generalizing db with
  | nil => simp [deliveredTo]
  | cons transaction rest ih =>
    have hrest : OnlyDelivers clientId events rest :=
      fun env time clock envelope hmem => honly env time clock envelope (List.mem_cons_of_mem _ hmem)
    intro event hevent
    rw [deliveredTo, List.mem_append] at hevent
    rcases hevent with hfirst | hothers
    · unfold committedEvents at hfirst
      split at hfirst
      · next env target time clock envelope =>
        split at hfirst
        · next hcommitted =>
          obtain ⟨rfl, -⟩ := hcommitted
          exact honly env time clock envelope List.mem_cons_self event hfirst
        · simp at hfirst
      · simp at hfirst
    · exact ih hrest event hothers

theorem commit_reconciled {sha256 : JsString → Digest} {epoch : Uuid}
    {events : List IncomingEvent} {clientId : ClientId} (hepoch : OneEpoch epoch events)
    {transaction : RoleTransaction} (honly : OnlyDelivers clientId events [transaction])
    {delivered : List IncomingEvent} {db : Db}
    (h : Reconciled sha256 epoch events clientId delivered db) :
    Reconciled sha256 epoch events clientId
      (delivered ++ committedEvents sha256 clientId db transaction)
      (transaction.commit sha256 db) := by
  unfold RoleTransaction.commit
  cases hwork : transaction.work sha256 db with
  | error failure =>
    have hnone : committedEvents sha256 clientId db transaction = [] := by
      cases transaction with
      | admin env actorSub call => rfl
      | incoming env target time clock envelope => simp [committedEvents, hwork, Except.toOption]
    rw [hnone, List.append_nil, withRoleTransaction, hwork]
    exact h
  | ok db' =>
    rw [withRoleTransaction, hwork]
    cases transaction with
    | admin env actorSub call =>
      rw [committedEvents, List.append_nil]
      exact h.of_same (AdminCall.sameCatalog hwork clientId)
    | incoming env target time clock envelope =>
      by_cases htarget : target = clientId
      · subst htarget
        have hevents : committedEvents sha256 target db
            (.incoming env target time clock envelope) = envelope := by
          simp [committedEvents, hwork, Except.toOption]
        rw [hevents]
        exact processIncomingEvents_reconciled hepoch
          (honly env time clock envelope List.mem_cons_self) hwork h
      · have hevents : committedEvents sha256 clientId db
            (.incoming env target time clock envelope) = [] := by
          simp [committedEvents, htarget]
        rw [hevents, List.append_nil]
        exact h.of_same (processIncomingEvents_other hwork (Ne.symm htarget))

/-- Every run keeps the register reconciled with what was delivered. -/
theorem commitAll_reconciled {sha256 : JsString → Digest} {epoch : Uuid}
    {events : List IncomingEvent} {clientId : ClientId} (hepoch : OneEpoch epoch events)
    {transactions : List RoleTransaction} (honly : OnlyDelivers clientId events transactions)
    {delivered : List IncomingEvent} {db : Db}
    (h : Reconciled sha256 epoch events clientId delivered db) :
    Reconciled sha256 epoch events clientId
      (delivered ++ deliveredTo sha256 clientId db transactions) (commitAll sha256 db transactions) := by
  induction transactions generalizing db delivered with
  | nil =>
    rw [deliveredTo, List.append_nil]
    exact h
  | cons transaction rest ih =>
    have hfirst : OnlyDelivers clientId events [transaction] := by
      intro env time clock envelope hmem
      exact honly env time clock envelope (List.mem_cons.mpr (.inl (List.mem_singleton.mp hmem)))
    have hrest : OnlyDelivers clientId events rest :=
      fun env time clock envelope hmem => honly env time clock envelope (List.mem_cons_of_mem _ hmem)
    rw [deliveredTo, ← List.append_assoc]
    exact ih hrest (commit_reconciled hepoch hfirst h)

/-- The receiver refuses the envelope, as opposed to a failing statement. -/
def Failure.refusal : Failure → Bool
  | .event _ _ => true
  | _ => false

theorem Failure.not_refusal {failure : Failure} (h : failure.internal = true) :
    failure.refusal = false := by
  cases failure with
  | roleAccess status body => cases h
  | event code status => cases h
  | _ => rfl

section Failures

variable {env : Surroundings} {sha256 : JsString → Digest} {clientId : ClientId} {db : Db}
  {failure : Failure}

theorem reconcileAudit_failure {changed : ℕ}
    (h : reconcileAudit db clientId changed = .error failure) : failure.refusal = false := by
  unfold reconcileAudit at h
  split at h
  · simp at h
  · split at h
    · simp at h
    · rw [← Except.error.inj h]
      rfl

theorem bindReceipt_failure {event : IncomingEvent} {digest : Digest}
    (h : bindReceipt db clientId event digest = .error failure) : failure.refusal = false := by
  unfold bindReceipt at h
  simp only [bind_eq_error, reduceCtorEq, and_false, exists_false, or_false] at h
  unfold param at h
  split at h
  · simp at h
  · rw [← Except.error.inj h]
    rfl

variable {epoch : Uuid} {events delivered : List IncomingEvent}

/-- The order of a delivered catalog is always defined. -/
theorem catalogOrder_keeps (hepoch : OneEpoch epoch events) {iat : ℤ} {event : IncomingEvent}
    (hevent : event ∈ events) {catalog : RoleCatalog} (hcatalog : event.catalog = some catalog)
    {state : RoleSyncState} (hstate : db.appRoleSyncState.find? clientId = some state)
    {kept : Option IncomingEvent} (hkeeps : Keeps sha256 epoch events clientId db kept)
    (hasCatalog : Bool) : ∃ order, catalogOrder sha256
      (comparableState sha256 db clientId catalog state) catalog iat hasCatalog = .ok order := by
  obtain ⟨catalog', hcatalog', hversion⟩ := hepoch.catalog hevent
  obtain rfl := Option.some.inj (hcatalog.symm.trans hcatalog')
  rcases hkeeps.mode hepoch with ⟨hlegacy, -⟩ | ⟨current, hmode, hcurrent⟩
  · rw [catalogModeOf_state hstate] at hlegacy
    have hlegacy' : (comparableState sha256 db clientId catalog state).catalogMode = .legacy :=
      (comparableState_mode sha256 db clientId catalog state).trans hlegacy
    exact ⟨_, catalogOrder_adopt hlegacy' (by rw [hversion]; rfl)⟩
  · rw [catalogModeOf_state hstate] at hmode
    rw [comparableState_revisioned _ _ _ _ hmode]
    simp only [catalogOrder, hmode, hversion, ne_eq, not_true_eq_false, if_false]
    split
    · exact ⟨_, rfl⟩
    · split
      · next heq =>
        rcases hcurrent with ⟨-, hbelow⟩ | ⟨top, rfl, rfl⟩
        · have hlt := hbelow event hevent
          omega
        · -- the stored revision belongs to this very event, so the digests agree
          obtain ⟨htop, topCatalog, htopCatalog, hstores⟩ := hkeeps
          obtain rfl := hepoch.revisions event hevent top htop heq
          obtain rfl := Option.some.inj (hcatalog.symm.trans htopCatalog)
          have hdigest := hstores.digest
          rw [catalogDigestOf_state hstate] at hdigest
          simp [hdigest]
      · exact ⟨_, rfl⟩

theorem receiveEvent_failure (hepoch : OneEpoch epoch events) {iat : ℤ} {event : IncomingEvent}
    (hevent : event ∈ events) (hreconciled : Reconciled sha256 epoch events clientId delivered db)
    (h : receiveEvent env sha256 clientId iat db event = .error failure) :
    failure.refusal = false := by
  obtain ⟨catalog, hcatalog, hversion⟩ := hepoch.catalog hevent
  unfold receiveEvent at h
  rw [inboxDigest_catalog sha256 hcatalog, ok_bind, bind_eq_error] at h
  simp only [lockCatalogState, hcatalog] at h
  rcases h with hlock | ⟨⟨reported, ensured⟩, hlock, h⟩
  · rw [bind_eq_error] at hlock
    rcases hlock with hensure | ⟨⟨state, ensured⟩, hensured, hlock⟩
    · exact Failure.not_refusal (ensureRoleSyncState_failure hensure)
    · simp only [bind_eq_error, reduceCtorEq, and_false, exists_false, or_false] at hlock
      have hstate := (ensureRoleSyncState_ok hensured).1
      have hkeeps := hreconciled.keeps.of_same (ensureRoleSyncState_same hensured clientId)
      rcases hkeeps.mode hepoch with ⟨hlegacy, -⟩ | ⟨current, hmode, -⟩
      · rw [catalogModeOf_state hstate] at hlegacy
        simp [checkVersion, hlegacy] at hlock
      · rw [catalogModeOf_state hstate] at hmode
        simp [checkVersion, hmode, hversion, failIf] at hlock
  · simp only [bind_eq_ok] at hlock
    obtain ⟨⟨state, locked⟩, hensured, checked, -, hlock⟩ := hlock
    simp only [Except.ok.injEq, Prod.mk.injEq] at hlock
    obtain ⟨rfl, rfl⟩ := hlock
    have hstate := (ensureRoleSyncState_ok hensured).1
    have hkeeps := hreconciled.keeps.of_same (ensureRoleSyncState_same hensured clientId)
    simp only [Option.any_some] at h
    split at h
    · simp at h
    · next hnot =>
      split at h
      · next hconflict =>
        -- a receipt that is neither historical nor bound to this event is excluded
        obtain ⟨prior, hprior, hforeign⟩ := (Option.any_eq_true _ _).mp hconflict
        simp only [Bool.and_eq_true, Bool.not_eq_true'] at hforeign
        rcases hreconciled.receipts event hevent prior hprior with hhistorical | ⟨hdelivered, hbound⟩
        · simp [hhistorical] at hforeign
        · have hdigest : state.catalogDigest.isNone = false := by
            cases hkept : offerAll revisionOf delivered with
            | none =>
              rw [(offerAll_eq_none revisionOf).mp hkept] at hdelivered
              simp at hdelivered
            | some top =>
              rw [hkept] at hkeeps
              obtain ⟨-, topCatalog, -, hstores⟩ := hkeeps
              rw [← catalogDigestOf_state hstate, hstores.digest]
              rfl
          simp [hprior, hbound, hdigest] at hnot
      · rw [bind_eq_error] at h
        rcases h with happly | ⟨⟨order, applied⟩, -, h⟩
        · obtain ⟨order, horder⟩ := @catalogOrder_keeps sha256 clientId locked epoch events hepoch iat
            event hevent catalog hcatalog state hstate _ hkeeps
            (existingCatalog locked clientId).isSome
          unfold applyCatalog at happly
          rw [horder, ok_bind] at happly
          split at happly
          · simp at happly
          · simp only [bind_eq_error, reduceCtorEq, and_false, exists_false, or_false] at happly
            rcases happly with hpublish | ⟨published, -, haudit⟩
            · exact Failure.not_refusal (publishClients_failure hpublish)
            · exact reconcileAudit_failure haudit
        · simp only at h
          split at h
          · simp at h
          · exact bindReceipt_failure h

/-- A current envelope of these catalogs is not refused by the receiver. -/
theorem receiveEvents_failure (hepoch : OneEpoch epoch events) {time : EnvelopeTime}
    {clock : ℕ → ℤ} (hcurrent : ∀ asked, envelopeCurrent time (clock asked) = true)
    {envelope : List IncomingEvent} (henvelope : ∀ event ∈ envelope, event ∈ events) {asked : ℕ}
    (hreconciled : Reconciled sha256 epoch events clientId delivered db)
    (h : receiveEvents env sha256 clientId time clock asked envelope db = .error failure) :
    failure.refusal = false := by
  induction envelope generalizing asked db delivered with
  | nil => simp [receiveEvents] at h
  | cons event rest ih =>
    rw [receiveEvents, bind_eq_error] at h
    rcases h with hasked | ⟨-, -, h⟩
    · simp [assertEnvelopeCurrent, hcurrent, failIf] at hasked
    · have hevent := henvelope event List.mem_cons_self
      rw [bind_eq_error] at h
      rcases h with hfirst | ⟨received, hreceived, h⟩
      · exact receiveEvent_failure hepoch hevent hreconciled hfirst
      · exact ih (fun e he => henvelope e (List.mem_cons_of_mem _ he))
          (receiveEvent_reconciled hepoch hevent hreceived hreconciled) h

end Failures

theorem processIncomingEvents_failure {env : Surroundings} {sha256 : JsString → Digest}
    {clientId : ClientId} {epoch : Uuid} {events delivered envelope : List IncomingEvent} {db : Db}
    {failure : Failure} {time : EnvelopeTime} {clock : ℕ → ℤ} (hepoch : OneEpoch epoch events)
    (hreconciled : Reconciled sha256 epoch events clientId delivered db)
    (henvelope : ∀ event ∈ envelope, event ∈ events)
    (hcurrent : ∀ asked, envelopeCurrent time (clock asked) = true)
    (henabled : ∃ client, db.oauthClients.find? clientId = some client ∧ client.disabledAt = none)
    (h : processIncomingEvents env sha256 clientId time clock envelope db = .error failure) :
    failure.refusal = false := by
  obtain ⟨client, hclient, henabled⟩ := henabled
  unfold processIncomingEvents at h
  simp only [assertEnvelopeCurrent, hcurrent, hclient, henabled, Option.any_some, Option.isNone_none,
    Bool.not_true, failIf, Bool.false_eq_true, if_false, ok_bind, bind_eq_error, reduceCtorEq,
    and_false, exists_false, or_false] at h
  exact receiveEvents_failure hepoch hcurrent henvelope hreconciled h

/-- Versions only grow and contradictions fail whole envelopes; any run that
delivers catalogs of one epoch ends with the newest delivered one, and a current
envelope of them is never refused. -/
theorem catalog_reconciliation (sha256 : JsString → Digest) (clientId : ClientId) :
    (∀ (db : Db) (transactions : List RoleTransaction) (epoch : Uuid) (revision : ℕ),
      catalogModeOf db clientId = .revisioned epoch revision →
      ∃ current, revision ≤ current ∧
        catalogModeOf (commitAll sha256 db transactions) clientId = .revisioned epoch current) ∧
    (∀ (env : Surroundings) (time : EnvelopeTime) (clock : ℕ → ℤ) (db mid : Db)
      (first second : List IncomingEvent) (event : IncomingEvent) (catalog : RoleCatalog)
      (epoch : Uuid) (revision : ℕ),
      receiveEvents env sha256 clientId time clock 1 first db = .ok mid →
      event.catalog = some catalog → catalogModeOf mid clientId = .revisioned epoch revision →
      Conflicts sha256 mid clientId event catalog epoch revision →
      (∃ failure, processIncomingEvents env sha256 clientId time clock (first ++ event :: second) db =
        .error failure) ∧
      withRoleTransaction db
        (processIncomingEvents env sha256 clientId time clock (first ++ event :: second)) = db) ∧
    (∀ (db : Db) (transactions : List RoleTransaction) (epoch : Uuid)
      (events : List IncomingEvent), OneEpoch epoch events → StartsBelow db clientId epoch events →
      (∀ event ∈ events, ∀ prior, db.processedEvents.find? (clientId, event.id) = some prior →
        historicalUnknown prior = true) →
      OnlyDelivers clientId events transactions →
      (∀ top ∈ deliveredTo sha256 clientId db transactions,
        (∀ other ∈ deliveredTo sha256 clientId db transactions,
          revisionOf other ≤ revisionOf top) →
        ∃ catalog, top.catalog = some catalog ∧
          StoresCatalog sha256 (commitAll sha256 db transactions) clientId catalog) ∧
      ∀ (env : Surroundings) (time : EnvelopeTime) (clock : ℕ → ℤ) (envelope : List IncomingEvent)
        (failure : Failure), (∀ event ∈ envelope, event ∈ events) →
        (∀ asked, envelopeCurrent time (clock asked) = true) →
        (∃ client, (commitAll sha256 db transactions).oauthClients.find? clientId = some client ∧
          client.disabledAt = none) →
        processIncomingEvents env sha256 clientId time clock envelope
          (commitAll sha256 db transactions) = .error failure → failure.refusal = false) := by
  refine ⟨?_, ?_, ?_⟩
  · intro db transactions epoch revision hmode
    exact commitAll_preserves (Reached clientId epoch revision) transactions
      (fun _ _ _ _ hs hst => RoleTransaction.reached hst hs) ⟨revision, le_rfl, hmode⟩
  · intro env time clock db mid first second event catalog epoch revision hfirst hcatalog hmode
      hconflict
    exact processIncomingEvents_conflict hfirst hcatalog hmode hconflict
  · intro db transactions epoch events hepoch hstart hunbound honly
    have hinitial : Reconciled sha256 epoch events clientId [] db :=
      ⟨hstart, fun event hevent prior hprior => .inl (hunbound event hevent prior hprior)⟩
    have hfinal := commitAll_reconciled hepoch honly hinitial
    rw [List.nil_append] at hfinal
    constructor
    · intro top htop hgreatest
      have hkeeps := hfinal.keeps
      cases hkept : offerAll revisionOf (deliveredTo sha256 clientId db transactions) with
      | none =>
        rw [(offerAll_eq_none revisionOf).mp hkept] at htop
        simp at htop
      | some kept =>
        obtain ⟨hdelivered, hnewest⟩ := offerAll_greatest revisionOf hkept
        rw [hkept] at hkeeps
        obtain ⟨hmem, catalog, hcatalog, hstores⟩ := hkeeps
        have htopMem := deliveredTo_mem honly top htop
        have hsame : kept = top := hepoch.revisions kept hmem top htopMem
          (le_antisymm (hgreatest kept hdelivered) (hnewest top htop))
        exact ⟨catalog, hsame ▸ hcatalog, hstores⟩
    · intro env time clock envelope failure henvelope hcurrent henabled h
      exact processIncomingEvents_failure hepoch hfinal henvelope hcurrent henabled h

instance instNeZeroTwo : NeZero 2 := ⟨by decide⟩

/-- A catalog of one role, with revision one or two. -/
def oneRoleCatalog (revision : Fin 2) : RoleCatalog where
  roles := [⟨revision.val, js "user", 10, false⟩]
  defaultRole := none
  siteName := none
  version := some (Uuid.numbered 3, revision.val + 1)
  sorted := List.pairwise_singleton _ _
  known := by simp
  validNames := by revert revision; decide +kernel
  validSite := validSite_none
  revisionRange := by
    rintro _ ⟨⟩
    refine ⟨Nat.succ_pos _, ?_⟩
    have hbound := revision.isLt
    unfold MAX_BIGINT
    omega

def oneRoleEvent (revision : Fin 2) : IncomingEvent :=
  ⟨if revision = 0 then Uuid.numbered 1 else Uuid.numbered 2, ROLES_SYNC, .null,
    some (oneRoleCatalog revision)⟩

def registeredDb : Db :=
  { Db.empty with
    oauthClients := (∅ : Table ClientId OauthClient).upsert (js "app") ⟨js "App", none, none⟩ }

/-- The second revision alone, then both in order. -/
def crossedDeliveries : List RoleTransaction :=
  [.incoming ⟨0, fun _ => Uuid.numbered 5, fun _ => Uuid.numbered 6, fun s => s⟩ (js "app") ⟨0, 1⟩
      (fun _ => 0) [oneRoleEvent 1],
    .incoming ⟨0, fun _ => Uuid.numbered 5, fun _ => Uuid.numbered 6, fun s => s⟩ (js "app") ⟨0, 1⟩
      (fun _ => 0) [oneRoleEvent 0, oneRoleEvent 1]]

theorem crossedDeliveries_delivered :
    deliveredTo id (js "app") registeredDb crossedDeliveries =
      [oneRoleEvent 1, oneRoleEvent 0, oneRoleEvent 1] := by decide +kernel

theorem catalog_reconciliation_crossed :
    StoresCatalog id (commitAll id registeredDb crossedDeliveries) (js "app")
      (oneRoleCatalog 1) := by
  have hepoch : OneEpoch (Uuid.numbered 3) [oneRoleEvent 0, oneRoleEvent 1] := by
    refine ⟨?_, ?_, ?_⟩
    · intro event hevent
      rcases List.mem_pair.mp hevent with rfl | rfl
      · exact ⟨1, rfl⟩
      · exact ⟨2, rfl⟩
    · decide +kernel
    · decide +kernel
  have honly : OnlyDelivers (js "app") [oneRoleEvent 0, oneRoleEvent 1] crossedDeliveries := by
    intro env time clock envelope hmem event hevent
    simp only [crossedDeliveries, List.mem_cons, List.not_mem_nil, or_false,
      RoleTransaction.incoming.injEq] at hmem
    rcases hmem with ⟨-, -, -, -, rfl⟩ | ⟨-, -, -, -, rfl⟩
    · exact List.mem_cons_of_mem _ hevent
    · exact hevent
  have hfinal := ((catalog_reconciliation id (js "app")).2.2 registeredDb crossedDeliveries
    (Uuid.numbered 3) [oneRoleEvent 0, oneRoleEvent 1] hepoch (.inl rfl)
    (by intro event _ prior hprior; simp [registeredDb, Db.empty] at hprior) honly).1
  rw [crossedDeliveries_delivered] at hfinal
  obtain ⟨catalog, hcatalog, hstores⟩ := hfinal (oneRoleEvent 1) (by simp) (by decide +kernel)
  obtain rfl : oneRoleCatalog 1 = catalog := Option.some.inj hcatalog
  exact hstores

end DreamSso
