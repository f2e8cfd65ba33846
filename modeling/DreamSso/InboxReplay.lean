import DreamSso.CatalogConfluence

/-!
Replay of incoming envelopes. A versioned catalog that was accepted once has been
reached by the revision of its client or has a settled receipt, so receiving it
again fails or leaves everything but the inbox alone. Catalogs without a version
may be sent again with a new content under the same id; for them a replay is
harmless while its receipt stands, or when a later catalog was stored.
-/
namespace DreamSso

open JsStrings JsonValues KeyedTables StoredJson Fallible

/-- The receipt of the event is bound to some content. -/
def Receipted (clientId : ClientId) (event : IncomingEvent) (db : Db) : Prop :=
  ∃ prior, db.processedEvents.find? (clientId, event.id) = some prior ∧
    historicalUnknown prior = false

theorem Bound.settled {db : Db} {clientId : ClientId} {event : IncomingEvent} {digest : Digest}
    (h : Bound db clientId event digest) : Receipted clientId event db := by
  obtain ⟨prior, hprior, hdigest⟩ := h
  exact ⟨prior, hprior, by simp [historicalUnknown, hdigest]⟩

/-- What later transactions never take back. -/
structure Onward (clientId : ClientId) (db db' : Db) : Prop where
  row : db.appRoleSyncState.contains clientId = true →
    db'.appRoleSyncState.contains clientId = true
  reached : ∀ epoch revision, Reached clientId epoch revision db →
    Reached clientId epoch revision db'
  settled : ∀ event, Receipted clientId event db → Receipted clientId event db'

theorem Onward.refl (clientId : ClientId) (db : Db) : Onward clientId db db :=
  ⟨id, fun _ _ => id, fun _ => id⟩

theorem Onward.trans {clientId : ClientId} {a b c : Db} (h : Onward clientId a b)
    (h' : Onward clientId b c) : Onward clientId a c :=
  ⟨fun hrow => h'.row (h.row hrow), fun e r hr => h'.reached e r (h.reached e r hr),
    fun event hs => h'.settled event (h.settled event hs)⟩

theorem SameCatalog.settled {clientId : ClientId} {db db' : Db} (h : SameCatalog clientId db db')
    {event : IncomingEvent} (hsettled : Receipted clientId event db) : Receipted clientId event db' := by
  obtain ⟨prior, hprior, hbound⟩ := hsettled
  exact ⟨prior, (h.receipts event.id).trans hprior, hbound⟩

theorem SameCatalog.onward {clientId : ClientId} {db db' : Db} (h : SameCatalog clientId db db') :
    Onward clientId db db' :=
  ⟨h.row, fun _ _ hreached => hreached.of_same h, fun _ hsettled => h.settled hsettled⟩

section Receiving

variable {env : Surroundings} {sha256 : JsString → Digest} {clientId : ClientId} {iat : ℤ}
  {db db' : Db} {event : IncomingEvent}

theorem bindReceipt_settled {digest : Digest} (h : bindReceipt db clientId event digest = .ok db')
    {other : IncomingEvent} (hsettled : Receipted clientId other db) :
    Receipted clientId other db' := by
  obtain ⟨type, -, rfl⟩ := bindReceipt_ok h
  by_cases hid : other.id = event.id
  · exact ⟨_, by rw [hid]; exact Table.find?_upsert_self _ _ _, rfl⟩
  · obtain ⟨prior, hprior, hbound⟩ := hsettled
    refine ⟨prior, ?_, hbound⟩
    rw [← hprior]
    exact Table.find?_upsert_ne _ _ fun hkey => hid (Prod.mk.inj hkey).2

theorem applyCatalog_settled {catalog : RoleCatalog} {state : RoleSyncState} {order : CatalogOrder}
    (h : applyCatalog env sha256 db clientId iat catalog state = .ok (order, db'))
    (hsettled : Receipted clientId event db) : Receipted clientId event db' := by
  unfold Receipted
  rw [(applyCatalog_kept h).1]
  exact hsettled

theorem receiveEvent_onward (h : receiveEvent env sha256 clientId iat db event = .ok db') :
    Onward clientId db db' := by
  refine ⟨?_, fun _ _ hreached => receiveEvent_reached h hreached, ?_⟩
  · obtain ⟨digest, -, hreception⟩ := receiveEvent_ok h
    intro hrow
    cases hreception with
    | repeated => exact hrow
    | acknowledged hplain hfree hreceipt =>
      obtain ⟨type, -, rfl⟩ := bindReceipt_ok hreceipt
      exact hrow
    | repeatedCatalog hcatalog hensured => exact (ensureRoleSyncState_same hensured clientId).row hrow
    | ordered hcatalog hensured hversion hnew hfree happlied hreceipt =>
      have happly := (applyCatalog_kept happlied).2
        ((ensureRoleSyncState_same hensured clientId).row hrow)
      rcases hreceipt with ⟨-, -, rfl⟩ | hreceipt
      · exact happly
      · obtain ⟨type, -, rfl⟩ := bindReceipt_ok hreceipt
        exact happly
  · obtain ⟨digest, -, hreception⟩ := receiveEvent_ok h
    intro other hsettled
    cases hreception with
    | repeated => exact hsettled
    | acknowledged hplain hfree hreceipt => exact bindReceipt_settled hreceipt hsettled
    | repeatedCatalog hcatalog hensured =>
      exact (ensureRoleSyncState_same hensured clientId).settled hsettled
    | ordered hcatalog hensured hversion hnew hfree happlied hreceipt =>
      have happly := applyCatalog_settled happlied
        ((ensureRoleSyncState_same hensured clientId).settled hsettled)
      rcases hreceipt with ⟨-, -, rfl⟩ | hreceipt
      · exact happly
      · exact bindReceipt_settled hreceipt happly

theorem RoleTransaction.onward {transaction : RoleTransaction}
    (h : transaction.work sha256 db = .ok db') : Onward clientId db db' := by
  cases transaction with
  | admin env actorSub call => exact (AdminCall.sameCatalog h clientId).onward
  | incoming env target time clock events =>
    by_cases hne : clientId = target
    · subst hne
      exact receiveEvents_preserves (Onward clientId db)
        (fun _ _ _ _ hs hst => hs.trans (receiveEvent_onward hst)) (processIncomingEvents_ok h).2
        (Onward.refl _ _)
    · exact (processIncomingEvents_other h hne).onward

end Receiving

/-- Later states: role transactions, and other writers of the database, none of
which writes an ordering state or prunes the inbox. -/
inductive Later (sha256 : JsString → Digest) (clientId : ClientId) (start : Db) : Db → Prop
  | now : Later sha256 clientId start start
  | transaction {db db' : Db} {transaction : RoleTransaction} (run : Later sha256 clientId start db)
      (h : transaction.work sha256 db = .ok db') : Later sha256 clientId start db'
  | other {db db' : Db} (run : Later sha256 clientId start db)
      (hstates : db'.appRoleSyncState = db.appRoleSyncState)
      (hinbox : db'.processedEvents = db.processedEvents) : Later sha256 clientId start db'

theorem Later.onward {sha256 : JsString → Digest} {clientId : ClientId} {start db : Db}
    (h : Later sha256 clientId start db) : Onward clientId start db := by
  induction h with
  | now => exact Onward.refl _ _
  | transaction run hwork ih => exact ih.trans (RoleTransaction.onward hwork)
  | @other db db' run hstates hinbox ih =>
    refine ih.trans ⟨?_, ?_, ?_⟩
    · intro hrow
      rw [hstates]
      exact hrow
    · rintro epoch revision ⟨current, hle, hmode⟩
      refine ⟨current, hle, ?_⟩
      rw [← hmode, catalogModeOf, catalogModeOf, hstates]
    · rintro event ⟨prior, hprior, hbound⟩
      exact ⟨prior, by rw [hinbox]; exact hprior, hbound⟩

/-- An accepted catalog has a state row and, with a version, is reached or settled. -/
structure Seen (clientId : ClientId) (event : IncomingEvent) (catalog : RoleCatalog) (db : Db) :
    Prop where
  row : db.appRoleSyncState.contains clientId = true
  version : ∀ epoch revision, catalog.version = some (epoch, revision) →
    Reached clientId epoch revision db ∨ Receipted clientId event db

theorem Seen.onward {clientId : ClientId} {event : IncomingEvent} {catalog : RoleCatalog}
    {db db' : Db} (h : Seen clientId event catalog db) (honward : Onward clientId db db') :
    Seen clientId event catalog db' :=
  ⟨honward.row h.row, fun epoch revision hversion => (h.version epoch revision hversion).imp
    (honward.reached epoch revision) (honward.settled event)⟩

theorem receiveEvent_seen {env : Surroundings} {sha256 : JsString → Digest} {clientId : ClientId}
    {iat : ℤ} {db db' : Db} {event : IncomingEvent} {catalog : RoleCatalog}
    (hcatalog : event.catalog = some catalog)
    (h : receiveEvent env sha256 clientId iat db event = .ok db') :
    Seen clientId event catalog db' := by
  obtain ⟨digest, -, hreception⟩ := receiveEvent_ok h
  cases hreception with
  | repeated hplain => simp [hcatalog] at hplain
  | acknowledged hplain => simp [hcatalog] at hplain
  | repeatedCatalog _ hensured _ hbound =>
    have hstate := (ensureRoleSyncState_ok hensured).1
    refine ⟨(Table.contains_iff _ _).mpr ⟨_, hstate⟩, fun _ _ _ => .inr ?_⟩
    exact (ensureRoleSyncState_same hensured clientId).settled hbound.settled
  | @ordered catalog' state ensured applied _ order hreported hensured hversion hnew hfree happlied
      hreceipt =>
    obtain rfl := Option.some.inj (hcatalog.symm.trans hreported)
    have hstate := (ensureRoleSyncState_ok hensured).1
    have hrow := (applyCatalog_kept happlied).2 ((Table.contains_iff _ _).mpr ⟨_, hstate⟩)
    have hreached : ∀ epoch revision, catalog.version = some (epoch, revision) →
        Reached clientId epoch revision applied := by
      intro epoch revision hreported
      cases hmode : state.catalogMode with
      | legacy =>
        have hlegacy : (comparableState sha256 ensured clientId catalog state).catalogMode =
            .legacy := (comparableState_mode sha256 ensured clientId catalog state).trans hmode
        have horder := (applyCatalog_ok happlied).1
        rw [catalogOrder_adopt hlegacy (by rw [hreported]; rfl)] at horder
        obtain rfl := Except.ok.inj horder
        refine ⟨revision, le_rfl, ?_⟩
        rw [(applyCatalog_stores hstate happlied).mode, catalogMode, hreported]
      | revisioned stored current =>
        obtain ⟨incoming, hincoming, hcases⟩ := applyCatalog_revisioned hstate hmode happlied
        obtain ⟨rfl, rfl⟩ := Prod.mk.inj (Option.some.inj (hreported.symm.trans hincoming))
        rcases hcases with ⟨hle, rfl⟩ | ⟨hlt, hstores⟩
        · exact ⟨current, hle, (catalogModeOf_state hstate).trans hmode⟩
        · exact ⟨revision, le_rfl, by rw [hstores.mode, catalogMode, hreported]⟩
    rcases hreceipt with ⟨-, -, rfl⟩ | hreceipt
    · exact ⟨hrow, fun epoch revision hr => .inl (hreached epoch revision hr)⟩
    · obtain ⟨type, -, rfl⟩ := bindReceipt_ok hreceipt
      exact ⟨hrow, fun epoch revision hr => .inl (hreached epoch revision hr)⟩

/-- Every catalog of a committed envelope was seen. -/
theorem processIncomingEvents_seen {env : Surroundings} {sha256 : JsString → Digest}
    {clientId : ClientId} {time : EnvelopeTime} {clock : ℕ → ℤ} {events : List IncomingEvent}
    {db db' : Db} (h : processIncomingEvents env sha256 clientId time clock events db = .ok db') :
    ∀ event ∈ events, ∀ catalog, event.catalog = some catalog → Seen clientId event catalog db' := by
  have hstep : ∀ earlier s event t, event ∈ events →
      (∀ e ∈ earlier, ∀ catalog, e.catalog = some catalog → Seen clientId e catalog s) →
      receiveEvent env sha256 clientId time.iat s event = .ok t →
      ∀ e ∈ earlier ++ [event], ∀ catalog, e.catalog = some catalog → Seen clientId e catalog t := by
    intro earlier s event t _ hearlier hst other hother catalog hcatalog
    rcases List.mem_append.mp hother with hold | hnew
    · exact (hearlier other hold catalog hcatalog).onward (receiveEvent_onward hst)
    · obtain rfl := List.mem_singleton.mp hnew
      exact receiveEvent_seen hcatalog hst
  have hhistory := receiveEvents_history _ hstep (processIncomingEvents_ok h).2
    (show ∀ e ∈ [], ∀ catalog, e.catalog = some catalog → Seen clientId e catalog db by simp)
  simpa using hhistory

/-- The client has a catalog that is newer than the envelope. -/
def Outdated (clientId : ClientId) (iat : ℤ) (db : Db) : Prop :=
  (existingCatalog db clientId).isSome = true ∧
    ∃ state, db.appRoleSyncState.find? clientId = some state ∧ iat < state.lastSyncIat

/-- A catalog without a version is replayed without effect when its client has
adopted versions, when its receipt still stands, or when it is outdated. -/
def ReplaySafe (sha256 : JsString → Digest) (clientId : ClientId) (iat : ℤ) (event : IncomingEvent)
    (db : Db) : Prop :=
  ∀ catalog, event.catalog = some catalog → catalog.version = none →
    catalogModeOf db clientId ≠ .legacy ∨
    (Bound db clientId event (sha256 (canonicalText event.json)) ∧
      catalogDigestOf db clientId ≠ none) ∨
    Outdated clientId iat db

section Replay

variable {env : Surroundings} {sha256 : JsString → Digest} {clientId : ClientId} {iat : ℤ}
  {db db' : Db} {event : IncomingEvent}

theorem ensureRoleSyncState_existing {state : RoleSyncState}
    (hrow : db.appRoleSyncState.contains clientId = true)
    (h : ensureRoleSyncState env db clientId = .ok (state, db')) : db' = db := by
  rcases (ensureRoleSyncState_ok h).2 with hsame | ⟨hnone, -⟩
  · exact hsame
  · simp [Table.contains, hnone] at hrow

theorem comparableState_iat (catalog : RoleCatalog) (state : RoleSyncState) :
    (comparableState sha256 db clientId catalog state).lastSyncIat = state.lastSyncIat := by
  unfold comparableState
  split
  · split <;> rfl
  · rfl

theorem catalogOrder_outdated {catalog : RoleCatalog} {state : RoleSyncState} {hasCatalog : Bool}
    {order : CatalogOrder} (hmode : state.catalogMode = .legacy) (hversion : catalog.version = none)
    (hexists : hasCatalog = true) (hold : iat < state.lastSyncIat)
    (h : catalogOrder sha256 state catalog iat hasCatalog = .ok order) : order = .stale := by
  simp only [catalogOrder, hmode, hversion, hexists, hold, Option.isSome_none, Bool.not_true,
    Bool.or_self, Bool.false_eq_true, if_false, if_true, Except.ok.injEq] at h
  exact h.symm

/-- A catalog that was seen and is safe to replay is not applied again. -/
theorem applyCatalog_replay {catalog : RoleCatalog} {state : RoleSyncState} {order : CatalogOrder}
    (hcatalog : event.catalog = some catalog) (hseen : Seen clientId event catalog db)
    (hsafe : ReplaySafe sha256 clientId iat event db)
    (hstate : db.appRoleSyncState.find? clientId = some state)
    (hversion : checkVersion state catalog = .ok ())
    (hnew : Bound db clientId event (sha256 (canonicalText event.json)) → state.catalogDigest = none)
    (hfree : Replaceable db clientId event)
    (h : applyCatalog env sha256 db clientId iat catalog state = .ok (order, db')) :
    db' = db ∧ (catalog.version = none → Outdated clientId iat db) := by
  cases hreported : catalog.version with
  | some version =>
    obtain ⟨epoch, revision⟩ := version
    refine ⟨?_, by simp⟩
    rcases hseen.version epoch revision hreported with ⟨current, hle, hmode⟩ | hsettled
    · rw [catalogModeOf_state hstate] at hmode
      obtain ⟨incoming, hincoming, hcases⟩ := applyCatalog_revisioned hstate hmode h
      obtain ⟨-, rfl⟩ := Prod.mk.inj (Option.some.inj (hreported.symm.trans hincoming))
      rcases hcases with ⟨-, hsame⟩ | ⟨hlt, -⟩
      · exact hsame
      · omega
    · obtain ⟨prior, hprior, hbound⟩ := hsettled
      rcases hfree prior hprior with hhistorical | hmutable
      · simp [hhistorical] at hbound
      · simp [legacyMutable, hcatalog, hreported] at hmutable
  | none =>
    rcases hsafe catalog hcatalog hreported with hmode | ⟨hbound, hdigest⟩ | houtdated
    · rw [catalogModeOf_state hstate] at hmode
      cases hstored : state.catalogMode with
      | legacy => exact (hmode hstored).elim
      | revisioned epoch current => simp [checkVersion, hstored, hreported] at hversion
    · rw [catalogDigestOf_state hstate] at hdigest
      exact (hdigest (hnew hbound)).elim
    · refine ⟨?_, fun _ => houtdated⟩
      obtain ⟨hexists, state', hstate', hold⟩ := houtdated
      obtain rfl := Option.some.inj (hstate.symm.trans hstate')
      obtain ⟨horder, hcases⟩ := applyCatalog_ok h
      have hlegacy : state.catalogMode = .legacy := by
        cases hstored : state.catalogMode with
        | legacy => rfl
        | revisioned epoch current => simp [checkVersion, hstored, hreported] at hversion
      obtain rfl := catalogOrder_outdated
        ((comparableState_mode sha256 db clientId catalog state).trans hlegacy) hreported hexists
        (by rw [comparableState_iat]; exact hold) horder
      rcases hcases with ⟨-, hsame⟩ | ⟨hreplaced, -⟩
      · exact hsame
      · simp at hreplaced

/-- A replayed event touches at most its receipt, and that only if the receipt
was not bound or the envelope is outdated. -/
theorem receiveEvent_replay
    (hseen : ∀ catalog, event.catalog = some catalog → Seen clientId event catalog db)
    (hsafe : ReplaySafe sha256 clientId iat event db)
    (h : receiveEvent env sha256 clientId iat db event = .ok db') :
    db' = db ∨ ∃ entry, db' = { db with
        processedEvents := db.processedEvents.upsert (clientId, event.id) entry } ∧
      (Outdated clientId iat db ∨ ¬Receipted clientId event db) := by
  obtain ⟨digest, hdigest, hreception⟩ := receiveEvent_ok h
  obtain rfl := inboxDigest_ok hdigest
  have hunbound : event.catalog.all (fun catalog => catalog.version.isSome) = true →
      Replaceable db clientId event → ¬Receipted clientId event db := by
    rintro hversioned hfree ⟨prior, hprior, hbound⟩
    rcases hfree prior hprior with hhistorical | hmutable
    · simp [hhistorical] at hbound
    · unfold legacyMutable at hmutable
      cases hcatalog : event.catalog with
      | none => simp [hcatalog] at hmutable
      | some catalog => cases hversion : catalog.version <;> simp [hcatalog, hversion] at hmutable hversioned
  cases hreception with
  | repeated => exact .inl rfl
  | acknowledged hplain hfree hreceipt =>
    obtain ⟨type, -, rfl⟩ := bindReceipt_ok hreceipt
    exact .inr ⟨_, rfl, .inr (hunbound (by simp [hplain]) hfree)⟩
  | repeatedCatalog hcatalog hensured =>
    exact .inl (ensureRoleSyncState_existing (hseen _ hcatalog).row hensured)
  | @ordered catalog state ensured applied _ order hcatalog hensured hversion hnew hfree happlied
      hreceipt =>
    obtain rfl := ensureRoleSyncState_existing (hseen catalog hcatalog).row hensured
    obtain ⟨rfl, houtdated⟩ := applyCatalog_replay hcatalog (hseen catalog hcatalog) hsafe
      (ensureRoleSyncState_ok hensured).1 hversion hnew hfree happlied
    rcases hreceipt with ⟨-, -, rfl⟩ | hreceipt
    · exact .inl rfl
    · obtain ⟨type, -, rfl⟩ := bindReceipt_ok hreceipt
      refine .inr ⟨_, rfl, ?_⟩
      cases hreported : catalog.version with
      | none => exact .inl (houtdated hreported)
      | some version => exact .inr (hunbound (by simp [hcatalog, hreported]) hfree)

/-- A replayed event leaves the other events of the envelope safe. -/
theorem ReplaySafe.of_receipt {other : IncomingEvent} {entry : ProcessedEvent}
    (h : ReplaySafe sha256 clientId iat other db)
    (hcause : Outdated clientId iat db ∨ ¬Receipted clientId event db) :
    ReplaySafe sha256 clientId iat other
      { db with processedEvents := db.processedEvents.upsert (clientId, event.id) entry } := by
  intro catalog hcatalog hversion
  rcases h catalog hcatalog hversion with hmode | ⟨hbound, hdigest⟩ | houtdated
  · exact .inl hmode
  · rcases hcause with houtdated | hfree
    · exact .inr (.inr houtdated)
    · refine .inr (.inl ⟨?_, hdigest⟩)
      obtain ⟨prior, hprior, hdigest'⟩ := hbound
      refine ⟨prior, ?_, hdigest'⟩
      rw [← hprior]
      refine Table.find?_upsert_ne _ _ ?_
      intro hkey
      refine hfree ⟨prior, ?_, by simp [historicalUnknown, hdigest']⟩
      rw [← (Prod.mk.inj hkey).2]
      exact hprior
  · exact .inr (.inr houtdated)

theorem receiveEvents_replay {time : EnvelopeTime} {clock : ℕ → ℤ} {events : List IncomingEvent}
    {asked : ℕ}
    (hseen : ∀ e ∈ events, ∀ catalog, e.catalog = some catalog → Seen clientId e catalog db)
    (hsafe : ∀ e ∈ events, ReplaySafe sha256 clientId time.iat e db)
    (h : receiveEvents env sha256 clientId time clock asked events db = .ok db') :
    ∃ receipts, db' = { db with processedEvents := receipts } := by
  let Kept (s : Db) : Prop := (∃ receipts, s = { db with processedEvents := receipts }) ∧
    (∀ e ∈ events, ∀ catalog, e.catalog = some catalog → Seen clientId e catalog s) ∧
    ∀ e ∈ events, ReplaySafe sha256 clientId time.iat e s
  have hstep : ∀ s event t, event ∈ events → Kept s →
      receiveEvent env sha256 clientId time.iat s event = .ok t → Kept t := by
    rintro s event t hevent ⟨⟨receipts, hs⟩, hseen, hsafe⟩ hst
    have honward := receiveEvent_onward hst
    have hseen' : ∀ e ∈ events, ∀ catalog, e.catalog = some catalog → Seen clientId e catalog t :=
      fun e he catalog hcatalog => (hseen e he catalog hcatalog).onward honward
    rcases receiveEvent_replay (hseen event hevent) (hsafe event hevent) hst with
      rfl | ⟨entry, rfl, hcause⟩
    · exact ⟨⟨receipts, hs⟩, hseen', hsafe⟩
    · refine ⟨⟨_, by rw [hs]⟩, hseen', ?_⟩
      exact fun e he => (hsafe e he).of_receipt hcause
  exact (receiveEvents_preserves Kept hstep h ⟨⟨_, rfl⟩, hseen, hsafe⟩).1

end Replay

/-- A bound receipt only gives way to a catalog report without a version. -/
theorem receiveEvent_bound {env : Surroundings} {sha256 : JsString → Digest} {clientId : ClientId}
    {iat : ℤ} {db db' : Db} {event : IncomingEvent} {type : JsString} {digest : Digest}
    (hreceipt : db.processedEvents.find? (clientId, event.id) = some ⟨some type, some digest⟩)
    (h : receiveEvent env sha256 clientId iat db event = .ok db') :
    sha256 (canonicalText event.json) = digest ∨
      type = ROLES_SYNC ∧ ∃ catalog, event.catalog = some catalog ∧ catalog.version = none := by
  obtain ⟨digest', hdigest, hreception⟩ := receiveEvent_ok h
  obtain rfl := inboxDigest_ok hdigest
  have hsame : Bound db clientId event (sha256 (canonicalText event.json)) →
      sha256 (canonicalText event.json) = digest := by
    rintro ⟨prior, hprior, hbound⟩
    rw [hreceipt] at hprior
    rw [← Option.some.inj hprior] at hbound
    exact (Option.some.inj hbound).symm
  have hmutable : Replaceable db clientId event → type = ROLES_SYNC ∧
      ∃ catalog, event.catalog = some catalog ∧ catalog.version = none := by
    intro hfree
    rcases hfree _ hreceipt with hhistorical | hmutable
    · simp [historicalUnknown] at hhistorical
    · simp only [legacyMutable, Bool.and_eq_true, Option.any_eq_true, decide_eq_true_eq,
        Option.some.injEq, Option.isNone_iff_eq_none] at hmutable
      exact ⟨hmutable.1.2, hmutable.1.1⟩
  cases hreception with
  | repeated _ hbound => exact .inl (hsame hbound)
  | acknowledged _ hfree => exact .inr (hmutable hfree)
  | repeatedCatalog _ _ _ hbound => exact .inl (hsame hbound)
  | ordered _ _ _ _ hfree => exact .inr (hmutable hfree)

/-- A committed envelope that is processed again later fails or only touches the
inbox, as far as its catalogs are safe to replay; a bound id keeps its content;
a failing event undoes its envelope. -/
theorem inbox_replay (sha256 : JsString → Digest) (clientId : ClientId) :
    (∀ (env env' : Surroundings) (time time' : EnvelopeTime) (clock clock' : ℕ → ℤ)
      (events : List IncomingEvent) (db accepted later replayed : Db),
      processIncomingEvents env sha256 clientId time clock events db = .ok accepted →
      Later sha256 clientId accepted later →
      (∀ event ∈ events, ReplaySafe sha256 clientId time'.iat event later) →
      processIncomingEvents env' sha256 clientId time' clock' events later = .ok replayed →
      ∃ receipts, replayed = { later with processedEvents := receipts }) ∧
    (∀ (env : Surroundings) (time : EnvelopeTime) (clock : ℕ → ℤ)
      (first second : List IncomingEvent) (event : IncomingEvent) (db mid db' : Db)
      (type : JsString) (digest : Digest),
      receiveEvents env sha256 clientId time clock 1 first db = .ok mid →
      mid.processedEvents.find? (clientId, event.id) = some ⟨some type, some digest⟩ →
      processIncomingEvents env sha256 clientId time clock (first ++ event :: second) db = .ok db' →
      sha256 (canonicalText event.json) = digest ∨
        type = ROLES_SYNC ∧ ∃ catalog, event.catalog = some catalog ∧ catalog.version = none) ∧
    (∀ (env : Surroundings) (time : EnvelopeTime) (clock : ℕ → ℤ)
      (first second : List IncomingEvent) (event : IncomingEvent) (db mid : Db) (failure : Failure),
      receiveEvents env sha256 clientId time clock 1 first db = .ok mid →
      receiveEvent env sha256 clientId time.iat mid event = .error failure →
      withRoleTransaction db
        (processIncomingEvents env sha256 clientId time clock (first ++ event :: second)) = db) := by
  refine ⟨?_, ?_, ?_⟩
  · intro env env' time time' clock clock' events db accepted later replayed haccepted hlater hsafe h
    have hseen : ∀ e ∈ events, ∀ catalog, e.catalog = some catalog →
        Seen clientId e catalog later := fun e he catalog hcatalog =>
      (processIncomingEvents_seen haccepted e he catalog hcatalog).onward hlater.onward
    exact receiveEvents_replay hseen hsafe (processIncomingEvents_ok h).2
  · intro env time clock first second event db mid db' type digest hfirst hreceipt h
    obtain ⟨received, hreceived⟩ := receiveEvents_append hfirst (processIncomingEvents_ok h).2
    exact receiveEvent_bound hreceipt hreceived
  · intro env time clock first second event db mid failure hfirst hfailed
    cases hrun : processIncomingEvents env sha256 clientId time clock (first ++ event :: second)
        db with
    | error failure' => simp [withRoleTransaction, hrun]
    | ok db' =>
      obtain ⟨received, hreceived⟩ := receiveEvents_append hfirst (processIncomingEvents_ok hrun).2
      simp [hfailed] at hreceived

/-- The report of one role under one stable id, without a version. -/
def unversionedReport (roleId : Fin 2) : IncomingEvent :=
  ⟨Uuid.numbered 1, ROLES_SYNC, .null, some { oneRoleCatalog roleId with
    version := none
    revisionRange := revisionRange_none }⟩

/-- The report reaches the client's inbox in an envelope of this time. -/
def reported (iat : ℤ) (roleId : Fin 2) (db : Db) : Except Failure Db :=
  processIncomingEvents ⟨0, fun _ => Uuid.numbered 5, fun _ => Uuid.numbered 6, fun s => s⟩ id
    (js "app") ⟨iat, iat + 300⟩ (fun _ => 30000) [unversionedReport roleId] db

/-- An envelope that only repeated the current report, replayed after an older
recomposed one, brings back its own content. -/
theorem recomposed_report_replayed :
    ¬∀ (before later : List RoleTransaction) (env : Surroundings) (time : EnvelopeTime)
      (clock : ℕ → ℤ) (events : List IncomingEvent) (accepted replayed : Db),
      processIncomingEvents env id (js "app") time clock events (commitAll id registeredDb before) =
        .ok accepted →
      processIncomingEvents env id (js "app") time clock events (commitAll id accepted later) =
        .ok replayed →
      replayed.appRoles = (commitAll id accepted later).appRoles := by
  intro h
  let env : Surroundings := ⟨0, fun _ => Uuid.numbered 5, fun _ => Uuid.numbered 6, fun s => s⟩
  let report (iat : ℤ) (roleId : Fin 2) : RoleTransaction :=
    .incoming env (js "app") ⟨iat, iat + 300⟩ (fun _ => 30000) [unversionedReport roleId]
  let known : Db := commitAll id registeredDb [report 10 0]
  let accepted : Db := withRoleTransaction known (reported 30 0)
  let recomposed : Db := commitAll id accepted [report 20 1]
  have haccepted : reported 30 0 known = .ok accepted :=
    withRoleTransaction_committed (by decide +kernel)
  have hreplayed : reported 30 0 recomposed =
      .ok (withRoleTransaction recomposed (reported 30 0)) :=
    withRoleTransaction_committed (by decide +kernel)
  have hsame := h [report 10 0] [report 20 1] env ⟨30, 330⟩ (fun _ => 30000) [unversionedReport 0]
    accepted _ haccepted hreplayed
  have hchanged : (withRoleTransaction recomposed (reported 30 0)).appRoles.find? (js "app", 0) ≠
      recomposed.appRoles.find? (js "app", 0) := by decide +kernel
  exact hchanged (by rw [hsame])

theorem inbox_replay_repeated : ∃ receipts,
    withRoleTransaction (withRoleTransaction registeredDb (reported 10 0)) (reported 10 0) =
      { withRoleTransaction registeredDb (reported 10 0) with processedEvents := receipts } := by
  have haccepted : reported 10 0 registeredDb =
      .ok (withRoleTransaction registeredDb (reported 10 0)) :=
    withRoleTransaction_committed (by decide +kernel)
  have hreplayed := @withRoleTransaction_committed
    (withRoleTransaction registeredDb (reported 10 0)) (reported 10 0) (by decide +kernel)
  refine (inbox_replay id (js "app")).1 _ _ _ _ _ _ _ _ _ _ _ haccepted .now ?_ hreplayed
  intro event hevent catalog hcatalog hversion
  obtain rfl := List.mem_singleton.mp hevent
  right; left
  constructor
  · refine ⟨⟨some ROLES_SYNC, some (canonicalText (unversionedReport 0).json)⟩, ?_, rfl⟩
    decide +kernel
  · decide +kernel

end DreamSso
