import DreamSso.RoleCommits
import DreamSso.CatalogConfluence

/-!
Coherence of the role ledger over runs of role transactions: every published role
is the one the chain resolves to, the last event about a user carries it, and only
a publication that found a change advances the revision of a client, by one.
-/
namespace DreamSso

open JsStrings JsonValues KeyedTables Fallible Transitions Announcements

/-- A database in which nothing was published yet. -/
structure NothingPublished (db : Db) : Prop where
  memberships : Memberships db
  ledger : ∀ key, db.appRoleEffective.find? key = none
  events : ∀ row ∈ db.eventOutbox.rows, row.kind ≠ rolesChangeType

/-- What holds after every committed role transaction. -/
structure Announced (db : Db) : Prop where
  memberships : Memberships db
  numbered : Numbered db
  boards : ∀ clientId, ∃ log, Shows db clientId log ∧
    Announcements.Coherent (roleBoard db clientId log)

theorem NothingPublished.announced {db : Db} (h : NothingPublished db) : Announced db where
  memberships := h.memberships
  numbered := fun row hrow hkind => (h.events row hrow hkind).elim
  boards := by
    intro clientId
    refine ⟨[], ?_, Announcements.Coherent.initial (fun sub => ?_) rfl⟩
    · have hnone : roleRows db clientId = [] := by
        rw [roleRows, List.filter_eq_nil_iff]
        intro row hrow
        simp [h.events row hrow]
      rw [Shows, hnone]
      exact .nil
    · simp [roleBoard, h.ledger]

/-- An execution of role steps is a run of turns on the board of every client. -/
theorem roleSteps_board {db db' : Db} {trace : List (Event Db (Option PublishCall))}
    (run : Exec roleSteps db trace db') (hnumbered : Numbered db) (clientId : ClientId)
    {log : List RoleReport} (hshows : Shows db clientId log) :
    Numbered db' ∧ ∃ log' turns, Shows db' clientId log' ∧
      Exec (system Uuid Standing Uuid) (roleBoard db clientId log) turns
        (roleBoard db' clientId log') ∧
      announcements turns = trace.countP fun event => !(reportedBy clientId event.label).isEmpty := by
  obtain ⟨board, turns, ⟨hnumbered', log', hshows', rfl⟩, hrun, hlabels⟩ :=
    @Exec.simulates Db (Option PublishCall) roleSteps (Board Uuid Standing Uuid)
      (List (Uuid × Standing)) (system Uuid Standing Uuid)
      (fun db board => Numbered db ∧ ∃ log, Shows db clientId log ∧ board = roleBoard db clientId log)
      (fun label => announcedRoles (reportedBy clientId label))
      (by
        rintro s label t board ⟨hs, log, hlog, rfl⟩ hstep
        obtain ⟨log', hlog', hturn⟩ := RoleStep.turn hstep hs clientId hlog
        exact ⟨_, ⟨RoleStep.numbered hstep hs, log', hlog', rfl⟩, hturn⟩)
      db db' trace run _ ⟨hnumbered, log, hshows, rfl⟩
  refine ⟨hnumbered', log', turns, hshows', hrun, ?_⟩
  have hcount : ∀ events : List (Event (Board Uuid Standing Uuid) (List (Uuid × Standing))),
      announcements events = (events.map Event.label).countP fun label => !label.isEmpty := by
    intro events
    rw [announcements, List.countP_map]
    rfl
  rw [hcount, hlabels, List.countP_map]
  congr 1
  funext event
  simp [announcedRoles]

/-- One committed transaction, seen from the board of a client. -/
theorem RoleTransaction.board {sha256 : JsString → Digest} {transaction : RoleTransaction}
    {db db' : Db} (hannounced : Announced db) (h : transaction.work sha256 db = .ok db')
    {clientId : ClientId} {log : List RoleReport} (hshows : Shows db clientId log)
    (hcoherent : Announcements.Coherent (roleBoard db clientId log)) :
    ∃ log', Shows db' clientId log' ∧ Announcements.Coherent (roleBoard db' clientId log') ∧
      Announcements.Later (roleBoard db clientId log) (roleBoard db' clientId log')
        transaction.reconciliations := by
  obtain ⟨trace, run, hbound⟩ := transaction.steps hannounced.memberships h
  obtain ⟨-, log', turns, hshows', hrun, hcount⟩ :=
    roleSteps_board run hannounced.numbered clientId hshows
  obtain ⟨hcoherent', hlater⟩ := run_later hrun hcoherent
  refine ⟨log', hshows', hcoherent', hlater.mono ?_⟩
  rw [hcount]
  refine Nat.le_trans (List.countP_mono_left fun event _ hfound => ?_) hbound
  cases hlabel : event.label with
  | none => simp [reportedBy, hlabel] at hfound
  | some call => rfl

theorem RoleTransaction.rows_extend {sha256 : JsString → Digest} {transaction : RoleTransaction}
    {db db' : Db} (hannounced : Announced db) (h : transaction.work sha256 db = .ok db')
    (clientId : ClientId) : roleRows db clientId <+: roleRows db' clientId := by
  obtain ⟨trace, run, -⟩ := transaction.steps hannounced.memberships h
  have hnumbered := hannounced.numbered
  clear h hannounced
  suffices hboth : Numbered db' ∧ roleRows db clientId <+: roleRows db' clientId from hboth.2
  induction run with
  | nil => exact ⟨hnumbered, List.prefix_refl _⟩
  | snoc run step ih =>
    obtain ⟨hmid, hprefix⟩ := ih
    exact ⟨RoleStep.numbered step hmid, hprefix.trans (RoleStep.rows_extend step hmid clientId)⟩

theorem RoleTransaction.announced {sha256 : JsString → Digest} {transaction : RoleTransaction}
    {db db' : Db} (hannounced : Announced db) (h : transaction.work sha256 db = .ok db') :
    Announced db' where
  memberships := transaction.memberships hannounced.memberships h
  numbered := by
    obtain ⟨trace, run, -⟩ := transaction.steps hannounced.memberships h
    refine Exec.preserves ?_ run hannounced.numbered
    exact fun s label t hs hstep => RoleStep.numbered hstep hs
  boards := by
    intro clientId
    obtain ⟨log, hshows, hcoherent⟩ := hannounced.boards clientId
    obtain ⟨log', hshows', hcoherent', -⟩ := transaction.board hannounced h hshows hcoherent
    exact ⟨log', hshows', hcoherent'⟩

theorem commitAll_announced (sha256 : JsString → Digest) {start : Db}
    (hstart : NothingPublished start) (transactions : List RoleTransaction) :
    Announced (commitAll sha256 start transactions) :=
  commitAll_preserves Announced transactions
    (fun transaction _ _ _ hs h => transaction.announced hs h) hstart.announced

/-- The row is about this user. -/
def rowAbout (sub : Uuid) (row : OutboxRow) : Bool :=
  match row.payload with
  | .obj members => decide (Json.member? members (js "sub") = some (.str sub.text))
  | _ => false

theorem Tells.about {clientId : ClientId} {row : OutboxRow} {report : RoleReport}
    (h : Tells clientId row report) (sub : Uuid) :
    rowAbout sub row = decide (report.subject = sub) := by
  obtain ⟨roleId, -, hcontent⟩ := h
  have hpayload : row.payload =
      rolesChangePayload report.subject roleId report.epoch report.revision := by
    simp only [OutboxRow.content, reportContent, Prod.mk.injEq] at hcontent
    exact hcontent.2.2.1
  unfold rowAbout
  simp only [hpayload, rolesChangePayload, Json.ofObject, List.map_cons, Json.member?,
    List.lookup_cons_self, Option.some.injEq, Json.str.injEq]
  exact decide_eq_decide.mpr ⟨fun htext => Uuid.text_injective htext, fun hsub => hsub ▸ rfl⟩

theorem Tells.revision {clientId : ClientId} {row : OutboxRow} {report : RoleReport}
    (h : Tells clientId row report) : row.version = report.revision := by
  obtain ⟨roleId, -, hcontent⟩ := h
  exact (content_eq hcontent).2.2

/-- The account.roles_change rows of a client about a user, oldest first. -/
def rowsAbout (db : Db) (clientId : ClientId) (sub : Uuid) : List OutboxRow :=
  (roleRows db clientId).filter (rowAbout sub)

theorem Shows.about {db : Db} {clientId : ClientId} {log : List RoleReport}
    (h : Shows db clientId log) (sub : Uuid) :
    List.Forall₂ (Tells clientId) (rowsAbout db clientId sub) (reportsAbout sub log) := by
  refine List.rel_filter ?_ h
  intro row report htells
  simp [htells.about sub]

theorem Shows.revisions {db : Db} {clientId : ClientId} {log : List RoleReport}
    (h : Shows db clientId log) :
    (roleRows db clientId).map (fun row => row.version) = log.map fun report => report.revision := by
  rw [← List.forall₂_eq_eq_eq, List.forall₂_map_left_iff, List.forall₂_map_right_iff]
  exact h.imp fun _ _ => Tells.revision

/-- A ledger row is current, and the last event about its user carries it. -/
theorem Announced.entry {db : Db} (h : Announced db) {clientId : ClientId} {sub : Uuid}
    {entry : EffectiveEntry} (hcatalog : hasAppCatalog db clientId = true)
    (hpresent : presentIdentity db sub = true)
    (hentry : db.appRoleEffective.find? (clientId, sub) = some entry) :
    entry.roleId = knownRole db clientId (effectiveAppRole db sub clientId).roleId ∧
      ∃ epoch row, (rowsAbout db clientId sub).getLast? = some row ∧
        row.content = reportContent clientId epoch sub entry.roleId entry.authorityRevision := by
  obtain ⟨log, hshows, hcoherent⟩ := h.boards clientId
  have hledger : (roleBoard db clientId log).ledger sub =
      some (.role entry.roleId, entry.authorityRevision) := by
    simp [roleBoard, hentry]
  constructor
  · have hcurrent := hcoherent.published sub _ _ hledger
    simp only [roleBoard, standing, hpresent, hcatalog, if_true, Option.some.injEq,
      Standing.role.injEq] at hcurrent
    exact hcurrent.symm
  · have hlatest := hcoherent.latest sub
    rw [hledger, Option.map_eq_some_iff] at hlatest
    obtain ⟨report, hreport, hvalue⟩ := hlatest
    obtain ⟨row, hrow, htells⟩ := forall₂_getLast? (hshows.about sub) hreport
    obtain ⟨roleId, hrole, hcontent⟩ := htells
    have hsubject : report.subject = sub :=
      (mem_reportsAbout.mp (List.mem_of_getLast? hreport)).2
    rw [Prod.mk.injEq, hrole, Standing.role.injEq] at hvalue
    obtain ⟨rfl, hrevision⟩ := hvalue
    exact ⟨report.epoch, row, hrow, by rw [hcontent, hsubject, hrevision]⟩

theorem Announced.versions {db : Db} (h : Announced db) (clientId : ClientId) :
    (roleRows db clientId).Pairwise fun a b => a.version ≤ b.version := by
  obtain ⟨log, hshows, hcoherent⟩ := h.boards clientId
  have hordered : (log.map fun report => report.revision).Pairwise (· ≤ ·) := by
    rw [List.pairwise_map]
    refine hcoherent.ordered.imp ?_
    intro a b hab
    omega
  rw [← hshows.revisions, List.pairwise_map] at hordered
  exact hordered

/-- A step advances the revision of a client by one if it reports a change for it
and not at all otherwise. -/
theorem RoleStep.revision {db db' : Db} {label : Option PublishCall} (h : RoleStep db db' label)
    (hnumbered : Numbered db) {clientId : ClientId} {log : List RoleReport}
    (hshows : Shows db clientId log) :
    authorityRevisionOf db' clientId = authorityRevisionOf db clientId +
      if reportedBy clientId label = [] then 0 else 1 := by
  obtain ⟨log', -, hturn⟩ := h.turn hnumbered clientId hshows
  have hrevision := hturn.revision
  simp only [announcedRoles_eq_nil] at hrevision
  exact hrevision

/-- The revision of a client counts the publications that found a change for it. -/
theorem roleSteps_revision {db db' : Db} {trace : List (Event Db (Option PublishCall))}
    (run : Exec roleSteps db trace db') (hannounced : Announced db) (clientId : ClientId) :
    (∀ event ∈ trace, authorityRevisionOf event.after clientId =
      authorityRevisionOf event.before clientId +
        if reportedBy clientId event.label = [] then 0 else 1) ∧
      authorityRevisionOf db' clientId = authorityRevisionOf db clientId +
        trace.countP fun event => !(reportedBy clientId event.label).isEmpty := by
  obtain ⟨log, hshows, -⟩ := hannounced.boards clientId
  induction run with
  | nil => exact ⟨by simp, by simp⟩
  | @snoc t u trace label run step ih =>
    obtain ⟨hevents, hsum⟩ := ih
    obtain ⟨hnumbered, log', -, hshows', -⟩ :=
      roleSteps_board run hannounced.numbered clientId hshows
    have hlast := RoleStep.revision step hnumbered hshows'
    constructor
    · intro event hevent
      rcases List.mem_append.mp hevent with hold | hnew
      · exact hevents event hold
      · rw [List.mem_singleton] at hnew
        subst hnew
        exact hlast
    · rw [hlast, hsum, List.countP_append]
      cases hreported : reportedBy clientId label <;> simp [hreported, Nat.add_assoc]

/-- After every run each published role is current and carried by the last event
about its user, events are numbered in their order, and the revision of a client
counts the publications that found a change for it. -/
theorem role_ledger (sha256 : JsString → Digest) {start : Db} (hstart : NothingPublished start)
    (transactions : List RoleTransaction) (clientId : ClientId) :
    let db := commitAll sha256 start transactions
    (∀ sub entry, hasAppCatalog db clientId = true → presentIdentity db sub = true →
      db.appRoleEffective.find? (clientId, sub) = some entry →
      entry.roleId = knownRole db clientId (effectiveAppRole db sub clientId).roleId ∧
      ∃ epoch row, (rowsAbout db clientId sub).getLast? = some row ∧
        row.content = reportContent clientId epoch sub entry.roleId entry.authorityRevision) ∧
    ((roleRows db clientId).Pairwise fun a b => a.version ≤ b.version) ∧
    (∀ (transaction : RoleTransaction) (db' : Db), transaction.work sha256 db = .ok db' →
      ∃ trace, Exec roleSteps db trace db' ∧
        (∀ event ∈ trace, authorityRevisionOf event.after clientId =
          authorityRevisionOf event.before clientId +
            if reportedBy clientId event.label = [] then 0 else 1) ∧
        authorityRevisionOf db' clientId = authorityRevisionOf db clientId +
          trace.countP fun event => !(reportedBy clientId event.label).isEmpty) := by
  intro db
  have hannounced : Announced db := commitAll_announced sha256 hstart transactions
  refine ⟨fun sub entry => hannounced.entry, hannounced.versions clientId, ?_⟩
  intro transaction db' h
  obtain ⟨trace, run, -⟩ := transaction.steps hannounced.memberships h
  exact ⟨trace, run, roleSteps_revision run hannounced clientId⟩

/-- A registered client and one user, who has the root org role. -/
def oneUserDb : Db :=
  { registeredDb with
    orgRoles := (∅ : Table Slug OrgRole).upsert (js "root") ⟨js "Root", 0, true⟩
    userOrgRoles := (∅ : Table Uuid Slug).upsert (Uuid.numbered 1) (js "root")
    identities := (∅ : Table Uuid Identity).upsert (Uuid.numbered 1)
      ⟨js "ann", js "Ann", none, false, none, none, .active, none⟩ }

theorem oneUserDb_nothingPublished : NothingPublished oneUserDb where
  memberships := by
    intro sub slug hmember
    simp only [oneUserDb, Table.find?_upsert, Table.contains] at hmember ⊢
    split at hmember
    · simp [← Option.some.inj hmember]
    · simp at hmember
  ledger := by simp [oneUserDb, registeredDb, Db.empty]
  events := by simp [oneUserDb, registeredDb, Db.empty, Outbox.empty]

/-- The first catalog of the client arrives. -/
def firstCatalog : RoleTransaction :=
  .incoming ⟨0, fun _ => Uuid.numbered 5, fun _ => Uuid.numbered 6, fun s => s⟩ (js "app") ⟨0, 1⟩
    (fun _ => 0) [oneRoleEvent 0]

theorem role_ledger_firstCatalog : ∃ epoch row,
    (rowsAbout (commitAll id oneUserDb [firstCatalog]) (js "app") (Uuid.numbered 1)).getLast? =
      some row ∧
    row.content = reportContent (js "app") epoch (Uuid.numbered 1) (some 0) 1 := by
  have hledger := (role_ledger id oneUserDb_nothingPublished [firstCatalog] (js "app")).1
  have hentry : (commitAll id oneUserDb [firstCatalog]).appRoleEffective.find?
      (js "app", Uuid.numbered 1) = some ⟨some 0, true, 1⟩ := by decide +kernel
  exact (hledger (Uuid.numbered 1) _ (by decide +kernel) (by decide +kernel) hentry).2

end DreamSso
