import DreamSso.ChainAgreement
import DreamSso.RoleCalls
import DreamSso.Library.Announcements

/-!
The role ledger of a client as a board of announced values. The current value of
a user is the role the chain resolves to, a publication is a turn that announces
the roles it found changed, and the account.roles_change rows are the log.
-/
namespace DreamSso

open JsStrings JsonValues KeyedTables StoredJson Fallible Transitions Announcements

/-- What a client can be told about a user. -/
inductive Standing
  | unmanaged
  | role (roleId : Option ℤ)
  deriving DecidableEq

abbrev RoleReport := Report Uuid Standing Uuid

def standing (db : Db) (clientId : ClientId) (sub : Uuid) : Option Standing :=
  if presentIdentity db sub then
    some (if hasAppCatalog db clientId then
      .role (knownRole db clientId (effectiveAppRole db sub clientId).roleId) else .unmanaged)
  else none

def authorityOf (db : Db) (clientId : ClientId) : Option (Uuid × ℕ) :=
  (db.appRoleSyncState.find? clientId).map fun s => (s.authorityEpoch, s.authorityRevision)

def authorityRevisionOf (db : Db) (clientId : ClientId) : ℕ := (authorityOf db clientId).elim 0 Prod.snd

def roleBoard (db : Db) (clientId : ClientId) (log : List RoleReport) :
    Board Uuid Standing Uuid where
  current := standing db clientId
  ledger sub := (db.appRoleEffective.find? (clientId, sub)).map fun e =>
    (.role e.roleId, e.authorityRevision)
  authority := authorityOf db clientId
  log := log

/-- The account.roles_change rows of a client. -/
def roleRows (db : Db) (clientId : ClientId) : List OutboxRow :=
  db.eventOutbox.rows.filter fun row =>
    decide (row.kind = rolesChangeType) && decide (row.targetClientId = clientId)

/-- The row is this report. -/
def Tells (clientId : ClientId) (row : OutboxRow) (report : RoleReport) : Prop :=
  ∃ roleId, report.value = .role roleId ∧
    row.content = reportContent clientId report.epoch report.subject roleId report.revision

def Shows (db : Db) (clientId : ClientId) (log : List RoleReport) : Prop :=
  List.Forall₂ (Tells clientId) (roleRows db clientId) log

/-- No row is numbered beyond the revision of its client. -/
def Numbered (db : Db) : Prop :=
  ∀ row ∈ db.eventOutbox.rows, row.kind = rolesChangeType →
    row.version ≤ authorityRevisionOf db row.targetClientId

theorem mem_roleRows {db : Db} {clientId : ClientId} {row : OutboxRow} :
    row ∈ roleRows db clientId ↔ row ∈ db.eventOutbox.rows ∧ row.kind = rolesChangeType ∧
      row.targetClientId = clientId := by
  simp [roleRows]

theorem authorityOf_state {db : Db} {clientId : ClientId} {state : RoleSyncState}
    (h : db.appRoleSyncState.find? clientId = some state) :
    authorityOf db clientId = some (state.authorityEpoch, state.authorityRevision) := by
  rw [authorityOf, h]
  rfl

theorem standing_congr {db db' : Db} (h : db'.toRoleTables = db.toRoleTables) :
    standing db' = standing db := by
  funext clientId sub
  simp only [standing, presentIdentity, hasAppCatalog, knownRole, effectiveAppRole, orgLayer, h]
  rfl

/-- The roles a publication announces. -/
def announcedRoles (rows : List EffectiveRow) : List (Uuid × Standing) :=
  rows.map fun row => (row.userSub, .role row.roleId)

theorem announcedRoles_subs (rows : List EffectiveRow) :
    (announcedRoles rows).map Prod.fst = rows.map fun row => row.userSub := by
  simp [announcedRoles, Function.comp_def]

theorem announcedRoles_eq_nil {rows : List EffectiveRow} : announcedRoles rows = [] ↔ rows = [] :=
  List.map_eq_nil_iff

theorem content_eq {row : OutboxRow} {clientId : ClientId} {epoch sub : Uuid} {roleId : Option ℤ}
    {revision : ℕ} (h : row.content = reportContent clientId epoch sub roleId revision) :
    row.kind = rolesChangeType ∧ row.targetClientId = clientId ∧ row.version = revision := by
  simp only [OutboxRow.content, reportContent, Prod.mk.injEq] at h
  exact ⟨h.1, h.2.1, h.2.2.2⟩

theorem reportContents_eq {clientId : ClientId} {epoch : Uuid} {revision : ℕ}
    {rows : List EffectiveRow} {extra : List OutboxRow}
    (h : extra.map OutboxRow.content = reportContents clientId epoch revision rows) :
    ∀ row ∈ extra, row.kind = rolesChangeType ∧ row.targetClientId = clientId ∧
      row.version = revision := by
  intro row hrow
  have hmem : row.content ∈ reportContents clientId epoch revision rows :=
    h ▸ List.mem_map_of_mem hrow
  obtain ⟨changed, -, hcontent⟩ := List.mem_map.mp hmem
  exact content_eq hcontent.symm

/-- The rows of a publication tell its announcements. -/
theorem reportContents_tells {clientId : ClientId} {epoch : Uuid} {revision : ℕ}
    {rows : List EffectiveRow} {extra : List OutboxRow}
    (h : extra.map OutboxRow.content = reportContents clientId epoch revision rows) :
    List.Forall₂ (Tells clientId) extra ((announcedRoles rows).map (stamp epoch revision)) := by
  have hpairs : List.Forall₂ (fun row (changed : EffectiveRow) => row.content =
      reportContent clientId epoch changed.userSub changed.roleId revision) extra rows := by
    rw [← List.forall₂_map_right_iff, ← List.forall₂_map_left_iff, ← reportContents, ← h]
    exact List.forall₂_same.mpr fun _ _ => rfl
  rw [announcedRoles, List.map_map, List.forall₂_map_right_iff]
  exact hpairs.imp fun row changed hcontent => ⟨changed.roleId, rfl, hcontent⟩

/-- A client that a statement leaves as it is. -/
structure Untouched (clientId : ClientId) (db db' : Db) : Prop where
  unpublished : Unpublished db db'
  state : db'.appRoleSyncState.find? clientId = db.appRoleSyncState.find? clientId
  ledger : ∀ sub, db'.appRoleEffective.find? (clientId, sub) =
    db.appRoleEffective.find? (clientId, sub)
  rows : roleRows db' clientId = roleRows db clientId

theorem Untouched.refl (clientId : ClientId) (db : Db) : Untouched clientId db db :=
  ⟨Unpublished.refl db, rfl, fun _ => rfl, rfl⟩

theorem Untouched.trans {clientId : ClientId} {a b c : Db} (h : Untouched clientId a b)
    (h' : Untouched clientId b c) : Untouched clientId a c :=
  ⟨h.unpublished.trans h'.unpublished, h'.state.trans h.state,
    fun sub => (h'.ledger sub).trans (h.ledger sub), h'.rows.trans h.rows⟩

/-- The authority row is the same or was created at revision zero. -/
def Started (before after : Option (Uuid × ℕ)) : Prop :=
  after = before ∨ before = none ∧ ∃ epoch, after = some (epoch, 0)

theorem Started.refl (authority : Option (Uuid × ℕ)) : Started authority authority := .inl rfl

theorem Started.trans {a b c : Option (Uuid × ℕ)} (h : Started a b) (h' : Started b c) :
    Started a c := by
  rcases h with rfl | ⟨hnone, epoch, rfl⟩
  · exact h'
  · rcases h' with rfl | ⟨hsome, -⟩
    · exact .inr ⟨hnone, epoch, rfl⟩
    · simp at hsome

theorem Started.revision {a b : Option (Uuid × ℕ)} (h : Started a b) :
    b.elim 0 Prod.snd = a.elim 0 Prod.snd := by
  rcases h with rfl | ⟨rfl, epoch, rfl⟩ <;> rfl

section Publication

variable {db db' : Db} {clientId : ClientId} {changed : List EffectiveRow}

/-- A publication that found nothing at most creates the authority row. -/
theorem PublishedClient.started (h : PublishedClient db db' clientId changed) (hnil : changed = []) :
    Started (authorityOf db clientId) (authorityOf db' clientId) := by
  obtain ⟨-, -, hsame | ⟨hnone, state, hstate, hunused⟩⟩ := h.quiet hnil
  · left
    rw [authorityOf, hsame, ← authorityOf]
  · right
    refine ⟨by rw [authorityOf, hnone]; rfl, state.authorityEpoch, ?_⟩
    rw [authorityOf_state hstate, hunused.1]

theorem PublishedClient.advanced (h : PublishedClient db db' clientId changed)
    (hchanged : changed ≠ []) : ∃ epoch revision,
      (authorityOf db clientId = some (epoch, revision) ∨
        authorityOf db clientId = none ∧ revision = 0) ∧
      authorityOf db' clientId = some (epoch, revision + 1) ∧
      db'.appRoleEffective = ledgerAfter clientId (revision + 1) db.appRoleEffective changed ∧
      Appends db db' (reportContents clientId epoch (revision + 1) changed) := by
  obtain ⟨state, state', hafter, hbefore, hepoch, hrevision, -, -, -, hledger, happends⟩ :=
    h.reported hchanged
  rw [hrevision] at hledger happends
  rw [hepoch] at happends
  refine ⟨state.authorityEpoch, state.authorityRevision, ?_, ?_, hledger, happends⟩
  · rcases hbefore with hsome | ⟨hnone, hunused⟩
    · exact .inl (authorityOf_state hsome)
    · exact .inr ⟨by rw [authorityOf, hnone]; rfl, hunused.1⟩
  · rw [authorityOf_state hafter, hepoch, hrevision]

theorem PublishedClient.revision_le (h : PublishedClient db db' clientId changed)
    (other : ClientId) : authorityRevisionOf db other ≤ authorityRevisionOf db' other := by
  by_cases hother : other = clientId
  · subst hother
    by_cases hnil : changed = []
    · exact (h.started hnil).revision.ge
    · obtain ⟨epoch, revision, hbefore, hafter, -⟩ := h.advanced hnil
      rcases hbefore with hsome | ⟨hnone, -⟩
      · simp [authorityRevisionOf, hsome, hafter]
      · simp [authorityRevisionOf, hnone]
  · have hsame : authorityOf db' other = authorityOf db other := by
      rw [authorityOf, h.others other hother, ← authorityOf]
    rw [authorityRevisionOf, authorityRevisionOf, hsame]

/-- The reports of a publication are stored after the earlier rows: their revision
has not been used. -/
theorem PublishedClient.appended (h : PublishedClient db db' clientId changed)
    (hnumbered : Numbered db) (hnodup : (changed.map fun row => row.userSub).Nodup)
    (hchanged : changed ≠ []) : ∃ epoch revision extra,
      (authorityOf db clientId = some (epoch, revision) ∨
        authorityOf db clientId = none ∧ revision = 0) ∧
      authorityOf db' clientId = some (epoch, revision + 1) ∧
      db'.appRoleEffective = ledgerAfter clientId (revision + 1) db.appRoleEffective changed ∧
      db'.eventOutbox.rows = db.eventOutbox.rows ++ extra ∧
      extra.map OutboxRow.content = reportContents clientId epoch (revision + 1) changed := by
  obtain ⟨epoch, revision, hbefore, hafter, hledger, happends⟩ := h.advanced hchanged
  have hused : authorityRevisionOf db clientId = revision := by
    rcases hbefore with hsome | ⟨hnone, rfl⟩
    · simp [authorityRevisionOf, hsome]
    · simp [authorityRevisionOf, hnone]
  have hfresh : ∀ row ∈ db.eventOutbox.rows,
      row.content ∉ reportContents clientId epoch (revision + 1) changed := by
    intro row hrow hmem
    obtain ⟨moved, -, hcontent⟩ := List.mem_map.mp hmem
    obtain ⟨hkind, htarget, hversion⟩ := content_eq hcontent.symm
    have hle := hnumbered row hrow hkind
    rw [htarget, hused, hversion] at hle
    omega
  obtain ⟨extra, hrows, hcontents, -⟩ := happends (reportContents_nodup hnodup) hfresh
  exact ⟨epoch, revision, extra, hbefore, hafter, hledger, hrows, hcontents⟩

theorem PublishedClient.numbered (h : PublishedClient db db' clientId changed)
    (hnumbered : Numbered db) (hnodup : (changed.map fun row => row.userSub).Nodup) :
    Numbered db' := by
  have hold : ∀ row ∈ db.eventOutbox.rows, row.kind = rolesChangeType →
      row.version ≤ authorityRevisionOf db' row.targetClientId := fun row hrow hkind =>
    Nat.le_trans (hnumbered row hrow hkind) (h.revision_le row.targetClientId)
  intro row hrow hkind
  by_cases hnil : changed = []
  · obtain ⟨hchannel, -⟩ := h.quiet hnil
    rw [hchannel] at hrow
    exact hold row hrow hkind
  · obtain ⟨epoch, revision, extra, -, hafter, -, hrows, hcontents⟩ :=
      h.appended hnumbered hnodup hnil
    rw [hrows] at hrow
    rcases List.mem_append.mp hrow with hfirst | hnew
    · exact hold row hfirst hkind
    · obtain ⟨-, htarget, hversion⟩ := reportContents_eq hcontents row hnew
      rw [htarget, hversion, authorityRevisionOf, hafter]
      exact Nat.le_refl _

theorem PublishedClient.rows_extend (h : PublishedClient db db' clientId changed)
    (hnumbered : Numbered db) (hnodup : (changed.map fun row => row.userSub).Nodup) :
    db.eventOutbox.rows <+: db'.eventOutbox.rows := by
  by_cases hnil : changed = []
  · exact (h.quiet hnil).1 ▸ List.prefix_refl _
  · obtain ⟨epoch, revision, extra, -, -, -, hrows, -⟩ := h.appended hnumbered hnodup hnil
    rw [hrows]
    exact List.prefix_append _ _

theorem PublishedClient.untouched (h : PublishedClient db db' clientId changed)
    (hnumbered : Numbered db) (hnodup : (changed.map fun row => row.userSub).Nodup)
    {other : ClientId} (hne : other ≠ clientId) : Untouched other db db' := by
  refine ⟨h.unpublished, h.others other hne, ?_, ?_⟩
  · intro sub
    by_cases hnil : changed = []
    · rw [(h.quiet hnil).2.1]
    · obtain ⟨epoch, revision, -, -, hledger, -⟩ := h.advanced hnil
      rw [hledger, ledgerAfter_other (.inl hne)]
  · by_cases hnil : changed = []
    · obtain ⟨hchannel, -⟩ := h.quiet hnil
      rw [roleRows, hchannel, ← roleRows]
    · obtain ⟨epoch, revision, extra, -, -, -, hrows, hcontents⟩ :=
        h.appended hnumbered hnodup hnil
      have hnone : (extra.filter fun row => decide (row.kind = rolesChangeType) &&
          decide (row.targetClientId = other)) = [] := by
        rw [List.filter_eq_nil_iff]
        intro row hrow
        obtain ⟨-, htarget, -⟩ := reportContents_eq hcontents row hrow
        simp [htarget, Ne.symm hne]
      rw [roleRows, hrows, List.filter_append, hnone, List.append_nil, ← roleRows]

end Publication

section Calls

variable {env : Surroundings} {subjects : Option (List Uuid)} {options : PublishOptions}

theorem publishClients_numbered {ids : List ClientId} {db db' : Db} {count : ℕ}
    (h : publishClients env subjects options db ids = .ok (count, db')) (hnumbered : Numbered db) :
    Numbered db' ∧ ∀ other, other ∉ ids → Untouched other db db' := by
  induction ids generalizing db count with
  | nil =>
    simp only [publishClients, Except.ok.injEq, Prod.mk.injEq] at h
    obtain ⟨-, rfl⟩ := h
    exact ⟨hnumbered, fun other _ => Untouched.refl other db⟩
  | cons clientId rest ih =>
    rw [publishClients, bind_eq_ok] at h
    obtain ⟨⟨first, mid⟩, hfirst, h⟩ := h
    rw [bind_eq_ok] at h
    obtain ⟨⟨others, last⟩, hrest, h⟩ := h
    simp only [Except.ok.injEq, Prod.mk.injEq] at h
    obtain ⟨-, rfl⟩ := h
    have hnodup := changedRows_subs_nodup db clientId subjects options
    have hpublished := (publishClient_ok hfirst).2
    obtain ⟨hlast, hothers⟩ := ih hrest (hpublished.numbered hnumbered hnodup)
    refine ⟨hlast, ?_⟩
    intro other hother
    rw [List.mem_cons, not_or] at hother
    exact (hpublished.untouched hnumbered hnodup hother.1).trans (hothers other hother.2)

theorem publishClients_extend {ids : List ClientId} {db db' : Db} {count : ℕ}
    (h : publishClients env subjects options db ids = .ok (count, db')) (hnumbered : Numbered db) :
    db.eventOutbox.rows <+: db'.eventOutbox.rows := by
  induction ids generalizing db count with
  | nil =>
    simp only [publishClients, Except.ok.injEq, Prod.mk.injEq] at h
    exact h.2 ▸ List.prefix_refl _
  | cons clientId rest ih =>
    rw [publishClients, bind_eq_ok] at h
    obtain ⟨⟨first, mid⟩, hfirst, h⟩ := h
    rw [bind_eq_ok] at h
    obtain ⟨⟨others, last⟩, hrest, h⟩ := h
    simp only [Except.ok.injEq, Prod.mk.injEq] at h
    obtain ⟨-, rfl⟩ := h
    have hnodup := changedRows_subs_nodup db clientId subjects options
    have hpublished := (publishClient_ok hfirst).2
    exact (hpublished.rows_extend hnumbered hnodup).trans
      (ih hrest (hpublished.numbered hnumbered hnodup))

/-- Each client of a publication is handled once; before and after nothing of it moves. -/
theorem publishClients_at {ids : List ClientId} {db db' : Db} {count : ℕ}
    (h : publishClients env subjects options db ids = .ok (count, db')) (hnumbered : Numbered db)
    (hnodup : ids.Nodup) {clientId : ClientId} (hmem : clientId ∈ ids) :
    ∃ s t, Untouched clientId db s ∧ Numbered s ∧
      PublishedClient s t clientId (changedRows s clientId subjects options) ∧
      Untouched clientId t db' := by
  induction ids generalizing db count with
  | nil => simp at hmem
  | cons first rest ih =>
    rw [publishClients, bind_eq_ok] at h
    obtain ⟨⟨n, mid⟩, hfirst, h⟩ := h
    rw [bind_eq_ok] at h
    obtain ⟨⟨others, last⟩, hrest, h⟩ := h
    simp only [Except.ok.injEq, Prod.mk.injEq] at h
    obtain ⟨-, rfl⟩ := h
    have hsubs := changedRows_subs_nodup db first subjects options
    have hpublished := (publishClient_ok hfirst).2
    have hmid := hpublished.numbered hnumbered hsubs
    obtain ⟨hnew, hdistinct⟩ := List.nodup_cons.mp hnodup
    rcases List.mem_cons.mp hmem with rfl | hmem
    · exact ⟨db, mid, Untouched.refl _ db, hnumbered, hpublished,
        (publishClients_numbered hrest hmid).2 clientId hnew⟩
    · have hne : clientId ≠ first := fun hsame => hnew (hsame ▸ hmem)
      obtain ⟨s, t, hbefore, hs, hat, hafter⟩ := ih hrest hmid hdistinct hmem
      exact ⟨s, t, (hpublished.untouched hnumbered hsubs hne).trans hbefore, hs, hat, hafter⟩

end Calls

end DreamSso
