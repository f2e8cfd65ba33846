import DreamSso.RoleBoard
import Mathlib.Data.List.Dedup

/-!
The steps a role transaction is made of. A step writes role tables without moving
anybody's role, or it writes them and publishes for the clients whose roles it may
have moved. Every step is a turn on the board of every client.
-/
namespace DreamSso

open JsStrings JsonValues KeyedTables Fallible Transitions Announcements

/-- Writes outside the ledger of a client; no identity is removed and its catalog
is not dropped. -/
structure Unreported (clientId : ClientId) (db db' : Db) : Prop where
  authority : Started (authorityOf db clientId) (authorityOf db' clientId)
  ledger : ∀ sub, db'.appRoleEffective.find? (clientId, sub) =
    db.appRoleEffective.find? (clientId, sub)
  rows : roleRows db' clientId = roleRows db clientId
  identities : ∀ sub, presentIdentity db sub = true → presentIdentity db' sub = true
  catalog : hasAppCatalog db clientId = true → hasAppCatalog db' clientId = true

theorem Unreported.trans {clientId : ClientId} {a b c : Db} (h : Unreported clientId a b)
    (h' : Unreported clientId b c) : Unreported clientId a c :=
  ⟨h.authority.trans h'.authority, fun sub => (h'.ledger sub).trans (h.ledger sub),
    h'.rows.trans h.rows, fun sub hs => h'.identities sub (h.identities sub hs),
    fun hc => h'.catalog (h.catalog hc)⟩

/-- A user that was there keeps its role for the client. -/
def Stays (clientId : ClientId) (sub : Uuid) (db db' : Db) : Prop :=
  standing db clientId sub ≠ none → standing db' clientId sub = standing db clientId sub

/-- A call of publishRoleChanges on the state it was made in. -/
structure PublishCall where
  env : Surroundings
  db : Db
  clientIds : List ClientId
  subjects : Option (List Uuid)
  options : PublishOptions

/-- The changes the call found for a client. -/
def PublishCall.changes (call : PublishCall) (clientId : ClientId) : List EffectiveRow :=
  if clientId ∈ call.clientIds then changedRows call.db clientId call.subjects call.options else []

def PublishCall.covers (call : PublishCall) (clientId : ClientId) (sub : Uuid) : Prop :=
  clientId ∈ call.clientIds ∧ ∀ list ∈ call.subjects, sub ∈ list

inductive RoleStep (db db' : Db) : Option PublishCall → Prop
  | written (hwritten : ∀ clientId, Unreported clientId db db')
      (hstays : ∀ clientId sub, Stays clientId sub db db') : RoleStep db db' none
  | published {call : PublishCall} {count : ℕ}
      (hwritten : ∀ clientId, Unreported clientId db call.db)
      (hstays : ∀ clientId sub, ¬call.covers clientId sub → Stays clientId sub db call.db)
      (hpublished : publishRoleChanges call.env call.db call.clientIds call.subjects call.options =
        .ok (count, db')) : RoleStep db db' (some call)

/-- The changes a step reports for a client. -/
def reportedBy (clientId : ClientId) (label : Option PublishCall) : List EffectiveRow :=
  label.elim [] fun call => call.changes clientId

def roleSteps : System Db (Option PublishCall) where
  initial db := ∀ key, db.appRoleEffective.find? key = none
  step db label db' := RoleStep db db' label

theorem numbered_of_unreported {db db' : Db} (h : ∀ clientId, Unreported clientId db db')
    (hnumbered : Numbered db) : Numbered db' := by
  intro row hrow hkind
  have hwritten := h row.targetClientId
  have hmem : row ∈ roleRows db row.targetClientId := by
    rw [← hwritten.rows]
    exact mem_roleRows.mpr ⟨hrow, hkind, rfl⟩
  have hle := hnumbered row (mem_roleRows.mp hmem).1 hkind
  rwa [authorityRevisionOf, ← hwritten.authority.revision] at hle

theorem RoleStep.numbered {db db' : Db} {label : Option PublishCall} (h : RoleStep db db' label)
    (hnumbered : Numbered db) : Numbered db' := by
  cases h with
  | written hwritten hstays => exact numbered_of_unreported hwritten hnumbered
  | published hwritten hstays hpublished =>
    exact (publishClients_numbered hpublished (numbered_of_unreported hwritten hnumbered)).1

/-- Rows are only appended. -/
theorem RoleStep.rows_extend {db db' : Db} {label : Option PublishCall}
    (h : RoleStep db db' label) (hnumbered : Numbered db) (clientId : ClientId) :
    roleRows db clientId <+: roleRows db' clientId := by
  cases h with
  | written hwritten hstays =>
    exact (hwritten clientId).rows ▸ List.prefix_refl _
  | published hwritten hstays hpublished =>
    rw [← (hwritten clientId).rows]
    have hcall := numbered_of_unreported hwritten hnumbered
    exact (publishClients_extend hpublished hcall).filter _

theorem Unreported.shows {db db' : Db} {clientId : ClientId} (h : Unreported clientId db db')
    {log : List RoleReport} (hshows : Shows db clientId log) : Shows db' clientId log := by
  rw [Shows, h.rows]
  exact hshows

theorem Untouched.unreported {db db' : Db} {clientId : ClientId} (h : Untouched clientId db db') :
    Unreported clientId db db' := by
  refine ⟨?_, h.ledger, h.rows, ?_, ?_⟩
  · left
    rw [authorityOf, h.state, ← authorityOf]
  · intro sub hsub
    rwa [presentIdentity, h.unpublished.tables]
  · intro hcatalog
    rwa [hasAppCatalog, h.unpublished.tables]

/-- The board of a client that is not touched is the same. -/
theorem Untouched.board {db db' : Db} {clientId : ClientId} (h : Untouched clientId db db')
    (log : List RoleReport) : roleBoard db' clientId log = roleBoard db clientId log := by
  simp only [roleBoard, standing_congr h.unpublished.tables, h.ledger, authorityOf, h.state]

theorem Untouched.changedRows {db db' : Db} {clientId : ClientId} (h : Untouched clientId db db')
    (subjects : Option (List Uuid)) (options : PublishOptions) :
    changedRows db' clientId subjects options = changedRows db clientId subjects options := by
  rw [DreamSso.changedRows, effectiveRows_congr h.unpublished.tables h.ledger subjects]
  rfl

/-- A user a publication covers and does not report has its last reported role. -/
theorem unchanged_role {db : Db} {clientId : ClientId} {subjects : Option (List Uuid)}
    {options : PublishOptions} {sub : Uuid} (hcatalog : hasAppCatalog db clientId = true)
    (hpresent : presentIdentity db sub = true) (hcovered : ∀ list ∈ subjects, sub ∈ list)
    (hnot : sub ∉ (changedRows db clientId subjects options).map fun row => row.userSub) :
    ∃ entry, db.appRoleEffective.find? (clientId, sub) = some entry ∧
      standing db clientId sub = some (.role entry.roleId) := by
  obtain ⟨cat, hcat⟩ := (Table.contains_iff _ _).mp hcatalog
  have hrow := ((effectiveRow_mem hcat hpresent hcovered (effectiveRow db cat clientId sub)).mpr
    rfl).1
  have hsame : rowChanged options (effectiveRow db cat clientId sub) = false := by
    by_contra hchanged
    have hmem : effectiveRow db cat clientId sub ∈ changedRows db clientId subjects options :=
      List.mem_filter.mpr ⟨hrow, by simpa using hchanged⟩
    exact hnot (List.mem_map.mpr ⟨_, hmem, rfl⟩)
  simp only [rowChanged, Bool.or_eq_false_iff, Bool.not_eq_false', decide_eq_false_iff_not,
    not_not] at hsame
  obtain ⟨⟨⟨-, hknown⟩, hrole⟩, -⟩ := hsame
  obtain ⟨entry, hentry⟩ := Option.isSome_iff_exists.mp hknown
  refine ⟨entry, hentry, ?_⟩
  have hprevious : (effectiveRow db cat clientId sub).previousRole = entry.roleId := by
    simp [effectiveRow, hentry]
  have hcurrent : (effectiveRow db cat clientId sub).roleId =
      knownRole db clientId (effectiveAppRole db sub clientId).roleId := by
    rw [← rawRole_eq hcat]
    rfl
  simp only [standing, hpresent, hcatalog, if_true]
  rw [← hcurrent, hrole, hprevious]

/-- The row of a reported user carries its current role. -/
theorem changed_role {db : Db} {clientId : ClientId} {subjects : Option (List Uuid)}
    {options : PublishOptions} {row : EffectiveRow}
    (h : row ∈ changedRows db clientId subjects options) :
    standing db clientId row.userSub = some (.role row.roleId) := by
  have hrow := List.mem_of_mem_filter h
  unfold effectiveRows at hrow
  split at hrow
  · simp at hrow
  · next cat hcat =>
    obtain ⟨sub, hsub, rfl⟩ := List.mem_map.mp hrow
    have hcatalog : hasAppCatalog db clientId = true := (Table.contains_iff _ _).mpr ⟨cat, hcat⟩
    simp only [publishedSubjects, List.mem_filter, Bool.and_eq_true] at hsub
    have hrole : (effectiveRow db cat clientId sub).roleId =
        knownRole db clientId (effectiveAppRole db sub clientId).roleId := by
      rw [← rawRole_eq hcat]
      rfl
    have hpresent : presentIdentity db (effectiveRow db cat clientId sub).userSub = true := hsub.2.1
    simp only [standing, hpresent, hcatalog, if_true, hrole]
    rfl

/-- Writes followed by the publication of one client are a turn of its board. -/
theorem published_turn {before db db' : Db} {clientId : ClientId} {subjects : Option (List Uuid)}
    {options : PublishOptions} (hwritten : Unreported clientId before db) (hnumbered : Numbered db)
    (hstays : ∀ sub, (¬∀ list ∈ subjects, sub ∈ list) → Stays clientId sub before db)
    (h : PublishedClient db db' clientId (changedRows db clientId subjects options))
    {log : List RoleReport} (hshows : Shows before clientId log) :
    ∃ log', Shows db' clientId log' ∧ Turn (roleBoard before clientId log)
      (roleBoard db' clientId log')
      (announcedRoles (changedRows db clientId subjects options)) := by
  have hcurrent : standing db' = standing db := standing_congr h.unpublished.tables
  have hholds : ∀ log' sub,
      sub ∉ (announcedRoles (changedRows db clientId subjects options)).map Prod.fst →
      Holds (roleBoard before clientId log) (roleBoard db' clientId log') sub := by
    intro log' sub hnot
    rw [announcedRoles_subs] at hnot
    show (standing before clientId sub ≠ none → standing db' clientId sub = _) ∨ _
    rw [hcurrent]
    by_cases hcovered : ∀ list ∈ subjects, sub ∈ list
    · by_cases hcatalog : hasAppCatalog db clientId = true
      · by_cases hpresent : presentIdentity db sub = true
        · obtain ⟨entry, hentry, hrole⟩ := unchanged_role hcatalog hpresent hcovered hnot
          right
          refine ⟨.role entry.roleId, entry.authorityRevision, ?_, ?_⟩
          · simp [roleBoard, ← hwritten.ledger, hentry]
          · show standing db' clientId sub = _
            rw [hcurrent, hrole]
        · left
          intro hsome
          by_cases hbefore : presentIdentity before sub = true
          · exact (hpresent (hwritten.identities sub hbefore)).elim
          · simp [standing, hbefore] at hsome
      · left
        intro hsome
        by_cases hbefore : presentIdentity before sub = true
        · have hnone : ¬hasAppCatalog before clientId = true := fun hbefore' =>
            hcatalog (hwritten.catalog hbefore')
          simp [roleBoard, standing, hbefore, hwritten.identities sub hbefore, hcatalog, hnone]
        · simp [standing, hbefore] at hsome
    · exact .inl (hstays sub hcovered)
  by_cases hnil : changedRows db clientId subjects options = []
  · obtain ⟨hchannel, hledger, -⟩ := h.quiet hnil
    refine ⟨log, ?_, ?_⟩
    · have hrows : roleRows db' clientId = roleRows db clientId := by
        rw [roleRows, hchannel, ← roleRows]
      rw [Shows, hrows]
      exact hwritten.shows hshows
    · rw [announcedRoles_eq_nil.mpr hnil] at hholds ⊢
      refine .quiet ?_ rfl ?_ fun sub => hholds log sub (by simp)
      · intro sub
        show Option.map _ _ = Option.map _ _
        rw [hledger, hwritten.ledger]
      · exact hwritten.authority.trans (h.started hnil)
  · have hsubs := changedRows_subs_nodup db clientId subjects options
    obtain ⟨epoch, revision, extra, hbefore, hafter, hledger, hrows, hcontents⟩ :=
      h.appended hnumbered hsubs hnil
    refine ⟨log ++ (announcedRoles (changedRows db clientId subjects options)).map
      (stamp epoch (revision + 1)), ?_, ?_⟩
    · have hall : (extra.filter fun row => decide (row.kind = rolesChangeType) &&
          decide (row.targetClientId = clientId)) = extra := by
        rw [List.filter_eq_self]
        intro row hrow
        obtain ⟨hkind, htarget, -⟩ := reportContents_eq hcontents row hrow
        simp [hkind, htarget]
      rw [Shows, roleRows, hrows, List.filter_append, hall, ← roleRows]
      exact List.rel_append (hwritten.shows hshows) (reportContents_tells hcontents)
    · have hledger' : ∀ sub, (roleBoard db' clientId log).ledger sub =
          ((ledgerAfter clientId (revision + 1) db.appRoleEffective
            (changedRows db clientId subjects options)).find? (clientId, sub)).map fun e =>
              (.role e.roleId, e.authorityRevision) := by
        intro sub
        simp only [roleBoard, hledger]
      refine .announced (fun hempty => hnil (announcedRoles_eq_nil.mp hempty))
        (by rwa [announcedRoles_subs]) ?_ hafter ?_ ?_ rfl ?_ fun sub hnot => hholds _ sub hnot
      · rcases hwritten.authority with hsame | ⟨hnone, created, hcreated⟩
        · rw [hsame] at hbefore
          exact hbefore
        · rcases hbefore with hsome | ⟨hmissing, -⟩
          · rw [hcreated, Option.some.injEq, Prod.mk.injEq] at hsome
            exact .inr ⟨hnone, hsome.2.symm⟩
          · simp [hcreated] at hmissing
      · intro change hchange
        obtain ⟨row, hrow, rfl⟩ := List.mem_map.mp hchange
        refine (hledger' row.userSub).trans ?_
        rw [ledgerAfter_row hsubs hrow]
        rfl
      · intro sub hnot
        rw [announcedRoles_subs] at hnot
        refine (hledger' sub).trans ?_
        rw [ledgerAfter_other, hwritten.ledger]
        · rfl
        · right
          intro row hrow hsame
          exact hnot (List.mem_map.mpr ⟨row, hrow, hsame⟩)
      · intro change hchange
        obtain ⟨row, hrow, rfl⟩ := List.mem_map.mp hchange
        show standing db' clientId row.userSub = _
        rw [hcurrent, changed_role hrow]

theorem sortedClients_nodup (clientIds : List ClientId) :
    (clientIds.dedup.insertionSort (· ≤ ·)).Nodup :=
  (List.perm_insertionSort _ _).nodup_iff.mpr (List.nodup_dedup clientIds)

theorem mem_sortedClients {clientIds : List ClientId} {clientId : ClientId} :
    clientId ∈ clientIds.dedup.insertionSort (· ≤ ·) ↔ clientId ∈ clientIds := by
  rw [(List.perm_insertionSort _ _).mem_iff, List.mem_dedup]

/-- Every step is a turn of the board of every client. -/
theorem RoleStep.turn {db db' : Db} {label : Option PublishCall} (h : RoleStep db db' label)
    (hnumbered : Numbered db) (clientId : ClientId) {log : List RoleReport}
    (hshows : Shows db clientId log) :
    ∃ log', Shows db' clientId log' ∧ Turn (roleBoard db clientId log)
      (roleBoard db' clientId log') (announcedRoles (reportedBy clientId label)) := by
  have hquiet : ∀ db', Unreported clientId db db' → (∀ sub, Stays clientId sub db db') →
      Shows db' clientId log ∧ Turn (roleBoard db clientId log) (roleBoard db' clientId log) [] := by
    intro db' hwritten hstays
    refine ⟨hwritten.shows hshows, .quiet ?_ rfl hwritten.authority fun sub => .inl (hstays sub)⟩
    intro sub
    show Option.map _ _ = Option.map _ _
    rw [hwritten.ledger]
  cases h with
  | written hwritten hstays => exact ⟨log, hquiet db' (hwritten clientId) (hstays clientId)⟩
  | @published call count hwritten hstays hpublished =>
    have hcall := numbered_of_unreported hwritten hnumbered
    by_cases hmem : clientId ∈ call.clientIds
    · obtain ⟨s, t, hbefore, hs, hat, hafter⟩ := publishClients_at hpublished hcall
        (sortedClients_nodup _) (mem_sortedClients.mpr hmem)
      have hreported : reportedBy clientId (some call) =
          changedRows s clientId call.subjects call.options := by
        rw [hbefore.changedRows]
        simp [reportedBy, PublishCall.changes, hmem]
      have hmoved : ∀ sub, (¬∀ list ∈ call.subjects, sub ∈ list) → Stays clientId sub db s := by
        intro sub hout
        have hstay := hstays clientId sub fun hcovers => hout hcovers.2
        rw [Stays, standing_congr hbefore.unpublished.tables]
        exact hstay
      obtain ⟨log', hlog', hturn⟩ := published_turn
        ((hwritten clientId).trans hbefore.unreported) hs hmoved hat hshows
      refine ⟨log', hafter.unreported.shows hlog', ?_⟩
      rw [hreported, hafter.board]
      exact hturn
    · have hsame := (publishClients_numbered hpublished hcall).2 clientId
        (fun hsorted => hmem (mem_sortedClients.mp hsorted))
      have hnone : reportedBy clientId (some call) = [] := by
        simp [reportedBy, PublishCall.changes, hmem]
      rw [hnone]
      refine ⟨log, hquiet db' ((hwritten clientId).trans hsame.unreported) ?_⟩
      intro sub
      rw [Stays, standing_congr hsame.unpublished.tables]
      exact hstays clientId sub fun hcovers => hmem hcovers.1

end DreamSso
