import DreamSso.RoleLedger
import DreamSso.RoleReferences

/-!
Reports about roles: stored events and snapshots with an authority, which relying
parties order by revision. Reports of one revision agree, a change of a role is
reported at a new revision, and the greatest report of a run is current.
-/
namespace DreamSso

open JsStrings JsonValues KeyedTables Fallible Transitions Announcements

/-- A report about a user that was there when it was made, in a run of transactions
with reads between their commits. -/
inductive Reported (sha256 : JsString → Digest) (start : Db) (run : List RoleTransaction)
    (clientId : ClientId) (sub : Uuid) : Uuid → ℕ → Option ℤ → Prop
  | event {row : OutboxRow} {epoch : Uuid} {revision : ℕ} {roleId : Option ℤ}
      (hrow : row ∈ (commitAll sha256 start run).eventOutbox.rows)
      (hcontent : row.content = reportContent clientId epoch sub roleId revision) :
      Reported sha256 start run clientId sub epoch revision roleId
  | snapshot {earlier later : List RoleTransaction} {subjects : List Uuid}
      {snapshot : AccessStateSnapshot} {authority : Authority} {state : AccessState}
      (hrun : run = earlier ++ later)
      (hpresent : presentIdentity (commitAll sha256 start earlier) sub = true)
      (hread : readAccessStateSnapshot (commitAll sha256 start earlier) clientId subjects =
        .ok snapshot)
      (hauthority : snapshot.authority = some authority) (hstate : state ∈ snapshot.states)
      (hsub : state.sub = sub) :
      Reported sha256 start run clientId sub authority.epoch authority.revision state.roleId

theorem commitAll_append (sha256 : JsString → Digest) (db : Db)
    (first second : List RoleTransaction) :
    commitAll sha256 db (first ++ second) = commitAll sha256 (commitAll sha256 db first) second :=
  List.foldl_append

theorem Tells.unique {clientId : ClientId} {row : OutboxRow} {r s : RoleReport}
    (h : Tells clientId row r) (h' : Tells clientId row s) : r = s := by
  obtain ⟨roleId, hvalue, hcontent⟩ := h
  obtain ⟨roleId', hvalue', hcontent'⟩ := h'
  obtain ⟨hsub, hrole, hepoch, hrevision⟩ := reportContent_sub (hcontent.symm.trans hcontent')
  cases r
  cases s
  simp_all

theorem Shows.unique {db : Db} {clientId : ClientId} {log log' : List RoleReport}
    (h : Shows db clientId log) (h' : Shows db clientId log') : log = log' := by
  rw [Shows] at h h'
  generalize roleRows db clientId = rows at h h'
  induction h generalizing log' with
  | nil =>
    cases h'
    rfl
  | cons hfirst _ ih =>
    cases h' with
    | cons hfirst' hrest' => rw [hfirst.unique hfirst', ih hrest']

/-- A stored event about a role is in the log. -/
theorem Shows.event {db : Db} {clientId : ClientId} {log : List RoleReport}
    (h : Shows db clientId log) {row : OutboxRow} {epoch sub : Uuid} {roleId : Option ℤ}
    {revision : ℕ} (hrow : row ∈ db.eventOutbox.rows)
    (hcontent : row.content = reportContent clientId epoch sub roleId revision) :
    ⟨sub, .role roleId, epoch, revision⟩ ∈ log := by
  obtain ⟨hkind, htarget, -⟩ := content_eq hcontent
  have hmem : row ∈ roleRows db clientId := mem_roleRows.mpr ⟨hrow, hkind, htarget⟩
  obtain ⟨report, hreport, htells⟩ := forall₂_mem_left h hmem
  have hsame : report = ⟨sub, .role roleId, epoch, revision⟩ :=
    htells.unique ⟨roleId, rfl, hcontent⟩
  exact hsame ▸ hreport

/-- A run, seen from the board of a client. -/
theorem commitAll_board {sha256 : JsString → Digest} {db : Db} (hannounced : Announced db)
    (run : List RoleTransaction) {clientId : ClientId} {log : List RoleReport}
    (hshows : Shows db clientId log)
    (hcoherent : Announcements.Coherent (roleBoard db clientId log)) :
    ∃ log' m, Shows (commitAll sha256 db run) clientId log' ∧
      Announcements.Coherent (roleBoard (commitAll sha256 db run) clientId log') ∧
      Announcements.Later (roleBoard db clientId log)
        (roleBoard (commitAll sha256 db run) clientId log') m := by
  induction run generalizing db log with
  | nil => exact ⟨log, 0, hshows, hcoherent, Announcements.Later.refl _⟩
  | cons transaction rest ih =>
    rcases withRoleTransaction_cases db (transaction.work sha256) with hrolled | hcommitted
    · have hsame : commitAll sha256 db (transaction :: rest) = commitAll sha256 db rest := by
        rw [commitAll, List.foldl_cons, ← commitAll, RoleTransaction.commit, hrolled]
      rw [hsame]
      exact ih hannounced hshows hcoherent
    · obtain ⟨mid, hmid, hcoherent', hlater⟩ :=
        transaction.board hannounced hcommitted hshows hcoherent
      obtain ⟨log', m, hshows', hfinal, hlater'⟩ :=
        ih (transaction.announced hannounced hcommitted) hmid hcoherent'
      exact ⟨log', _, hshows', hfinal, hlater.trans hlater'⟩

/-- A snapshot with an authority is taken of a client with a catalog and carries
its revision. -/
theorem readAccessStateSnapshot_authority {db : Db} {clientId : ClientId} {subjects : List Uuid}
    {snapshot : AccessStateSnapshot} {authority : Authority}
    (h : readAccessStateSnapshot db clientId subjects = .ok snapshot)
    (hauthority : snapshot.authority = some authority) :
    hasAppCatalog db clientId = true ∧
      authorityOf db clientId = some (authority.epoch, authority.revision) := by
  unfold readAccessStateSnapshot at h
  simp only at h
  split at h
  · next hsynced =>
    have hrows : ∀ row ∈ accessStateRows db clientId subjects,
        row.catalogSynced = hasAppCatalog db clientId ∧
          row.authority = (db.appRoleSyncState.find? clientId).map fun a =>
            ⟨a.authorityEpoch, a.authorityRevision⟩ := by
      intro row hrow
      rw [accessStateRows] at hrow
      split at hrow
      · obtain ⟨sub, -, rfl⟩ := List.mem_map.mp hrow
        exact ⟨rfl, rfl⟩
      · simp at hrow
    obtain ⟨synced, hmem, hcatalog⟩ := List.any_eq_true.mp hsynced
    split at h
    · simp at h
    · next found hfound =>
      split at h
      · simp at h
      · rw [← Except.ok.inj h, Option.some.injEq] at hauthority
        subst hauthority
        obtain ⟨first, hfirst, hstate⟩ := Option.bind_eq_some_iff.mp hfound
        rw [(hrows first (List.mem_of_head? hfirst)).2, Option.map_eq_some_iff] at hstate
        obtain ⟨state, hstate, rfl⟩ := hstate
        exact ⟨(hrows synced hmem).1.symm.trans hcatalog, authorityOf_state hstate⟩
  · rw [← Except.ok.inj h] at hauthority
    simp at hauthority

section Runs

variable {sha256 : JsString → Digest} {start : Db} {clientId : ClientId} {sub : Uuid}

/-- What a snapshot tells about a user is the current value on the board. -/
theorem snapshot_standing {db : Db} (hdangling : NoDangling db) {subjects : List Uuid}
    {snapshot : AccessStateSnapshot} {authority : Authority} {state : AccessState}
    (hpresent : presentIdentity db sub = true)
    (hread : readAccessStateSnapshot db clientId subjects = .ok snapshot)
    (hauthority : snapshot.authority = some authority) (hstate : state ∈ snapshot.states)
    (hsub : state.sub = sub) :
    standing db clientId sub = some (.role state.roleId) ∧
      authorityOf db clientId = some (authority.epoch, authority.revision) := by
  obtain ⟨hcatalog, hrow⟩ := readAccessStateSnapshot_authority hread hauthority
  obtain ⟨other, -, rfl⟩ := readAccessStateSnapshot_state hread hstate
  obtain rfl : other = sub := hsub
  obtain ⟨i, hi, -⟩ := (Option.any_eq_true _ _).mp hpresent
  refine ⟨?_, hrow⟩
  rw [(accessState_role hi hcatalog).1, standing, hpresent, hcatalog, hdangling.known]
  rfl

/-- Where a report of a run comes from, on the board of its client. -/
theorem Reported.source (hstart : NothingPublished start) (hdangling : NoDangling start)
    {run : List RoleTransaction} {epoch : Uuid} {revision : ℕ} {roleId : Option ℤ}
    (h : Reported sha256 start run clientId sub epoch revision roleId) {log : List RoleReport}
    (hshows : Shows (commitAll sha256 start run) clientId log) :
    ⟨sub, .role roleId, epoch, revision⟩ ∈ log ∨
      ∃ earlier later seen, run = earlier ++ later ∧
        Shows (commitAll sha256 start earlier) clientId seen ∧
        standing (commitAll sha256 start earlier) clientId sub = some (.role roleId) ∧
        authorityOf (commitAll sha256 start earlier) clientId = some (epoch, revision) := by
  cases h with
  | event hrow hcontent => exact .inl (hshows.event hrow hcontent)
  | @snapshot earlier later subjects snapshot authority state hrun hpresent hread hauthority hstate
      hsub =>
    right
    obtain ⟨seen, hseen, -⟩ := (commitAll_announced sha256 hstart earlier).boards clientId
    obtain ⟨hcurrent, hrow⟩ := snapshot_standing (commitAll_noDangling sha256 hdangling earlier)
      hpresent hread hauthority hstate hsub
    exact ⟨earlier, later, seen, hrun, hseen, hcurrent, hrow⟩

/-- The board after a prefix of a run and the board after the run. -/
theorem prefix_later (hstart : NothingPublished start) (earlier later : List RoleTransaction)
    {log log' : List RoleReport} (hshows : Shows (commitAll sha256 start earlier) clientId log)
    (hshows' : Shows (commitAll sha256 start (earlier ++ later)) clientId log') :
    Announcements.Coherent (roleBoard (commitAll sha256 start earlier) clientId log) ∧
      Announcements.Coherent (roleBoard (commitAll sha256 start (earlier ++ later)) clientId log') ∧
      ∃ m, Announcements.Later (roleBoard (commitAll sha256 start earlier) clientId log)
        (roleBoard (commitAll sha256 start (earlier ++ later)) clientId log') m := by
  have hannounced := commitAll_announced sha256 hstart earlier
  obtain ⟨seen, hseen, hcoherent⟩ := hannounced.boards clientId
  obtain rfl := hseen.unique hshows
  obtain ⟨final, m, hfinal, hcoherent', hlater⟩ :=
    @commitAll_board sha256 _ hannounced later clientId seen hseen hcoherent
  rw [← commitAll_append] at hfinal hcoherent' hlater
  obtain rfl := hfinal.unique hshows'
  exact ⟨hcoherent, hcoherent', m, hlater⟩

theorem board_revision {db : Db} {log : List RoleReport} {epoch : Uuid} {revision : ℕ}
    (h : authorityOf db clientId = some (epoch, revision)) :
    (roleBoard db clientId log).revision = revision := by
  simp [Board.revision, roleBoard, h]

/-- Two snapshots of one revision agree. -/
theorem snapshots_agree (hstart : NothingPublished start) (earlier later : List RoleTransaction)
    {v v' : Standing} {epoch epoch' : Uuid} {revision : ℕ}
    (hv : standing (commitAll sha256 start earlier) clientId sub = some v)
    (hauthority : authorityOf (commitAll sha256 start earlier) clientId = some (epoch, revision))
    (hv' : standing (commitAll sha256 start (earlier ++ later)) clientId sub = some v')
    (hauthority' : authorityOf (commitAll sha256 start (earlier ++ later)) clientId =
      some (epoch', revision)) : v = v' := by
  obtain ⟨log, hshows, -⟩ := (commitAll_announced sha256 hstart earlier).boards clientId
  obtain ⟨log', hshows', -⟩ :=
    (commitAll_announced sha256 hstart (earlier ++ later)).boards clientId
  obtain ⟨-, hcoherent', m, hlater⟩ := prefix_later hstart earlier later hshows hshows'
  have hsame := hlater.reads_agree hcoherent' hv
    ((board_revision hauthority').trans (board_revision hauthority).symm)
  exact Option.some.inj (hsame.symm.trans hv')

theorem Reported.agree (hstart : NothingPublished start) (hdangling : NoDangling start)
    {run : List RoleTransaction} {epoch epoch' : Uuid} {revision : ℕ} {roleId roleId' : Option ℤ}
    (h : Reported sha256 start run clientId sub epoch revision roleId)
    (h' : Reported sha256 start run clientId sub epoch' revision roleId') : roleId = roleId' := by
  obtain ⟨log, hshows, hcoherent⟩ := (commitAll_announced sha256 hstart run).boards clientId
  have hmixed : ∀ {earlier later seen v epoch epoch' roleId}, run = earlier ++ later →
      Shows (commitAll sha256 start earlier) clientId seen →
      standing (commitAll sha256 start earlier) clientId sub = some v →
      authorityOf (commitAll sha256 start earlier) clientId = some (epoch, revision) →
      ⟨sub, .role roleId, epoch', revision⟩ ∈ log → (.role roleId : Standing) = v := by
    intro earlier later seen v epoch epoch' roleId hrun hseen hv hauthority hlog
    subst hrun
    obtain ⟨hbefore, -, m, hlater⟩ := prefix_later hstart earlier later hseen hshows
    exact hlater.read_agrees hbefore hv hlog rfl (board_revision hauthority).symm
  rcases h.source hstart hdangling hshows with
    hlog | ⟨earlier, later, seen, hrun, hseen, hv, hauthority⟩ <;>
    rcases h'.source hstart hdangling hshows with
      hlog' | ⟨earlier', later', seen', hrun', hseen', hv', hauthority'⟩
  · have hsame := hcoherent.unique hlog hlog' rfl rfl
    simp only [Report.mk.injEq, Standing.role.injEq, true_and] at hsame
    exact hsame.1
  · have hsame := hmixed hrun' hseen' hv' hauthority' hlog
    exact Standing.role.inj hsame
  · have hsame := hmixed hrun hseen hv hauthority hlog'
    exact (Standing.role.inj hsame).symm
  · have hordered : earlier <+: earlier' ∨ earlier' <+: earlier :=
      List.prefix_or_prefix_of_prefix ⟨later, hrun.symm⟩ ⟨later', hrun'.symm⟩
    rcases hordered with ⟨between, rfl⟩ | ⟨between, rfl⟩
    · exact Standing.role.inj (snapshots_agree hstart earlier between hv hauthority hv' hauthority')
    · exact (Standing.role.inj
        (snapshots_agree hstart earlier' between hv' hauthority' hv hauthority)).symm

/-- Every report of a run is numbered at most with the revision reached. -/
theorem Reported.revision_le (hstart : NothingPublished start) (hdangling : NoDangling start)
    {run : List RoleTransaction} {epoch : Uuid} {revision : ℕ} {roleId : Option ℤ}
    (h : Reported sha256 start run clientId sub epoch revision roleId) :
    revision ≤ authorityRevisionOf (commitAll sha256 start run) clientId := by
  obtain ⟨log, hshows, hcoherent⟩ := (commitAll_announced sha256 hstart run).boards clientId
  rcases h.source hstart hdangling hshows with
    hlog | ⟨earlier, later, seen, rfl, hseen, -, hauthority⟩
  · exact hcoherent.revision_le hlog
  · obtain ⟨-, -, m, hlater⟩ := prefix_later hstart earlier later hseen hshows
    rw [← board_revision hauthority]
    exact hlater.revision_le

/-- A report that no other one outnumbers has the current role. -/
theorem Reported.current (hstart : NothingPublished start) (hdangling : NoDangling start)
    {run : List RoleTransaction} {epoch : Uuid} {revision : ℕ} {roleId : Option ℤ}
    (h : Reported sha256 start run clientId sub epoch revision roleId)
    (hgreatest : ∀ epoch' revision' roleId',
      Reported sha256 start run clientId sub epoch' revision' roleId' → revision' ≤ revision) :
    standing (commitAll sha256 start run) clientId sub = some (.role roleId) := by
  obtain ⟨log, hshows, hcoherent⟩ := (commitAll_announced sha256 hstart run).boards clientId
  have hevents : ∀ r ∈ log, r.subject = sub → r.revision ≤ revision := by
    intro r hr hsubject
    obtain ⟨row, hrow, roleId', -, hcontent⟩ := forall₂_mem_right hshows hr
    rw [hsubject] at hcontent
    exact hgreatest _ _ _ (.event (mem_roleRows.mp hrow).1 hcontent)
  rcases h.source hstart hdangling hshows with
    hlog | ⟨earlier, later, seen, rfl, hseen, hv, hauthority⟩
  · exact hcoherent.current_report hlog hevents
  · obtain ⟨-, -, m, hlater⟩ := prefix_later hstart earlier later hseen hshows
    refine hlater.read_current hv fun r hr hsubject => ?_
    rw [board_revision hauthority]
    exact hevents r hr hsubject

/-- A transaction that changes the role of a user stores new events about it, the
last with the new role, all numbered after everything reported before. -/
theorem change_reported (hstart : NothingPublished start) (hdangling : NoDangling start)
    (earlier : List RoleTransaction) (transaction : RoleTransaction)
    (hpresent : presentIdentity (commitAll sha256 start earlier) sub = true)
    (hcatalog : hasAppCatalog (commitAll sha256 start (earlier ++ [transaction])) clientId = true)
    (hchanged : (effectiveAppRole (commitAll sha256 start (earlier ++ [transaction])) sub
        clientId).roleId ≠ (effectiveAppRole (commitAll sha256 start earlier) sub clientId).roleId) :
    ∃ new, roleRows (commitAll sha256 start (earlier ++ [transaction])) clientId =
        roleRows (commitAll sha256 start earlier) clientId ++ new ∧
      (new.filter (rowAbout sub)).length ≤ transaction.reconciliations ∧
      (∃ epoch row, (new.filter (rowAbout sub)).getLast? = some row ∧
        row.content = reportContent clientId epoch sub (effectiveAppRole
          (commitAll sha256 start (earlier ++ [transaction])) sub clientId).roleId row.version) ∧
      ∀ row ∈ new, ∀ epoch revision roleId,
        Reported sha256 start earlier clientId sub epoch revision roleId → revision < row.version := by
  have hafter : commitAll sha256 start (earlier ++ [transaction]) =
      transaction.commit sha256 (commitAll sha256 start earlier) := commitAll_append _ _ _ _
  have hannounced := commitAll_announced sha256 hstart earlier
  have hknown := commitAll_noDangling sha256 hdangling (earlier ++ [transaction])
  have hknown' := commitAll_noDangling sha256 hdangling earlier
  rcases withRoleTransaction_cases (commitAll sha256 start earlier) (transaction.work sha256) with
    hrolled | hcommitted
  · rw [hafter, RoleTransaction.commit, hrolled] at hchanged
    exact (hchanged rfl).elim
  · rw [← RoleTransaction.commit, ← hafter] at hcommitted
    obtain ⟨log, hshows, hcoherent⟩ := hannounced.boards clientId
    obtain ⟨log', hshows', hcoherent', hlater⟩ :=
      transaction.board hannounced hcommitted hshows hcoherent
    obtain ⟨v, hv⟩ : ∃ v, standing (commitAll sha256 start earlier) clientId sub = some v := by
      simp [standing, hpresent]
    obtain ⟨v', hv'⟩ := Option.ne_none_iff_exists'.mp (hlater.covered sub (by
      show standing (commitAll sha256 start earlier) clientId sub ≠ none
      simp [hv]))
    have hrole : v' = .role (effectiveAppRole
        (commitAll sha256 start (earlier ++ [transaction])) sub clientId).roleId := by
      change standing _ clientId sub = some v' at hv'
      by_cases hthere : presentIdentity (commitAll sha256 start (earlier ++ [transaction])) sub = true
      · rw [standing, if_pos hthere, if_pos hcatalog, hknown.known] at hv'
        exact (Option.some.inj hv').symm
      · simp [standing, hthere] at hv'
    have hmoved : v' ≠ v := by
      rintro rfl
      rw [standing, if_pos hpresent, hknown'.known, hrole, Option.some.injEq] at hv
      split at hv
      · exact hchanged (Standing.role.inj hv).symm
      · simp at hv
    obtain ⟨extra, last, hlog, hnew, hlast, hvalue, hcount⟩ :=
      hlater.announces hcoherent' hv hv' hmoved
    obtain ⟨new, hrows⟩ := transaction.rows_extend hannounced hcommitted clientId
    change log' = log ++ extra at hlog
    have hextra : List.Forall₂ (Tells clientId) new extra := by
      have hlength : (roleRows (commitAll sha256 start earlier) clientId).length = log.length :=
        List.Forall₂.length_eq hshows
      have hdrop := List.forall₂_drop log.length hshows'
      rwa [← hrows, hlog, List.drop_left, List.drop_left' hlength] at hdrop
    have hmine : List.Forall₂ (Tells clientId) (new.filter (rowAbout sub))
        (reportsAbout sub extra) := by
      refine List.rel_filter ?_ hextra
      intro row report htells
      simp [htells.about sub]
    refine ⟨new, hrows.symm, ?_, ?_, ?_⟩
    · rw [hmine.length_eq]
      exact hcount
    · obtain ⟨row, hrow, htells⟩ := forall₂_getLast? hmine hlast
      have hrevision := htells.revision
      obtain ⟨roleId, hlastRole, hcontent⟩ := htells
      have hsubject : last.subject = sub := (mem_reportsAbout.mp (List.mem_of_getLast? hlast)).2
      rw [hvalue, hrole, Standing.role.injEq] at hlastRole
      exact ⟨last.epoch, row, hrow, by rw [hcontent, hsubject, hlastRole, hrevision]⟩
    · intro row hrow epoch revision roleId hreported
      obtain ⟨report, hreport, htells⟩ := forall₂_mem_left hextra hrow
      have hle := hreported.revision_le hstart hdangling
      have hlt := hnew report hreport
      rw [htells.revision]
      exact Nat.lt_of_le_of_lt hle hlt

end Runs

/-- Reports about one user of a client never disagree at one revision; a transaction
that changes a role reports it once for each catalog it applies, after everything
reported before; and who keeps the greatest report has the current role. -/
theorem role_reports (sha256 : JsString → Digest) {start : Db} (hstart : NothingPublished start)
    (hdangling : NoDangling start) (run : List RoleTransaction) (clientId : ClientId) (sub : Uuid) :
    (∀ epoch revision roleId roleId',
      Reported sha256 start run clientId sub epoch revision roleId →
      Reported sha256 start run clientId sub epoch revision roleId' → roleId = roleId') ∧
    (∀ earlier transaction later, run = earlier ++ transaction :: later →
      let db := commitAll sha256 start earlier
      let db' := commitAll sha256 start (earlier ++ [transaction])
      presentIdentity db sub = true → hasAppCatalog db' clientId = true →
      (effectiveAppRole db' sub clientId).roleId ≠ (effectiveAppRole db sub clientId).roleId →
      ∃ new, roleRows db' clientId = roleRows db clientId ++ new ∧
        (new.filter (rowAbout sub)).length ≤ transaction.reconciliations ∧
        (∃ epoch row, (new.filter (rowAbout sub)).getLast? = some row ∧
          row.content = reportContent clientId epoch sub
            (effectiveAppRole db' sub clientId).roleId row.version) ∧
        ∀ row ∈ new, ∀ epoch revision roleId,
          Reported sha256 start earlier clientId sub epoch revision roleId →
          revision < row.version) ∧
    (∀ epoch revision roleId, Reported sha256 start run clientId sub epoch revision roleId →
      (∀ epoch' revision' roleId', Reported sha256 start run clientId sub epoch' revision' roleId' →
        revision' ≤ revision) →
      roleId = (effectiveAppRole (commitAll sha256 start run) sub clientId).roleId) := by
  refine ⟨?_, ?_, ?_⟩
  · intro epoch revision roleId roleId' h h'
    exact h.agree hstart hdangling h'
  · intro earlier transaction later _ db db' hpresent hcatalog hchanged
    exact change_reported hstart hdangling earlier transaction hpresent hcatalog hchanged
  · intro epoch revision roleId h hgreatest
    have hcurrent := h.current hstart hdangling hgreatest
    have hknown := (commitAll_noDangling sha256 hdangling run).known clientId sub
    rw [standing, hknown] at hcurrent
    split at hcurrent
    · rw [Option.some.injEq] at hcurrent
      split at hcurrent
      · exact (Standing.role.inj hcurrent).symm
      · simp at hcurrent
    · simp at hcurrent

/-- The third catalog of the client, again with another role. -/
def thirdEvent : IncomingEvent :=
  ⟨Uuid.numbered 7, ROLES_SYNC, .null, some { oneRoleCatalog 0 with
    roles := [⟨2, js "user", 10, false⟩]
    version := some (Uuid.numbered 3, 3)
    sorted := List.pairwise_singleton _ _
    known := by simp [oneRoleCatalog]
    validNames := by decide +kernel
    revisionRange := by
      rintro _ ⟨⟩
      unfold MAX_BIGINT
      omega }⟩

/-- An envelope with the second and the third catalog. -/
def twoCatalogs : RoleTransaction :=
  .incoming ⟨0, fun n => Uuid.numbered ⟨n % 10, Nat.mod_lt _ (by omega)⟩, fun _ => Uuid.numbered 6,
    fun s => s⟩ (js "app") ⟨0, 1⟩ (fun _ => 0) [oneRoleEvent 1, thirdEvent]

/-- An envelope that applies two catalogs reports a role it changes twice. -/
theorem two_catalogs_two_reports :
    ¬∀ (start : Db) (earlier : List RoleTransaction) (transaction : RoleTransaction)
      (clientId : ClientId) (sub : Uuid), NothingPublished start →
      hasAppCatalog (commitAll id start earlier) clientId = true →
      presentIdentity (commitAll id start earlier) sub = true →
      (effectiveAppRole (commitAll id start (earlier ++ [transaction])) sub clientId).roleId ≠
        (effectiveAppRole (commitAll id start earlier) sub clientId).roleId →
      (rowsAbout (commitAll id start (earlier ++ [transaction])) clientId sub).length =
        (rowsAbout (commitAll id start earlier) clientId sub).length + 1 := by
  intro h
  have hone := h oneUserDb [firstCatalog] twoCatalogs (js "app") (Uuid.numbered 1)
    oneUserDb_nothingPublished (by decide +kernel) (by decide +kernel) (by decide +kernel)
  have htwo : (rowsAbout (commitAll id oneUserDb ([firstCatalog] ++ [twoCatalogs])) (js "app")
      (Uuid.numbered 1)).length = 3 ∧
      (rowsAbout (commitAll id oneUserDb [firstCatalog]) (js "app") (Uuid.numbered 1)).length =
        1 := by decide +kernel
  omega

theorem role_reports_firstCatalog : ∃ new,
    roleRows (commitAll id oneUserDb [firstCatalog]) (js "app") =
      roleRows oneUserDb (js "app") ++ new ∧ (new.filter (rowAbout (Uuid.numbered 1))).length ≤ 1 := by
  have hdangling : NoDangling oneUserDb := by
    constructor
    · simp [Names, oneUserDb, registeredDb, Db.empty]
    · simp [Names, oneUserDb, registeredDb, Db.empty]
    · simp [oneUserDb, registeredDb, Db.empty]
  obtain ⟨new, hrows, hcount, -⟩ := (role_reports id oneUserDb_nothingPublished hdangling
    [firstCatalog] (js "app") (Uuid.numbered 1)).2.1 [] firstCatalog [] rfl (by decide +kernel)
    (by decide +kernel) (by decide +kernel)
  exact ⟨new, hrows, hcount⟩

end DreamSso
