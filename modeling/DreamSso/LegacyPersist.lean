import DreamSso.DueHeads
import DreamSso.LegacyImport
import DreamSso.RoleCommits

/-!
What the transaction that persists a legacy event does to the outbox, and what the other
transactions do to a row it left there.
-/
namespace DreamSso.LegacyImport

open Fallible Interleaving JsStrings JsonValues KeyedTables StoredJson

section Rows

variable {clientId : ClientId} {event : LegacyEvent} {db db' : Db} {env : Surroundings}

/-- The row stores this event; that of a role event is closed. -/
structure Keeps (clientId : ClientId) (event : LegacyEvent) (r : OutboxRow) : Prop where
  id : r.id = event.id
  target : r.targetClientId = clientId
  kind : textInput event.type = some r.kind
  payload : jsonbInput event.payload = some r.payload
  closed : event.type = rolesChangeType → r.status ≠ .pending

/-- Closing the pending row of a role event. -/
def closing (event : LegacyEvent) (member : JsString) (d : Delivery) : Delivery :=
  { d with
    status := .dead
    lastErrorCode := some "legacy_role_replaced"
    legacyRedisMember := d.legacyRedisMember.or (some member)
    legacyRedisScore := d.legacyRedisScore.or (some event.score) }

/-- The rows after the insert of a legacy event, which were `rows` before. -/
inductive Inserted (clientId : ClientId) (event : LegacyEvent) (rows rows' : List OutboxRow) :
    Bool → Prop
  | stored (row : OutboxRow) (hrow : Keeps clientId event row)
      (hstatus : row.status = if event.type = rolesChangeType then .dead else .pending)
      (hattempts : row.attempts = event.attempts) (hdue : row.nextAttemptAt = event.dueAt)
      (hfresh : ∀ r ∈ rows, r.id ≠ event.id) (hrows : rows' = rows ++ [row]) :
      Inserted clientId event rows rows' true
  | closed (hrole : event.type = rolesChangeType) (row : OutboxRow) (hmem : row ∈ rows)
      (hrow : row.id = event.id) (hpending : row.status = .pending) (member : JsString)
      (hkeeps : Keeps clientId event { row with toDelivery := closing event member row.toDelivery })
      (hrows : rows' = rows.map fun r => if r.id = event.id then
        { r with toDelivery := closing event member r.toDelivery } else r) :
      Inserted clientId event rows rows' true
  | repeated (row : OutboxRow) (hmem : row ∈ rows) (hrow : Keeps clientId event row)
      (hrows : rows' = rows) : Inserted clientId event rows rows' false

theorem insertLegacyEvent_inserted {now : ℤ} {c c' : Channel} {fresh : Bool}
    (h : insertLegacyEvent now c clientId event = .ok (fresh, c')) :
    Inserted clientId event c.eventOutbox.rows c'.eventOutbox.rows fresh := by
  unfold insertLegacyEvent at h
  rw [bind_eq_ok] at h
  obtain ⟨locked, hlocked, h⟩ := h
  obtain ⟨houtbox, -⟩ := lockDestination_ok hlocked
  rw [← houtbox]
  simp only at h
  split at h
  · next kind payload member hkind hpayload hmember =>
    split at h
    · next outbox hinsert =>
      obtain ⟨rfl, rfl⟩ := Prod.mk.inj (Except.ok.inj h)
      refine .stored _ ⟨rfl, rfl, hkind, hpayload, ?_⟩ ?_ rfl rfl (Outbox.insert?_fresh hinsert)
        (Outbox.insert?_rows hinsert).1
      · intro hrole
        have hrole' : event.type = js "account.roles_change" := hrole
        simp [hrole']
      · by_cases hrole : event.type = js "account.roles_change" <;> simp [rolesChangeType, hrole]
    · split at h
      · simp at h
      · next existing hexisting =>
        have hmem := List.mem_of_find?_eq_some hexisting
        have hsame := List.find?_some hexisting
        simp only [Bool.and_eq_true, decide_eq_true_eq] at hsame
        obtain ⟨⟨⟨hid, hk⟩, ht⟩, hp⟩ := hsame
        split at h
        · next hreplaced =>
          simp only [Bool.and_eq_true, decide_eq_true_eq] at hreplaced
          obtain ⟨rfl, rfl⟩ := Prod.mk.inj (Except.ok.inj h)
          refine .closed hreplaced.1 existing hmem hid hreplaced.2 member ?_ ?_
          · exact ⟨hid, ht, hk ▸ hkind, hp ▸ hpayload, fun _ => by simp [closing]⟩
          · simp only [Outbox.updateWhere, Outbox.skip, decide_eq_true_eq, closing]
        · next hkept =>
          obtain ⟨rfl, rfl⟩ := Prod.mk.inj (Except.ok.inj h)
          refine .repeated existing hmem ⟨hid, ht, hk ▸ hkind, hp ▸ hpayload, ?_⟩ rfl
          intro hrole hpending
          exact hkept (by simp [show event.type = js "account.roles_change" from hrole, hpending])
  · simp at h

end Rows

section Publication

variable {env : Surroundings} {clientId : ClientId} {epoch sub : Uuid} {revision : ℕ} {db db' : Db}

/-- The random ids that are drawn are no ids of stored rows. -/
def Unused (env : Surroundings) (o : Outbox) : Prop := ∀ n, ∀ r ∈ o.rows, r.id ≠ env.eventId n

/-- One event without an id of its own is stored as a new row. -/
theorem insertEvents_new {now : ℤ} {uuid : ℕ → Uuid} {c c' : Channel} {event : OutboundEvent}
    {ids : List Uuid} (hid : event.id = none)
    (hunused : ∀ n, ∀ r ∈ c.eventOutbox.rows, r.id ≠ uuid n)
    (h : insertEvents now uuid c clientId [event] = .ok (ids, c')) :
    ∃ normalized row n, normalizedEvent (uuid n) event = .ok normalized ∧
      storedContent clientId normalized = some row.content ∧ row.status = .pending ∧
      row.id = uuid n ∧ c'.eventOutbox.rows = c.eventOutbox.rows ++ [row] := by
  unfold insertEvents at h
  simp only [normalizeAll, bind_eq_ok] at h
  obtain ⟨normalized, ⟨first, hfirst, others, hothers, heq⟩, h⟩ := h
  obtain rfl := Except.ok.inj hothers
  obtain rfl := Except.ok.inj heq
  simp only [List.isEmpty_cons, Bool.false_eq_true, if_false, bind_eq_ok, List.foldlM_cons,
    List.foldlM_nil] at h
  obtain ⟨locked, hlocked, written, ⟨only, hinsert, hwritten⟩, h⟩ := h
  obtain ⟨-, rfl⟩ := Prod.mk.inj (Except.ok.inj h)
  obtain rfl := Except.ok.inj hwritten
  obtain ⟨houtbox, -⟩ := lockDestination_ok hlocked
  have hfirstId : first.id = uuid c.eventOutbox.nextSequence := by
    unfold normalizedEvent at hfirst
    rw [hid] at hfirst
    simp only at hfirst
    split at hfirst
    · split at hfirst
      · simp at hfirst
      · split at hfirst
        · simp at hfirst
        · next hsome _ _ _ =>
          rw [← Except.ok.inj hfirst]
          exact (Option.some.inj hsome).symm
    · simp at hfirst
  unfold insertEvent at hinsert
  split at hinsert
  · next kind payload hkind hpayload =>
    split at hinsert
    · next outbox houtbox' =>
      obtain rfl := Except.ok.inj hinsert
      have hrows := (Outbox.insert?_rows houtbox').1
      rw [houtbox] at hrows
      refine ⟨first, _, _, hfirst, ?_, ?_, ?_, hrows⟩
      · simp [storedContent, hkind, hpayload, OutboxRow.content, pendingRow]
      · rfl
      · exact hfirstId
    · next hnone =>
      obtain ⟨r, hr⟩ := Outbox.insert?_eq_none.mp hnone
      obtain ⟨hmem, hsame⟩ := (Outbox.find?_eq_some _ _ _).mp hr
      rw [houtbox] at hmem
      exact absurd (hsame.trans hfirstId) (hunused _ r hmem)
  · simp at hinsert

/-- The row that reports the role a user has now. -/
structure Report (env : Surroundings) (clientId : ClientId) (sub : Uuid) (db : Db)
    (row : OutboxRow) : Prop where
  pending : row.status = .pending
  drawn : ∃ n, row.id = env.eventId n
  content : ∃ epoch revision roleId, standing db clientId sub = some (.role roleId) ∧
    row.content = reportContent clientId epoch sub roleId revision

theorem changedRows_standing {options : PublishOptions} {row : EffectiveRow}
    (h : row ∈ changedRows db clientId (some [sub]) options) :
    row.userSub = sub ∧ standing db clientId sub = some (.role row.roleId) := by
  have hrow := List.mem_of_mem_filter h
  unfold effectiveRows at hrow
  split at hrow
  · simp at hrow
  · next cat hcat =>
    obtain ⟨user, huser, rfl⟩ := List.mem_map.mp hrow
    simp only [publishedSubjects, List.mem_filter, Bool.and_eq_true, Option.all_some,
      List.mem_singleton, decide_eq_true_eq] at huser
    obtain ⟨-, hpresent, rfl⟩ := huser
    refine ⟨rfl, ?_⟩
    have hcatalog : hasAppCatalog db clientId = true := (Table.contains_iff _ _).mpr ⟨cat, hcat⟩
    simp only [standing, hpresent, hcatalog, if_true, effectiveRow, rawRole_eq hcat]

theorem publishPart_single {row : EffectiveRow} (hunused : Unused env db.eventOutbox)
    (h : publishPart env clientId epoch revision db [row] = .ok db') :
    ∃ stored, stored.status = .pending ∧ (∃ n, stored.id = env.eventId n) ∧
      stored.content = reportContent clientId epoch row.userSub row.roleId revision ∧
      db'.eventOutbox.rows = db.eventOutbox.rows ++ [stored] := by
  unfold publishPart at h
  rw [bind_eq_ok] at h
  obtain ⟨⟨ids, channel⟩, hinsert, h⟩ := h
  obtain ⟨normalized, stored, n, hnormalized, hcontent, hpending, hid, hrows⟩ :=
    insertEvents_new rfl hunused hinsert
  rw [rolesChange_stored hnormalized] at hcontent
  refine ⟨stored, hpending, ⟨n, hid⟩, (Option.some.inj hcontent).symm, ?_⟩
  rw [← Except.ok.inj h, writeLedger_foldl]
  exact hrows

/-- A forced publication of one user that reports somebody reports that user. -/
theorem publishRoleChanges_forced (hunused : Unused env db.eventOutbox)
    (h : publishRoleChanges env db [clientId] (some [sub]) forced = .ok (1, db')) :
    ∃ row, Report env clientId sub db row ∧
      db'.eventOutbox.rows = db.eventOutbox.rows ++ [row] := by
  simp only [publishRoleChanges, List.dedup_cons_of_notMem List.not_mem_nil, List.dedup_nil,
    List.insertionSort_cons, List.insertionSort_nil, List.orderedInsert_nil, publishClients,
    bind_eq_ok] at h
  obtain ⟨⟨count, published⟩, hclient, ⟨others, final⟩, hnone, h⟩ := h
  obtain ⟨rfl, rfl⟩ := Prod.mk.inj (Except.ok.inj hnone)
  obtain ⟨hone, rfl⟩ := Prod.mk.inj (Except.ok.inj h)
  unfold publishClient at hclient
  rw [bind_eq_ok] at hclient
  obtain ⟨⟨state, ensured⟩, hensure, hclient⟩ := hclient
  obtain ⟨hkept, hledger, hchannel, -⟩ := ensureRoleSyncState_unpublished hensure
  simp only at hclient
  split at hclient
  · obtain ⟨rfl, -⟩ := Prod.mk.inj (Except.ok.inj hclient)
    omega
  · split at hclient
    · next hroom =>
      rw [bind_eq_ok] at hclient
      obtain ⟨written, hparts, hclient⟩ := hclient
      obtain ⟨hcount, rfl⟩ := Prod.mk.inj (Except.ok.inj hclient)
      obtain ⟨row, hrow⟩ := List.length_eq_one_iff.mp (hcount.trans hone)
      rw [hrow] at hparts
      simp only [parts, partsFrom, List.length_singleton, PART_SIZE, List.take_succ_cons,
        List.take_nil, List.foldlM_cons, bind_eq_ok] at hparts
      obtain ⟨single, hsingle, hend⟩ := hparts
      obtain rfl := Except.ok.inj hend
      have hrows : ensured.eventOutbox = db.eventOutbox := by rw [hchannel]
      have hunused' : Unused env ensured.eventOutbox := by rwa [hrows]
      obtain ⟨stored, hpending, hdrawn, hcontent, happended⟩ := @publishPart_single env clientId _ _
        (setSyncState ensured clientId (state.advance hroom)) single row hunused' hsingle
      obtain ⟨hsub, hstanding⟩ := changedRows_standing (hrow ▸ List.mem_singleton_self row)
      rw [standing_congr hkept.tables] at hstanding
      refine ⟨stored, ⟨hpending, hdrawn, _, _, row.roleId, hstanding, hsub ▸ hcontent⟩, ?_⟩
      rw [← hrows]
      exact happended
    · simp at hclient

/-- What a committed transaction made of one event. -/
inductive Persisted (env : Surroundings) (clientId : ClientId) (event : LegacyEvent)
    (db db' : Db) : Prop
  | stored (hplain : event.type ≠ rolesChangeType)
      (hrows : Inserted clientId event db.eventOutbox.rows db'.eventOutbox.rows true)
  | replaced (hrole : event.type = rolesChangeType) (rows : List OutboxRow)
      (hclosed : Inserted clientId event db.eventOutbox.rows rows true) (sub : Uuid)
      (hsub : payloadSub? event.payload = some sub) (report : OutboxRow)
      (hreport : Report env clientId sub db report)
      (hrows : db'.eventOutbox.rows = rows ++ [report])
  | repeated (hrows : Inserted clientId event db.eventOutbox.rows db'.eventOutbox.rows false)

theorem persistWork_persisted {event : LegacyEvent} (hunused : Unused env db.eventOutbox)
    (hnew : ∀ n, event.id ≠ env.eventId n) (h : persistWork env clientId event db = .ok db') :
    Persisted env clientId event db db' := by
  unfold persistWork at h
  rw [bind_eq_ok] at h
  obtain ⟨⟨inserted, channel⟩, hinsert, h⟩ := h
  have hrows := insertLegacyEvent_inserted hinsert
  simp only at h
  split at h
  · next hreplace =>
    simp only [Bool.and_eq_true, decide_eq_true_eq] at hreplace
    obtain ⟨rfl, hrole⟩ := hreplace
    split at h
    · simp at h
    · next sub hsub =>
      rw [bind_eq_ok] at h
      obtain ⟨⟨count, published⟩, hpublish, h⟩ := h
      simp only at h
      split at h
      · next hcount =>
        subst hcount
        obtain rfl := Except.ok.inj h
        have hunused' : Unused env channel.eventOutbox := by
          intro n r hr
          cases hrows with
          | stored row hrow hstatus hattempts hdue hfresh heq =>
            rw [heq] at hr
            rcases List.mem_append.mp hr with hold | hlast
            · exact hunused n r hold
            · rw [List.mem_singleton.mp hlast, hrow.id]
              exact hnew n
          | closed hrole row hmem hrow hpending member hkeeps heq =>
            rw [heq] at hr
            obtain ⟨q, hq, rfl⟩ := List.mem_map.mp hr
            split
            · exact hunused n q hq
            · exact hunused n q hq
        obtain ⟨report, hreport, happended⟩ := @publishRoleChanges_forced env clientId sub
          { db with toChannel := channel } published hunused' hpublish
        exact .replaced hrole _ hrows sub hsub report
          ⟨hreport.pending, hreport.drawn, hreport.content⟩ happended
      · simp at h
  · next hkept =>
    obtain rfl := Except.ok.inj h
    cases inserted with
    | false => exact .repeated hrows
    | true => exact .stored (by simpa using hkept) hrows

end Publication

section Transactions

variable {env : Surroundings} {sha256 : JsString → Digest} {clientId : ClientId} {db db' : Db}

/-- Rows are only added behind the old ones, and the new ones are pending. -/
abbrev Extends (o o' : Outbox) : Prop := Appended (fun r => r.status = .pending) o o'

theorem publishPart_extends {epoch : Uuid} {revision : ℕ} {part : List EffectiveRow}
    (h : publishPart env clientId epoch revision db part = .ok db') :
    Extends db.eventOutbox db'.eventOutbox := by
  unfold publishPart at h
  rw [bind_eq_ok] at h
  obtain ⟨⟨ids, channel⟩, hinsert, h⟩ := h
  obtain ⟨hdrawn, extra, hrows, hextra⟩ := (insertEvents_ok hinsert).2
  rw [← Except.ok.inj h, writeLedger_foldl]
  exact ⟨hdrawn, extra, hrows, fun r hr => ⟨(hextra r hr).1.status, (hextra r hr).2⟩⟩

theorem publishClient_extends {subjects : Option (List Uuid)} {options : PublishOptions} {count : ℕ}
    (h : publishClient env subjects options db clientId = .ok (count, db')) :
    Extends db.eventOutbox db'.eventOutbox := by
  unfold publishClient at h
  rw [bind_eq_ok] at h
  obtain ⟨⟨state, ensured⟩, hensure, h⟩ := h
  have hchannel := (ensureRoleSyncState_unpublished hensure).2.2.1
  have hensured : Extends db.eventOutbox ensured.eventOutbox := by
    rw [hchannel]
    exact Appended.refl _ _
  simp only at h
  split at h
  · obtain ⟨-, rfl⟩ := Prod.mk.inj (Except.ok.inj h)
    exact hensured
  · split at h
    · rw [bind_eq_ok] at h
      obtain ⟨published, hparts, h⟩ := h
      obtain ⟨-, rfl⟩ := Prod.mk.inj (Except.ok.inj h)
      refine hensured.trans ?_
      refine foldlM_preserves (fun s : Db => Extends ensured.eventOutbox s.eventOutbox) ?_ hparts
        (Appended.refl _ _)
      intro part _ s t hs hst
      exact hs.trans (publishPart_extends hst)
    · simp at h

theorem publishRoleChanges_extends {clientIds : List ClientId} {subjects : Option (List Uuid)}
    {options : PublishOptions} {count : ℕ}
    (h : publishRoleChanges env db clientIds subjects options = .ok (count, db')) :
    Extends db.eventOutbox db'.eventOutbox := by
  unfold publishRoleChanges at h
  generalize clientIds.dedup.insertionSort (· ≤ ·) = ordered at h
  induction ordered generalizing db count with
  | nil =>
    obtain ⟨-, rfl⟩ := Prod.mk.inj (Except.ok.inj h)
    exact Appended.refl _ _
  | cons clientId rest ih =>
    rw [publishClients, bind_eq_ok] at h
    obtain ⟨⟨first, mid⟩, hfirst, h⟩ := h
    rw [bind_eq_ok] at h
    obtain ⟨⟨others, last⟩, hrest, h⟩ := h
    obtain ⟨-, rfl⟩ := Prod.mk.inj (Except.ok.inj h)
    exact (publishClient_extends hfirst).trans (ih hrest)

theorem publishIf_extends {needed : Bool} {clientIds : List ClientId}
    {subjects : Option (List Uuid)} (h : publishIf needed env db clientIds subjects = .ok db') :
    Extends db.eventOutbox db'.eventOutbox := by
  unfold publishIf at h
  split at h
  · cases hpublish : publishRoleChanges env db clientIds subjects .default with
    | error failure => simp [hpublish, Except.map] at h
    | ok result =>
      simp only [hpublish, Except.map, Except.ok.injEq] at h
      exact h ▸ publishRoleChanges_extends hpublish
  · exact (Except.ok.inj h) ▸ Appended.refl _ _

theorem adminCall_extends {actorSub : JsString} {call : AdminCall}
    (h : call.run env actorSub db = .ok db') : Extends db.eventOutbox db'.eventOutbox := by
  cases call with
  | applyUserAccess targetSub changes action =>
    obtain ⟨change, permissions, published, log, -, -, hpublish, rfl⟩ := applyUserAccess_ok h
    have hpublished := publishIf_extends hpublish
    exact hpublished
  | applyRoleAccess slug changes action =>
    obtain ⟨change, permissions, published, log, -, -, hpublish, rfl⟩ := applyRoleAccess_ok h
    have hpublished := publishIf_extends hpublish
    exact hpublished
  | createOrgRole body =>
    cases hcreate : DreamSso.createOrgRole db actorSub body with
    | error failure => simp [AdminCall.run, hcreate, Except.map] at h
    | ok created =>
      simp only [AdminCall.run, hcreate, Except.map, Except.ok.injEq] at h
      subst h
      obtain ⟨actor, role, permissions, defaults, log, -, -, -, -, -, -, heq⟩ :=
        createOrgRole_ok hcreate
      rw [heq]
      exact Appended.refl _ _
  | patchOrgRole slug body =>
    obtain ⟨actor, stored, role, edited, log, -, -, -, -, rfl⟩ := patchOrgRole_ok h
    exact Appended.refl _ _
  | deleteOrgRole slug =>
    obtain ⟨actor, stored, log, -, -, rfl⟩ := deleteOrgRole_ok h
    exact Appended.refl _ _
  | setDefaultOrgRole slug =>
    obtain ⟨settings, log, rfl⟩ := setDefaultOrgRole_ok h
    exact Appended.refl _ _
  | createOrgUser input =>
    obtain ⟨actor, created, slug, role, identity, log, -, -, -, -, -, -, -, -, rfl⟩ :=
      createOrgUser_ok h
    exact Appended.refl _ _

theorem receiveEvent_extends {iat : ℤ} {event : IncomingEvent}
    (h : receiveEvent env sha256 clientId iat db event = .ok db') :
    Extends db.eventOutbox db'.eventOutbox := by
  have hensure : ∀ {state ensured}, ensureRoleSyncState env db clientId = .ok (state, ensured) →
      Extends db.eventOutbox ensured.eventOutbox := by
    intro state ensured hensured
    rw [(ensureRoleSyncState_unpublished hensured).2.2.1]
    exact Appended.refl _ _
  obtain ⟨digest, -, hreception⟩ := receiveEvent_ok h
  cases hreception with
  | repeated => exact Appended.refl _ _
  | acknowledged hplain hfree hreceipt =>
    obtain ⟨type, -, rfl⟩ := bindReceipt_ok hreceipt
    exact Appended.refl _ _
  | repeatedCatalog hcatalog hensured => exact hensure hensured
  | @ordered catalog state ensured applied _ order hcatalog hensured hversion hnew hfree happlied
      hreceipt =>
    have happly : Extends db.eventOutbox applied.eventOutbox := by
      refine (hensure hensured).trans ?_
      rcases (applyCatalog_ok happlied).2 with ⟨-, rfl⟩ | ⟨-, changed, published, log, hpublish, rfl⟩
      · exact Appended.refl _ _
      · obtain ⟨overrides, defaults, -, -, heq⟩ :=
          replaceCatalog_eq sha256 ensured clientId iat catalog
        have hpublished := publishRoleChanges_extends hpublish
        rw [heq] at hpublished
        exact hpublished
    rcases hreceipt with ⟨-, -, rfl⟩ | hreceipt
    · exact happly
    · obtain ⟨type, -, rfl⟩ := bindReceipt_ok hreceipt
      exact happly

/-- A role transaction never touches an event that is stored already. -/
theorem roleTransaction_extends (transaction : RoleTransaction) (db : Db) :
    Extends db.eventOutbox (transaction.commit sha256 db).eventOutbox := by
  rcases withRoleTransaction_cases db (transaction.work sha256) with hrolled | hcommitted
  · rw [RoleTransaction.commit, hrolled]
    exact Appended.refl _ _
  · rw [← RoleTransaction.commit] at hcommitted
    cases transaction with
    | admin env actorSub call => exact adminCall_extends hcommitted
    | incoming env clientId time clock events =>
      refine receiveEvents_preserves (fun s => Extends db.eventOutbox s.eventOutbox) ?_
        (processIncomingEvents_ok hcommitted).2 (Appended.refl _ _)
      intro s event t _ hs hst
      exact hs.trans (receiveEvent_extends hst)

end Transactions

section Later

/-- A later state of a stored row: once it is no longer pending its status is final. -/
structure Later (r r' : OutboxRow) : Prop where
  stored : r'.toStoredEvent = r.toStoredEvent
  final : r.status ≠ .pending → r'.status = r.status

theorem Later.refl (r : OutboxRow) : Later r r := ⟨rfl, fun _ => rfl⟩

theorem Later.id {r r' : OutboxRow} (h : Later r r') : r'.id = r.id := by rw [h.stored]

theorem Keeps.later {clientId : ClientId} {event : LegacyEvent} {r r' : OutboxRow}
    (hrow : Keeps clientId event r) (h : Later r r') : Keeps clientId event r' := by
  have hid := hrow.id
  have htarget := hrow.target
  have hkind := hrow.kind
  have hpayload := hrow.payload
  rw [← h.stored] at hid htarget hkind hpayload
  refine ⟨hid, htarget, hkind, hpayload, fun hrole => ?_⟩
  rw [h.final (hrow.closed hrole)]
  exact hrow.closed hrole

/-- Every row is still there. -/
def Outlives (o o' : Outbox) : Prop := ∀ r ∈ o.rows, ∃ r' ∈ o'.rows, Later r r'

theorem Outlives.refl (o : Outbox) : Outlives o o := fun r hr => ⟨r, hr, Later.refl r⟩

theorem Outlives.of_extends {o o' : Outbox} (h : Extends o o') : Outlives o o' :=
  fun r hr => ⟨r, h.old hr, Later.refl r⟩

theorem Outlives.trans {o o' o'' : Outbox} (h : Outlives o o') (h' : Outlives o' o'') :
    Outlives o o'' := by
  intro r hr
  obtain ⟨r', hr', hlater⟩ := h r hr
  obtain ⟨r'', hr'', hlater'⟩ := h' r' hr'
  refine ⟨r'', hr'', hlater'.stored.trans hlater.stored, fun hfinal => ?_⟩
  have hsame := hlater.final hfinal
  rw [← hsame] at hfinal
  exact (hlater'.final hfinal).trans hsame

theorem Inserted.outlives {clientId : ClientId} {event : LegacyEvent} {o o' : Outbox} {fresh : Bool}
    (h : Inserted clientId event o.rows o'.rows fresh) : Outlives o o' := by
  intro r hr
  cases h with
  | stored row hrow hstatus hattempts hdue hfresh hrows =>
    exact ⟨r, hrows ▸ List.mem_append_left _ hr, Later.refl r⟩
  | closed hrole row hmem hid hpending member hkeeps hrows =>
    refine ⟨_, hrows ▸ List.mem_map_of_mem hr, ?_⟩
    split
    · next hsame =>
      obtain rfl := o.row_ext hr hmem (hsame.trans hid.symm)
      exact ⟨rfl, fun hnot => absurd hpending hnot⟩
    · exact Later.refl r
  | repeated row hmem hrow hrows => exact ⟨r, hrows ▸ hr, Later.refl r⟩

theorem persistWork_outlives {env : Surroundings} {clientId : ClientId} {event : LegacyEvent}
    {db db' : Db} (h : persistWork env clientId event db = .ok db') :
    Outlives db.eventOutbox db'.eventOutbox := by
  unfold persistWork at h
  rw [bind_eq_ok] at h
  obtain ⟨⟨inserted, channel⟩, hinsert, h⟩ := h
  have hfirst := (insertLegacyEvent_inserted hinsert).outlives
  simp only at h
  split at h
  · split at h
    · simp at h
    · rw [bind_eq_ok] at h
      obtain ⟨⟨count, published⟩, hpublish, h⟩ := h
      simp only at h
      split at h
      · rw [← Except.ok.inj h]
        exact hfirst.trans (Outlives.of_extends (publishRoleChanges_extends hpublish))
      · simp at h
  · rw [← Except.ok.inj h]
    exact hfirst

/-- After the transaction the event is stored. -/
theorem persistWork_keeps {env : Surroundings} {clientId : ClientId} {event : LegacyEvent}
    {db db' : Db} (h : persistWork env clientId event db = .ok db') :
    ∃ r ∈ db'.eventOutbox.rows, Keeps clientId event r := by
  unfold persistWork at h
  rw [bind_eq_ok] at h
  obtain ⟨⟨inserted, channel⟩, hinsert, h⟩ := h
  have hstored : ∃ r ∈ channel.eventOutbox.rows, Keeps clientId event r := by
    cases insertLegacyEvent_inserted hinsert with
    | stored row hrow hstatus hattempts hdue hfresh hrows =>
      exact ⟨row, hrows ▸ List.mem_append_right _ (List.mem_singleton_self row), hrow⟩
    | closed hrole row hmem hid hpending member hkeeps hrows =>
      refine ⟨_, hrows ▸ List.mem_map_of_mem hmem, ?_⟩
      rw [if_pos hid]
      exact hkeeps
    | repeated row hmem hrow hrows => exact ⟨row, hrows ▸ hmem, hrow⟩
  simp only at h
  split at h
  · split at h
    · simp at h
    · rw [bind_eq_ok] at h
      obtain ⟨⟨count, published⟩, hpublish, h⟩ := h
      simp only at h
      split at h
      · obtain ⟨r, hr, hrow⟩ := hstored
        rw [← Except.ok.inj h]
        exact ⟨r, (publishRoleChanges_extends hpublish).old hr, hrow⟩
      · simp at h
  · rw [← Except.ok.inj h]
    exact hstored

theorem settle_outlives {now clock : ℤ} {c c' : Channel} {claim : DestinationClaim} {ids : List Uuid}
    {outcome : Settlement} {settled : Bool}
    (h : settle now clock c claim ids outcome = .ok (settled, c')) :
    Outlives c.eventOutbox c'.eventOutbox := by
  unfold settle at h
  split at h
  · split at h
    · simp at h
    · obtain ⟨-, rfl⟩ := Prod.mk.inj (Except.ok.inj h)
      intro r hr
      rw [release_eventOutbox]
      refine ⟨_, (Outbox.mem_updateWhere _ _ _ _).mpr ⟨r, hr, rfl⟩, ?_⟩
      split
      · next hsettled =>
        simp only [settledBy, Bool.and_eq_true, decide_eq_true_eq] at hsettled
        exact ⟨rfl, fun hnot => absurd hsettled.2 hnot⟩
      · exact Later.refl r
  · obtain ⟨-, rfl⟩ := Prod.mk.inj (Except.ok.inj h)
    exact Outlives.refl _

/-- No call of the store drops a row or reopens one. -/
theorem storeCall_outlives {now : ℤ} {c c' : Channel} {call : DueHeads.StoreCall}
    (h : call.commit now c = some c') : Outlives c.eventOutbox c'.eventOutbox := by
  cases DueHeads.StoreCall.committed h with
  | insertEvents hok =>
    intro r hr
    exact ⟨r, (insertEvents_ok hok).2.old hr, Later.refl r⟩
  | insertLegacyEvent hok => exact (insertLegacyEvent_inserted hok).outlives
  | claim clock token clientId =>
    rw [claim_eventOutbox]
    exact Outlives.refl _
  | renew clock claim =>
    rw [renew_eventOutbox]
    exact Outlives.refl _
  | settle hok => exact settle_outlives hok
  | failed call n => exact Outlives.of_extends (skip_appended _ _ n)

/-- The archive takes rows that were delivered long enough ago. -/
theorem cleanupArchive_drops {now : ℤ} {c : Channel} {r : OutboxRow} (hr : r ∈ c.eventOutbox.rows) :
    r ∈ (cleanupArchive now c).eventOutbox.rows ∨ archivable now r = true := by
  by_cases hbatch : r.id ∈ ((c.eventOutbox.rows.filter (archivable now)).take 1000).map fun r => r.id
  · right
    obtain ⟨q, hq, hid⟩ := List.mem_map.mp hbatch
    obtain ⟨hmem, hold⟩ := List.mem_filter.mp (List.mem_of_mem_take hq)
    rw [← c.eventOutbox.row_ext hmem hr hid]
    exact hold
  · left
    refine (Outbox.mem_deleteWhere _ _ _).mpr ⟨hr, ?_⟩
    simpa using hbatch

end Later

end DreamSso.LegacyImport
