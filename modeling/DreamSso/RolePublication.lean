import DreamSso.RoleChanges
import DreamSso.OutboxRows

/-!
What a committed publication changes: for each client it found a change for, the
authority revision goes up by one, the ledger rows of the changed users are
rewritten and one event for each of them is appended, in the order of the users.
The role tables are only read.
-/
namespace DreamSso

open JsStrings JsonValues KeyedTables StoredJson Fallible

theorem storableString_of_ascii {s : JsString} (h : ∀ u ∈ s, 0 < u ∧ u < 0x80) :
    storableString s = true := by
  have hzero : 0 ∉ s := fun h0 => Nat.lt_irrefl 0 (h 0 h0).1
  have hwell : ∀ (t : JsString) (high : Bool), (∀ u ∈ t, 0 < u ∧ u < 0x80) →
      wellFormedFrom high t = t := by
    intro t
    induction t with
    | nil => intros; rfl
    | cons u rest ih =>
      intro high ht
      have hu := ht u List.mem_cons_self
      have hhigh : isHighSurrogate u = false := by
        simp only [isHighSurrogate, Bool.and_eq_false_iff, decide_eq_false_iff_not]
        omega
      have hlow : isLowSurrogate u = false := by
        simp only [isLowSurrogate, Bool.and_eq_false_iff, decide_eq_false_iff_not]
        omega
      simp [wellFormedFrom, hhigh, hlow, ih false fun v hv => ht v (List.mem_cons_of_mem _ hv)]
  simp [storableString, hzero, hwell s false h]

theorem Uuid.storable_text (u : Uuid) : storableString u.text = true := by
  refine storableString_of_ascii ?_
  intro x hx
  refine ⟨Nat.pos_of_ne_zero ?_, u.ascii_text x hx⟩
  rintro rfl
  have h := u.shape
  simp only [isUuidText, Bool.and_eq_true, List.all_eq_true] at h
  obtain ⟨i, hlt, hget⟩ := List.getElem_of_mem hx
  have hmem : (0, i) ∈ u.text.zipIdx := by
    rw [List.mem_zipIdx_iff_getElem?, List.getElem?_eq_getElem hlt, hget]
  have hzero := h.2 (0, i) hmem
  split at hzero
  · simp at hzero
  · simp [isHexUnit, isDigitUnit] at hzero

theorem storable_decimal (n : ℕ) : storableString (decimal n) = true := by
  refine storableString_of_ascii ?_
  intro u hu
  have hdigit := decimal_digit n u hu
  simp only [isDigitUnit, Bool.and_eq_true, decide_eq_true_eq] at hdigit
  omega

/-- The report is stored as it is: its keys already stand in the stored order. -/
theorem jsonbInput_rolesChange (sub : Uuid) (roleId : Option ℤ) (epoch : Uuid) (revision : ℕ) :
    jsonbInput (rolesChangePayload sub roleId epoch revision) =
      some (rolesChangePayload sub roleId epoch revision) := by
  have hkeys : storableString (js "sub") = true ∧ storableString (js "role_id") = true ∧
      storableString (js "authority_epoch") = true ∧
      storableString (js "authority_revision") = true := by decide
  have horder : jsonbKeyLE (js "sub") (js "role_id") = true ∧
      jsonbKeyLE (js "role_id") (js "authority_epoch") = true ∧
      jsonbKeyLE (js "authority_epoch") (js "authority_revision") = true := by decide
  obtain ⟨hsub, hrole, hepoch, hrevision⟩ := hkeys
  obtain ⟨hfirst, hsecond, hthird⟩ := horder
  have hid : storable (roleIdJson roleId) = true ∧
      (roleIdJson roleId).sortKeys jsonbKeyLE = roleIdJson roleId ∧
      (roleIdJson roleId).printed = roleIdJson roleId := by
    cases roleId <;> exact ⟨rfl, rfl, rfl⟩
  have hstorable : storable (rolesChangePayload sub roleId epoch revision) = true := by
    simp [rolesChangePayload, Json.ofObject, storable, storableMembers, hsub, hrole, hepoch,
      hrevision, hid.1, sub.storable_text, epoch.storable_text, storable_decimal]
  unfold jsonbInput
  rw [if_pos hstorable]
  simp [rolesChangePayload, Json.ofObject, Json.printed, Json.printedMembers, Json.sortKeys,
    Json.sortMembers, hid.2, List.insertionSort, hfirst, hsecond, hthird]

theorem bigintText?_value {s : JsString} {n : ℕ} (h : bigintText? s = some n) :
    n = digitsValue s := by
  unfold bigintText? at h
  split at h
  · exact (Option.some.inj h).symm
  · simp at h

/-- The content of the event that reports a role. -/
def reportContent (clientId : ClientId) (epoch : Uuid) (sub : Uuid) (roleId : Option ℤ)
    (revision : ℕ) : EventContent :=
  (rolesChangeType, clientId, rolesChangePayload sub roleId epoch revision, revision)

theorem rolesChange_stored {uuid epoch : Uuid} {revision : ℕ} {row : EffectiveRow}
    {e : NormalizedEvent}
    (h : normalizedEvent uuid (rolesChangeEvent epoch revision row) = .ok e) (clientId : ClientId) :
    storedContent clientId e =
      some (reportContent clientId epoch row.userSub row.roleId revision) := by
  have htype : textInput rolesChangeType = some rolesChangeType := by decide
  obtain ⟨hkind, hpayload, hversion⟩ := normalizedEvent_ok h
  have hvalue := bigintText?_value hversion
  simp only [rolesChangeEvent, Option.getD_some, digitsValue_decimal] at hkind hpayload hvalue
  simp [storedContent, hkind, hpayload, hvalue, htype, jsonbInput_rolesChange, reportContent]

theorem rolesChange_normalized {uuid : ℕ → Uuid} {epoch : Uuid} {revision : ℕ} (clientId : ClientId)
    {rows : List EffectiveRow} {sequence : ℕ} {normalized : List NormalizedEvent}
    (h : normalizeAll uuid sequence (rows.map (rolesChangeEvent epoch revision)) = .ok normalized) :
    normalized.map (storedContent clientId) = (rows.map fun row =>
      reportContent clientId epoch row.userSub row.roleId revision).map some := by
  induction rows generalizing sequence normalized with
  | nil =>
    simp only [List.map_nil, normalizeAll, Except.ok.injEq] at h
    simp [← h]
  | cons row rest ih =>
    rw [List.map_cons, normalizeAll, bind_eq_ok] at h
    obtain ⟨first, hfirst, h⟩ := h
    rw [bind_eq_ok] at h
    obtain ⟨others, hothers, h⟩ := h
    simp only [Except.ok.injEq] at h
    rw [← h, List.map_cons, rolesChange_stored hfirst, ih hothers]
    rfl

/-- What a publication leaves alone. -/
structure Unpublished (db db' : Db) : Prop where
  tables : db'.toRoleTables = db.toRoleTables
  clients : db'.oauthClients = db.oauthClients
  inbox : db'.processedEvents = db.processedEvents
  audit : db'.orgAuditLog = db.orgAuditLog

theorem Unpublished.refl (db : Db) : Unpublished db db := ⟨rfl, rfl, rfl, rfl⟩

theorem Unpublished.trans {a b c : Db} (h : Unpublished a b) (h' : Unpublished b c) :
    Unpublished a c :=
  ⟨h'.tables.trans h.tables, h'.clients.trans h.clients, h'.inbox.trans h.inbox,
    h'.audit.trans h.audit⟩

/-- A state row that was just created. -/
def RoleSyncState.Unused (state : RoleSyncState) : Prop :=
  state.authorityRevision = 0 ∧ state.catalogMode = .legacy ∧ state.catalogDigest = none

theorem ensureRoleSyncState_ok {env : Surroundings} {db db' : Db} {clientId : ClientId}
    {state : RoleSyncState} (h : ensureRoleSyncState env db clientId = .ok (state, db')) :
    db'.appRoleSyncState.find? clientId = some state ∧
      (db' = db ∨ db.appRoleSyncState.find? clientId = none ∧ state.Unused ∧
        db' = setSyncState db clientId state) := by
  unfold ensureRoleSyncState at h
  simp only at h
  split at h
  · next found hfound =>
    simp only [Except.ok.injEq, Prod.mk.injEq] at h
    obtain ⟨rfl, rfl⟩ := h
    refine ⟨hfound, ?_⟩
    split at hfound
    · next hmissing =>
      right
      simp only [setSyncState, Table.find?_upsert_self, Option.some.injEq] at hfound
      subst hfound
      rw [if_pos hmissing]
      simp only [Bool.and_eq_true, Bool.not_eq_true', Table.contains, Option.isSome_eq_false_iff,
        Option.isNone_iff_eq_none] at hmissing
      exact ⟨hmissing.2, ⟨rfl, rfl, rfl⟩, rfl⟩
    · next hthere =>
      left
      rw [if_neg hthere]
  · simp at h

theorem ensureRoleSyncState_unpublished {env : Surroundings} {db db' : Db} {clientId : ClientId}
    {state : RoleSyncState} (h : ensureRoleSyncState env db clientId = .ok (state, db')) :
    Unpublished db db' ∧ db'.appRoleEffective = db.appRoleEffective ∧
      db'.toChannel = db.toChannel ∧
      ∀ other, other ≠ clientId →
        db'.appRoleSyncState.find? other = db.appRoleSyncState.find? other := by
  rcases (ensureRoleSyncState_ok h).2 with rfl | ⟨-, -, rfl⟩
  · exact ⟨Unpublished.refl _, rfl, rfl, fun _ _ => rfl⟩
  · exact ⟨⟨rfl, rfl, rfl, rfl⟩, rfl, rfl, fun other hne => Table.find?_upsert_ne _ _ hne⟩

/-- The ledger after the rows of one publication. -/
def ledgerAfter (clientId : ClientId) (revision : ℕ)
    (ledger : Table (ClientId × Uuid) EffectiveEntry) (rows : List EffectiveRow) :
    Table (ClientId × Uuid) EffectiveEntry :=
  rows.foldl (fun t row => t.upsert (clientId, row.userSub) ⟨row.roleId, row.managed, revision⟩)
    ledger

theorem writeLedger_foldl (clientId : ClientId) (revision : ℕ) (db : Db) (rows : List EffectiveRow) :
    rows.foldl (writeLedger clientId revision) db =
      { db with appRoleEffective := ledgerAfter clientId revision db.appRoleEffective rows } := by
  induction rows generalizing db with
  | nil => rfl
  | cons row rest ih =>
    rw [List.foldl_cons, ih]
    rfl

theorem ledgerAfter_other {clientId : ClientId} {revision : ℕ}
    {ledger : Table (ClientId × Uuid) EffectiveEntry} {rows : List EffectiveRow}
    {key : ClientId × Uuid}
    (h : key.1 ≠ clientId ∨ ∀ row ∈ rows, row.userSub ≠ key.2) :
    (ledgerAfter clientId revision ledger rows).find? key = ledger.find? key := by
  induction rows generalizing ledger with
  | nil => rfl
  | cons row rest ih =>
    have hrest : key.1 ≠ clientId ∨ ∀ row ∈ rest, row.userSub ≠ key.2 :=
      h.imp_right fun hall r hr => hall r (List.mem_cons_of_mem _ hr)
    have hkey : key ≠ (clientId, row.userSub) := by
      rintro rfl
      rcases h with hne | hall
      · exact hne rfl
      · exact hall row List.mem_cons_self rfl
    rw [ledgerAfter, List.foldl_cons, ← ledgerAfter, ih hrest, Table.find?_upsert_ne _ _ hkey]

theorem ledgerAfter_row {clientId : ClientId} {revision : ℕ}
    {ledger : Table (ClientId × Uuid) EffectiveEntry} {rows : List EffectiveRow}
    (hnodup : (rows.map fun row => row.userSub).Nodup) {row : EffectiveRow} (hrow : row ∈ rows) :
    (ledgerAfter clientId revision ledger rows).find? (clientId, row.userSub) =
      some ⟨row.roleId, row.managed, revision⟩ := by
  induction rows generalizing ledger with
  | nil => simp at hrow
  | cons first rest ih =>
    obtain ⟨hnew, hrest⟩ := List.nodup_cons.mp hnodup
    rw [ledgerAfter, List.foldl_cons, ← ledgerAfter]
    rcases List.mem_cons.mp hrow with rfl | hmem
    · rw [ledgerAfter_other, Table.find?_upsert_self]
      right
      intro other hother hsame
      exact hnew (List.mem_map.mpr ⟨other, hother, hsame⟩)
    · exact ih hrest hmem

/-- The events one publication appends for a client. -/
def reportContents (clientId : ClientId) (epoch : Uuid) (revision : ℕ) (rows : List EffectiveRow) :
    List EventContent :=
  rows.map fun row => reportContent clientId epoch row.userSub row.roleId revision

theorem reportContent_sub {clientId : ClientId} {epoch epoch' sub sub' : Uuid}
    {roleId roleId' : Option ℤ} {revision revision' : ℕ}
    (h : reportContent clientId epoch sub roleId revision =
      reportContent clientId epoch' sub' roleId' revision') :
    sub = sub' ∧ roleId = roleId' ∧ epoch = epoch' ∧ revision = revision' := by
  simp only [reportContent, rolesChangePayload, Json.ofObject, Prod.mk.injEq, Json.obj.injEq,
    List.map_cons, List.map_nil, List.cons.injEq, Json.str.injEq, true_and, and_true] at h
  obtain ⟨⟨hsub, hrole, hepoch, -⟩, hrevision⟩ := h
  refine ⟨Uuid.text_injective hsub, ?_, Uuid.text_injective hepoch, hrevision⟩
  cases roleId <;> cases roleId' <;> simp_all [roleIdJson, Json.ofOption, Json.int]

theorem reportContents_nodup {clientId : ClientId} {epoch : Uuid} {revision : ℕ}
    {rows : List EffectiveRow} (h : (rows.map fun row => row.userSub).Nodup) :
    (reportContents clientId epoch revision rows).Nodup := by
  refine List.Nodup.map_on ?_ (List.Nodup.of_map _ h)
  intro a ha b hb hab
  exact List.inj_on_of_nodup_map h ha hb (reportContent_sub hab).1

/-- Rows that a committed publication appends for `rows` when nothing like them
is stored yet. -/
def Appends (db db' : Db) (contents : List EventContent) : Prop :=
  contents.Nodup → (∀ r ∈ db.eventOutbox.rows, r.content ∉ contents) →
    ∃ extra, db'.eventOutbox.rows = db.eventOutbox.rows ++ extra ∧
      extra.map OutboxRow.content = contents ∧ ∀ r ∈ extra, r.status = .pending

theorem publishPart_ok {env : Surroundings} {clientId : ClientId} {epoch : Uuid} {revision : ℕ}
    {db db' : Db} {part : List EffectiveRow}
    (h : publishPart env clientId epoch revision db part = .ok db') :
    Unpublished db db' ∧ db'.appRoleSyncState = db.appRoleSyncState ∧
      db'.appRoleEffective = ledgerAfter clientId revision db.appRoleEffective part ∧
      Appends db db' (reportContents clientId epoch revision part) := by
  unfold publishPart at h
  rw [bind_eq_ok] at h
  obtain ⟨⟨ids, channel⟩, hinsert, h⟩ := h
  simp only [Except.ok.injEq] at h
  rw [writeLedger_foldl] at h
  obtain ⟨hclients, normalized, hnormalized, hall⟩ := insertEvents_content hinsert
  subst h
  refine ⟨⟨rfl, hclients, rfl, rfl⟩, rfl, rfl, ?_⟩
  intro hnodup hfresh
  exact hall _ (rolesChange_normalized clientId hnormalized) hnodup hfresh

theorem publishParts_ok {env : Surroundings} {clientId : ClientId} {epoch : Uuid} {revision : ℕ}
    {parts : List (List EffectiveRow)} {db db' : Db}
    (h : parts.foldlM (publishPart env clientId epoch revision) db = .ok db') :
    Unpublished db db' ∧ db'.appRoleSyncState = db.appRoleSyncState ∧
      db'.appRoleEffective = ledgerAfter clientId revision db.appRoleEffective parts.flatten ∧
      Appends db db' (reportContents clientId epoch revision parts.flatten) := by
  induction parts generalizing db with
  | nil =>
    simp only [List.foldlM_nil, pure, Except.pure, Except.ok.injEq] at h
    subst h
    exact ⟨Unpublished.refl _, rfl, rfl, fun _ _ => ⟨[], by simp, rfl, by simp⟩⟩
  | cons part rest ih =>
    rw [List.foldlM_cons, bind_eq_ok] at h
    obtain ⟨mid, hpart, hrest⟩ := h
    obtain ⟨hkept, hsync, hledger, happend⟩ := publishPart_ok hpart
    obtain ⟨hkept', hsync', hledger', happend'⟩ := ih hrest
    refine ⟨hkept.trans hkept', hsync'.trans hsync, ?_, ?_⟩
    · rw [hledger', hledger, ledgerAfter, ledgerAfter, ← List.foldl_append]
      rfl
    · have hsplit : reportContents clientId epoch revision (part :: rest).flatten =
          reportContents clientId epoch revision part ++
            reportContents clientId epoch revision rest.flatten := by
        simp [reportContents]
      rw [Appends, hsplit]
      intro hnodup hfresh
      obtain ⟨hfirst, hothers, hdisjoint⟩ := List.nodup_append.mp hnodup
      obtain ⟨extra, hrows, hcontents, hpending⟩ := happend hfirst
        fun r hr hmem => hfresh r hr (List.mem_append_left _ hmem)
      have hmid : ∀ r ∈ mid.eventOutbox.rows,
          r.content ∉ reportContents clientId epoch revision rest.flatten := by
        intro r hr hmem
        rw [hrows] at hr
        rcases List.mem_append.mp hr with hold | hnew
        · exact hfresh r hold (List.mem_append_right _ hmem)
        · exact hdisjoint r.content (hcontents ▸ List.mem_map_of_mem hnew) _ hmem rfl
      obtain ⟨extra', hrows', hcontents', hpending'⟩ := happend' hothers hmid
      refine ⟨extra ++ extra', ?_, ?_, ?_⟩
      · rw [hrows', hrows, List.append_assoc]
      · rw [List.map_append, hcontents, hcontents']
      · intro r hr
        exact (List.mem_append.mp hr).elim (hpending r) (hpending' r)

theorem partsFrom_flatten (fuel : ℕ) (rows : List EffectiveRow) (h : rows.length ≤ fuel) :
    (partsFrom fuel rows).flatten = rows := by
  induction fuel generalizing rows with
  | zero =>
    rw [List.length_eq_zero_iff.mp (Nat.le_zero.mp h)]
    rfl
  | succ fuel ih =>
    cases rows with
    | nil => rfl
    | cons row rest =>
      have hshort : ((row :: rest).drop PART_SIZE).length ≤ fuel := by
        simp only [List.length_drop, List.length_cons, PART_SIZE] at *
        omega
      rw [partsFrom, List.flatten_cons, ih _ hshort, List.take_append_drop]

theorem parts_flatten (rows : List EffectiveRow) : (parts rows).flatten = rows :=
  partsFrom_flatten _ _ (Nat.le_refl _)

theorem effectiveRows_subs_nodup (db : Db) (clientId : ClientId) (subjects : Option (List Uuid)) :
    ((effectiveRows db clientId subjects).map fun row => row.userSub).Nodup := by
  unfold effectiveRows
  split
  · simp
  · next cat _ =>
    have hid : (fun row : EffectiveRow => row.userSub) ∘ effectiveRow db cat clientId = id := rfl
    rw [List.map_map, hid, List.map_id]
    exact (db.identities.orderedKeys_nodup).filter _

theorem changedRows_subs_nodup (db : Db) (clientId : ClientId) (subjects : Option (List Uuid))
    (options : PublishOptions) :
    ((changedRows db clientId subjects options).map fun row => row.userSub).Nodup :=
  (List.filter_sublist.map _).nodup (effectiveRows_subs_nodup db clientId subjects)

theorem effectiveRows_congr {db db' : Db} (htables : db'.toRoleTables = db.toRoleTables)
    {clientId : ClientId} (hledger : ∀ sub, db'.appRoleEffective.find? (clientId, sub) =
      db.appRoleEffective.find? (clientId, sub)) (subjects : Option (List Uuid)) :
    effectiveRows db' clientId subjects = effectiveRows db clientId subjects := by
  have hrow : ∀ cat sub, effectiveRow db' cat clientId sub = effectiveRow db cat clientId sub := by
    intro cat sub
    simp only [effectiveRow, knownRole, rawRole, orgLayer, htables, hledger]
  have hsubjects : publishedSubjects db' subjects = publishedSubjects db subjects := by
    simp only [publishedSubjects, presentIdentity, htables]
  unfold effectiveRows
  rw [htables, hsubjects]
  split
  · rfl
  · exact List.map_congr_left fun sub _ => hrow _ sub

/-- What one client of a publication ends up with. -/
structure PublishedClient (db db' : Db) (clientId : ClientId) (changed : List EffectiveRow) :
    Prop where
  unpublished : Unpublished db db'
  others : ∀ other, other ≠ clientId →
    db'.appRoleSyncState.find? other = db.appRoleSyncState.find? other
  quiet : changed = [] → db'.toChannel = db.toChannel ∧
    db'.appRoleEffective = db.appRoleEffective ∧
    (db'.appRoleSyncState.find? clientId = db.appRoleSyncState.find? clientId ∨
      db.appRoleSyncState.find? clientId = none ∧ ∃ state,
        db'.appRoleSyncState.find? clientId = some state ∧ state.Unused)
  reported : changed ≠ [] → ∃ state state', db'.appRoleSyncState.find? clientId = some state' ∧
    (db.appRoleSyncState.find? clientId = some state ∨
      db.appRoleSyncState.find? clientId = none ∧ state.Unused) ∧
    state'.authorityEpoch = state.authorityEpoch ∧
    state'.authorityRevision = state.authorityRevision + 1 ∧
    state'.catalogMode = state.catalogMode ∧ state'.catalogDigest = state.catalogDigest ∧
    state'.lastSyncIat = state.lastSyncIat ∧
    db'.appRoleEffective = ledgerAfter clientId state'.authorityRevision db.appRoleEffective changed ∧
    Appends db db' (reportContents clientId state'.authorityEpoch state'.authorityRevision changed)

theorem publishClient_ok {env : Surroundings} {subjects : Option (List Uuid)}
    {options : PublishOptions} {db db' : Db} {clientId : ClientId} {count : ℕ}
    (h : publishClient env subjects options db clientId = .ok (count, db')) :
    count = (changedRows db clientId subjects options).length ∧
      PublishedClient db db' clientId (changedRows db clientId subjects options) := by
  unfold publishClient at h
  rw [bind_eq_ok] at h
  obtain ⟨⟨state, ensured⟩, hensure, h⟩ := h
  obtain ⟨hstate, hcases⟩ := ensureRoleSyncState_ok hensure
  obtain ⟨hkept, hledger, hchannel, hothers⟩ := ensureRoleSyncState_unpublished hensure
  have hsame : changedRows ensured clientId subjects options =
      changedRows db clientId subjects options := by
    rw [changedRows, effectiveRows_congr hkept.tables fun sub => by rw [hledger]]
    rfl
  have hbefore : db.appRoleSyncState.find? clientId = some state ∨
      db.appRoleSyncState.find? clientId = none ∧ state.Unused := by
    rcases hcases with rfl | ⟨hnone, hunused, -⟩
    · exact .inl hstate
    · exact .inr ⟨hnone, hunused⟩
  rw [← hsame]
  simp only at h
  split at h
  · next hnil =>
    simp only [Except.ok.injEq, Prod.mk.injEq] at h
    obtain ⟨rfl, rfl⟩ := h
    refine ⟨by rw [hnil]; rfl, ⟨hkept, hothers, ?_, fun hne => (hne hnil).elim⟩⟩
    intro _
    refine ⟨hchannel, hledger, ?_⟩
    rcases hbefore with hold | ⟨hnone, hunused⟩
    · exact .inl (hstate.trans hold.symm)
    · exact .inr ⟨hnone, state, hstate, hunused⟩
  · next hne =>
    split at h
    · next hroom =>
      rw [bind_eq_ok] at h
      obtain ⟨published, hparts, h⟩ := h
      simp only [Except.ok.injEq, Prod.mk.injEq] at h
      obtain ⟨rfl, rfl⟩ := h
      obtain ⟨hparts', hsync, hledger', happend⟩ := publishParts_ok hparts
      rw [parts_flatten] at hledger' happend
      have hset : Unpublished ensured (setSyncState ensured clientId (state.advance hroom)) :=
        ⟨rfl, rfl, rfl, rfl⟩
      refine ⟨rfl, ⟨hkept.trans (hset.trans hparts'), ?_, fun hnil => (hne hnil).elim, ?_⟩⟩
      · intro other hother
        rw [hsync, ← hothers other hother]
        exact Table.find?_upsert_ne _ _ hother
      · intro _
        refine ⟨state, state.advance hroom, ?_, hbefore, rfl, rfl, rfl, rfl, rfl, ?_, ?_⟩
        · rw [hsync]
          exact Table.find?_upsert_self _ _ _
        · rw [hledger', ← hledger]
          rfl
        · intro hnodup hfresh
          have hrows : db.eventOutbox.rows = ensured.eventOutbox.rows := by rw [hchannel]
          rw [hrows] at hfresh ⊢
          exact happend hnodup hfresh
    · simp at h

end DreamSso
