import DreamSso.OutboxEnqueue
import DreamSso.Library.Transitions

/-!
When a destination wakes up. Its `next_attempt_at` is a copy of the due time of
its oldest pending row that only a released lease renews; the other statements
have to leave it no later than that row, and one of them does not.
-/
namespace DreamSso.DueHeads

open JsStrings JsonValues KeyedTables StoredJson Fallible Transitions

/-- The destination wakes up no later than its oldest pending row is due; without
one it wakes up at once. -/
def Served (now : ℤ) (head : Option OutboxRow) (destination : Option Destination) : Prop :=
  match head with
  | some row => ∃ d, destination = some d ∧ d.nextAttemptAt ≤ max now row.nextAttemptAt
  | none => ∀ d, destination = some d → d.nextAttemptAt ≤ now

def HeadsServed (now : ℤ) (db : Channel) : Prop :=
  ∀ clientId, Served now (db.eventOutbox.pending clientId).head?
    (db.eventDestinations.find? clientId)

section Served

variable {now now' : ℤ} {head : Option OutboxRow} {destination : Option Destination}

theorem Served.mono (h : Served now head destination) (hnow : now ≤ now') :
    Served now' head destination := by
  cases head with
  | none => exact fun d hd => le_trans (h d hd) hnow
  | some row =>
    obtain ⟨d, hd, hle⟩ := h
    refine ⟨d, hd, ?_⟩
    omega

theorem HeadsServed.mono {db : Channel} (h : HeadsServed now db) (hnow : now ≤ now') :
    HeadsServed now' db := fun clientId => (h clientId).mono hnow

/-- Rows behind the others do not change the head, and the first one wakes nobody. -/
theorem Served.append {rows extra : List OutboxRow} {d : Destination}
    (h : Served now rows.head? (some d)) : Served now (rows ++ extra).head? (some d) := by
  cases rows with
  | cons row rest => exact h
  | nil =>
    have hle : d.nextAttemptAt ≤ now := h d rfl
    cases extra with
    | nil => exact h
    | cons row rest =>
      refine ⟨d, rfl, ?_⟩
      omega

theorem Served.missing {now' : ℤ} (h : Served now head none) (hnow : now' ≤ now)
    (failures : ℕ) : Served now head (some ⟨none, now', failures⟩) := by
  cases head with
  | none =>
    rintro d ⟨⟩
    exact hnow
  | some row =>
    obtain ⟨d, hd, -⟩ := h
    simp at hd

end Served

section Inserts

variable {now : ℤ} {clientId : ClientId} {db db' locked : Channel}

theorem pending_append {o o' : Outbox} {extra : List OutboxRow} (h : o'.rows = o.rows ++ extra)
    (other : ClientId) : ∃ more, o'.pending other = o.pending other ++ more ∧
      ∀ row ∈ more, row ∈ extra ∧ row.targetClientId = other := by
  refine ⟨extra.filter fun r => decide (r.targetClientId = other) && decide (r.status = .pending),
    ?_, ?_⟩
  · rw [Outbox.pending, h, List.filter_append]
    rfl
  · intro row hrow
    obtain ⟨hmem, hkeep⟩ := List.mem_filter.mp hrow
    simp only [Bool.and_eq_true, decide_eq_true_eq] at hkeep
    exact ⟨hmem, hkeep.1⟩

/-- The locked destination exists, and a new one is due at once. -/
theorem lockDestination_served (h : lockDestination now db clientId = .ok locked)
    (hdb : HeadsServed now db) : HeadsServed now locked ∧
      locked.eventOutbox = db.eventOutbox ∧ ∃ d, locked.eventDestinations.find? clientId = some d := by
  have houtbox := (lockDestination_ok h).1
  have hthere := (Table.contains_iff _ _).mp (lockDestination_contains h)
  refine ⟨?_, houtbox, hthere⟩
  intro other
  unfold lockDestination at h
  split at h
  · rw [← Except.ok.inj h]
    exact hdb other
  · next habsent =>
    split at h
    · rw [← Except.ok.inj h]
      simp only [Table.find?_upsert]
      split
      · next hother =>
        subst hother
        have hserved := hdb other
        rw [show db.eventDestinations.find? other = none by simpa [Table.contains] using habsent]
          at hserved
        exact hserved.missing (le_refl _) 0
      · exact hdb other
    · simp at h

/-- A destination with pending rows was there before it was locked. -/
theorem lockDestination_kept {d : Destination} (h : lockDestination now db clientId = .ok locked)
    (hd : locked.eventDestinations.find? clientId = some d)
    (hpending : (db.eventOutbox.pending clientId).head?.isSome = true)
    (hdb : HeadsServed now db) : db.eventDestinations.find? clientId = some d := by
  obtain ⟨head, hhead⟩ := Option.isSome_iff_exists.mp hpending
  have hserved := hdb clientId
  rw [hhead] at hserved
  obtain ⟨stored, hstored, -⟩ := hserved
  unfold lockDestination at h
  rw [if_pos ((Table.contains_iff _ _).mpr ⟨stored, hstored⟩)] at h
  rw [Except.ok.inj h]
  exact hd

/-- Rows appended for a destination that exists keep every head served. -/
theorem HeadsServed.appended (hdb : HeadsServed now db) {extra : List OutboxRow}
    (hrows : db'.eventOutbox.rows = db.eventOutbox.rows ++ extra)
    (hdestinations : db'.eventDestinations = db.eventDestinations)
    (htarget : ∀ row ∈ extra, row.targetClientId = clientId)
    (hthere : ∃ d, db.eventDestinations.find? clientId = some d) : HeadsServed now db' := by
  intro other
  have hserved := hdb other
  obtain ⟨more, hpending, hmore⟩ := pending_append hrows other
  rw [hpending, hdestinations]
  by_cases hother : other = clientId
  · subst hother
    obtain ⟨d, hd⟩ := hthere
    rw [hd] at hserved ⊢
    exact hserved.append
  · have hnone : more = [] := by
      apply List.eq_nil_iff_forall_not_mem.mpr
      intro row hrow
      obtain ⟨hmem, hrowTarget⟩ := hmore row hrow
      exact hother (hrowTarget.symm.trans (htarget row hmem))
    rw [hnone, List.append_nil]
    exact hserved

theorem insertEvents_locked {uuid : ℕ → Uuid} {events : List OutboundEvent} {ids : List Uuid}
    (h : insertEvents now uuid db clientId events = .ok (ids, db')) :
    db' = db ∨ ∃ locked, lockDestination now db clientId = .ok locked ∧
      db'.eventDestinations = locked.eventDestinations ∧
      Appended (Enqueued clientId) locked.eventOutbox db'.eventOutbox := by
  unfold insertEvents at h
  rw [bind_eq_ok] at h
  obtain ⟨normalized, hnormalized, h⟩ := h
  split at h
  · exact .inl (Prod.mk.inj (Except.ok.inj h)).2.symm
  · rw [bind_eq_ok] at h
    obtain ⟨locked, hlocked, h⟩ := h
    rw [bind_eq_ok] at h
    obtain ⟨written, hwritten, h⟩ := h
    obtain ⟨-, rfl⟩ := Prod.mk.inj (Except.ok.inj h)
    right
    refine ⟨locked, hlocked, ?_⟩
    refine foldlM_preserves (fun s => s.eventDestinations = locked.eventDestinations ∧
      Appended (Enqueued clientId) locked.eventOutbox s.eventOutbox) ?_ hwritten
      ⟨rfl, Appended.refl _ _⟩
    intro e he s t hs hst
    obtain ⟨hsame, happended⟩ := insertEvent_ok (normalizeAll_fits hnormalized e he) hst
    exact ⟨hsame.trans hs.1, hs.2.trans happended⟩

theorem insertEvents_served {uuid : ℕ → Uuid} {events : List OutboundEvent} {ids : List Uuid}
    (h : insertEvents now uuid db clientId events = .ok (ids, db')) (hdb : HeadsServed now db) :
    HeadsServed now db' := by
  rcases insertEvents_locked h with rfl | ⟨locked, hlocked, hdestinations, happended⟩
  · exact hdb
  · obtain ⟨hserved, -, hthere⟩ := lockDestination_served hlocked hdb
    obtain ⟨extra, hrows, hextra⟩ := happended.added
    exact hserved.appended hrows hdestinations (fun row hrow => (hextra row hrow).1.target) hthere

end Inserts

section Imports

variable {now : ℤ} {clientId : ClientId} {db db' : Channel} {event : LegacyEvent}

/-- The import of a legacy role event finds this row stored for it. -/
structure Matches (event : LegacyEvent) (row : OutboxRow) : Prop where
  role : event.type = js "account.roles_change"
  id : row.id = event.id
  kind : textInput event.type = some row.kind
  payload : jsonbInput event.payload = some row.payload
  receipt : (textInput event.member).isSome = true

instance (event : LegacyEvent) (row : OutboxRow) : Decidable (Matches event row) :=
  decidable_of_iff (event.type = js "account.roles_change" ∧ row.id = event.id ∧
      textInput event.type = some row.kind ∧ jsonbInput event.payload = some row.payload ∧
      (textInput event.member).isSome = true)
    ⟨fun ⟨h1, h2, h3, h4, h5⟩ => ⟨h1, h2, h3, h4, h5⟩,
      fun h => ⟨h.role, h.id, h.kind, h.payload, h.receipt⟩⟩

/-- The import closes the oldest pending row while its destination sleeps past the
time of the import and past the due time of the row behind it. -/
def HoldsBack (now : ℤ) (db : Channel) (clientId : ClientId) (event : LegacyEvent) : Prop :=
  ∃ head rest d, db.eventOutbox.pending clientId = head :: rest ∧ Matches event head ∧
    db.eventDestinations.find? clientId = some d ∧
    rest.head?.elim now (fun next => max now next.nextAttemptAt) < d.nextAttemptAt

/-- What an import did to the rows. -/
inductive Imported (clientId : ClientId) (event : LegacyEvent) (o o' : Outbox) : Prop
  | stored (row : OutboxRow) (htarget : row.targetClientId = clientId)
      (hfresh : ∀ r ∈ o.rows, r.id ≠ event.id) (hrows : o'.rows = o.rows ++ [row])
  | repeated (row : OutboxRow) (hrow : row ∈ o.rows) (hid : row.id = event.id)
      (hkept : event.type = js "account.roles_change" → row.status ≠ .pending)
      (hrows : o'.rows = o.rows)
  | closed (row : OutboxRow) (hrow : row ∈ o.rows) (htarget : row.targetClientId = clientId)
      (hstatus : row.status = .pending) (hmatches : Matches event row) (close : Delivery → Delivery)
      (hclose : ∀ d, (close d).status = .dead)
      (hrows : o'.rows = (o.updateWhere (fun r => decide (r.id = event.id)) close).rows)

theorem insertLegacyEvent_cases {fresh : Bool}
    (h : insertLegacyEvent now db clientId event = .ok (fresh, db')) :
    ∃ locked, lockDestination now db clientId = .ok locked ∧
      db'.eventDestinations = locked.eventDestinations ∧
      Imported clientId event locked.eventOutbox db'.eventOutbox := by
  unfold insertLegacyEvent at h
  rw [bind_eq_ok] at h
  obtain ⟨locked, hlocked, h⟩ := h
  refine ⟨locked, hlocked, ?_⟩
  simp only at h
  split at h
  · next kind payload member hkind hpayload hmember =>
    split at h
    · next outbox hinsert =>
      obtain ⟨-, rfl⟩ := Prod.mk.inj (Except.ok.inj h)
      exact ⟨rfl, .stored _ rfl (Outbox.insert?_fresh hinsert) (Outbox.insert?_rows hinsert).1⟩
    · split at h
      · simp at h
      · next existing hexisting =>
        have hmem := List.mem_of_find?_eq_some hexisting
        have hsame := List.find?_some hexisting
        simp only [Bool.and_eq_true, decide_eq_true_eq] at hsame
        obtain ⟨⟨⟨hid, hk⟩, ht⟩, hp⟩ := hsame
        split at h
        · next hreplaced =>
          simp only [Bool.and_eq_true, decide_eq_true_eq] at hreplaced
          obtain ⟨-, rfl⟩ := Prod.mk.inj (Except.ok.inj h)
          have hmatches : Matches event existing :=
            ⟨hreplaced.1, hid, by rw [hkind, hk], by rw [hpayload, hp], by rw [hmember]; rfl⟩
          refine ⟨rfl, .closed existing hmem ht hreplaced.2 hmatches (fun d => { d with
            status := .dead
            lastErrorCode := some "legacy_role_replaced"
            legacyRedisMember := d.legacyRedisMember.or (some member)
            legacyRedisScore := d.legacyRedisScore.or (some event.score) }) (fun d => rfl) rfl⟩
        · next hkept =>
          obtain ⟨-, rfl⟩ := Prod.mk.inj (Except.ok.inj h)
          refine ⟨rfl, .repeated existing hmem hid ?_ rfl⟩
          intro hrole hpending
          exact hkept (by simp [hrole, hpending])
  · simp at h

theorem pending_congr {o o' : Outbox} (h : o'.rows = o.rows) (other : ClientId) :
    o'.pending other = o.pending other := by
  rw [Outbox.pending, h]
  rfl

/-- Closing one row takes it out of the pending rows. -/
theorem pending_closed (o : Outbox) (id : Uuid) (close : Delivery → Delivery)
    (hclose : ∀ d, (close d).status = .dead) (other : ClientId) :
    (o.updateWhere (fun r => decide (r.id = id)) close).pending other =
      (o.pending other).filter fun r => decide (r.id ≠ id) := by
  unfold Outbox.pending Outbox.updateWhere
  simp only
  induction o.rows with
  | nil => rfl
  | cons row rest ih =>
    rw [List.map_cons, List.filter_cons, ih, List.filter_cons]
    by_cases hid : row.id = id
    · simp [hid, hclose]
      split <;> simp [hid]
    · simp only [hid, decide_false, Bool.false_eq_true, if_false]
      split <;> simp [hid]

theorem pending_rest_ids {o : Outbox} {other : ClientId} {head : OutboxRow} {rest : List OutboxRow}
    (h : o.pending other = head :: rest) : ∀ r ∈ rest, r.id ≠ head.id := by
  intro r hr hid
  have hordered := o.pending_ordered other
  rw [h] at hordered
  have hlt := List.rel_of_pairwise_cons hordered hr
  have hmem : ∀ q ∈ head :: rest, q ∈ o.rows := by
    intro q hq
    rw [← h] at hq
    exact ((o.mem_pending other q).mp hq).1
  rw [o.row_ext (hmem r (List.mem_cons_of_mem _ hr)) (hmem head List.mem_cons_self) hid] at hlt
  omega

/-- An import leaves every head served unless it holds one back. -/
theorem insertLegacyEvent_served {fresh : Bool}
    (h : insertLegacyEvent now db clientId event = .ok (fresh, db')) (hdb : HeadsServed now db)
    (hnot : ¬ HoldsBack now db clientId event) : HeadsServed now db' := by
  obtain ⟨locked, hlocked, hdestinations, himported⟩ := insertLegacyEvent_cases h
  obtain ⟨hserved, houtbox, hthere⟩ := lockDestination_served hlocked hdb
  cases himported with
  | stored row htarget hfresh hrows =>
    exact hserved.appended hrows hdestinations (by simpa using htarget) hthere
  | repeated row hrow hid hkept hrows =>
    intro other
    rw [pending_congr hrows, hdestinations]
    exact hserved other
  | closed row hrow htarget hstatus hmatches close hclose hrows =>
    intro other
    have hold := hserved other
    rw [pending_congr hrows, pending_closed _ _ _ hclose, hdestinations]
    cases hpending : locked.eventOutbox.pending other with
    | nil =>
      rw [hpending] at hold
      exact hold
    | cons head rest =>
      rw [hpending] at hold
      obtain ⟨d, hd, hle⟩ := hold
      by_cases hhead : head.id = event.id
      · have hmem : head ∈ locked.eventOutbox.pending other := by
          rw [hpending]
          exact List.mem_cons_self
        have hrest : rest.filter (fun r => decide (r.id ≠ event.id)) = rest := by
          rw [List.filter_eq_self]
          intro r hr
          simpa [← hhead] using pending_rest_ids hpending r hr
        rw [List.filter_cons_of_neg (by simp [hhead]), hrest]
        -- the closed row is the head: only the excluded case makes it sleep longer
        obtain ⟨hheadRow, hheadTarget, -⟩ := (locked.eventOutbox.mem_pending other head).mp hmem
        have hrowHead : row = head :=
          locked.eventOutbox.row_ext hrow hheadRow (hmatches.id.trans hhead.symm)
        have hother : other = clientId := by
          rw [← hheadTarget, ← hrowHead, htarget]
        subst hother
        have hawake : ¬ rest.head?.elim now (fun next => max now next.nextAttemptAt) <
            d.nextAttemptAt := by
          intro hlate
          apply hnot
          refine ⟨head, rest, d, by rw [← houtbox]; exact hpending, hrowHead ▸ hmatches, ?_, hlate⟩
          exact lockDestination_kept hlocked hd (by
            rw [← houtbox, hpending]
            simp) hdb
        rw [hd]
        cases rest with
        | nil =>
          rintro _ ⟨⟩
          simpa using hawake
        | cons next others => exact ⟨d, rfl, not_lt.mp hawake⟩
      · rw [List.filter_cons_of_pos (by simpa using hhead)]
        exact ⟨d, hd, hle⟩

/-- After such an import the destination sleeps while its head is due, or while the
next row will be. -/
theorem HoldsBack.unserved {fresh : Bool} (hheld : HoldsBack now db clientId event)
    (h : insertLegacyEvent now db clientId event = .ok (fresh, db')) (hdb : HeadsServed now db) :
    ¬ HeadsServed now db' := by
  obtain ⟨head, rest, d, hpending, hmatches, hd, hlate⟩ := hheld
  obtain ⟨locked, hlocked, hdestinations, himported⟩ := insertLegacyEvent_cases h
  obtain ⟨-, houtbox, -⟩ := lockDestination_served hlocked hdb
  have hmem : head ∈ db.eventOutbox.pending clientId := by
    rw [hpending]
    exact List.mem_cons_self
  obtain ⟨hrow, htarget, hstatus⟩ := (db.eventOutbox.mem_pending clientId head).mp hmem
  have hkept : locked.eventDestinations = db.eventDestinations := by
    unfold lockDestination at hlocked
    rw [if_pos ((Table.contains_iff _ _).mpr ⟨d, hd⟩)] at hlocked
    rw [Except.ok.inj hlocked]
  have hclosed : db'.eventOutbox.pending clientId =
      (db.eventOutbox.pending clientId).filter fun r => decide (r.id ≠ event.id) := by
    rw [houtbox] at himported
    cases himported with
    | stored row _ hfresh hrows => exact (hfresh head hrow hmatches.id).elim
    | repeated row hother hid hkept hrows =>
      have hsame := db.eventOutbox.row_ext hother hrow (hid.trans hmatches.id.symm)
      exact (hkept hmatches.role (hsame ▸ hstatus)).elim
    | closed row _ _ _ _ close hclose hrows =>
      rw [pending_congr hrows, pending_closed _ _ _ hclose]
  have hrest : (db.eventOutbox.pending clientId).filter (fun r => decide (r.id ≠ event.id)) =
      rest := by
    rw [hpending, List.filter_cons_of_neg (by simp [hmatches.id]), List.filter_eq_self]
    intro r hr
    simpa [← hmatches.id] using pending_rest_ids hpending r hr
  intro hserved
  have hclient := hserved clientId
  rw [hclosed, hrest, hdestinations, hkept, hd] at hclient
  cases rest with
  | nil => exact absurd (hclient d rfl) (not_le.mpr hlate)
  | cons next others =>
    obtain ⟨_, ⟨⟩, hle⟩ := hclient
    exact absurd hle (not_le.mpr hlate)

end Imports

section Deliveries

variable {now : ℤ} {db : Channel} {clientId : ClientId} {token : Uuid}

/-- A released destination sleeps until its oldest pending row is due. -/
theorem release_served {db' : Channel} {failures : ℕ}
    (hlease : leaseToken db clientId = some token)
    (hothers : ∀ other, other ≠ clientId → Served now (db.eventOutbox.pending other).head?
      (db.eventDestinations.find? other))
    (h : db' = release now db clientId token failures) : HeadsServed now db' := by
  subst h
  intro other
  rw [release_eventOutbox]
  obtain ⟨d, hd, l, hl, htoken⟩ : ∃ d, db.eventDestinations.find? clientId = some d ∧
      ∃ l, d.lease = some l ∧ l.token = token := by
    unfold leaseToken at hlease
    simpa [Option.bind_eq_some_iff, Option.map_eq_some_iff] using hlease
  unfold release
  rw [hd]
  simp only
  rw [if_pos (by simp [hl, htoken])]
  simp only [setDestination, Table.find?_upsert]
  split
  · next hother =>
    subst hother
    cases hhead : (db.eventOutbox.pending other).head? with
    | none =>
      rintro _ ⟨⟩
      exact le_refl _
    | some head => exact ⟨_, rfl, le_max_right _ _⟩
  · next hother => exact hothers other hother

theorem claim_served (clock : ℤ) (hdb : HeadsServed now db) :
    HeadsServed now (claim now clock token db clientId).2 := by
  unfold claim
  cases hd : db.eventDestinations.find? clientId with
  | none => exact hdb
  | some d =>
    simp only
    split
    · split
      · intro other
        have hold := hdb other
        simp only [setDestination, Table.find?_upsert]
        split
        · next hother =>
          subst hother
          rw [hd] at hold
          cases hhead : (db.eventOutbox.pending other).head? with
          | none =>
            rintro _ ⟨⟩
            rw [hhead] at hold
            exact hold d rfl
          | some head =>
            rw [hhead] at hold
            obtain ⟨_, ⟨⟩, hle⟩ := hold
            exact ⟨_, rfl, hle⟩
        · exact hold
      · refine release_served ?_ ?_ rfl
        · rw [leaseToken_setDestination, if_pos rfl]
          rfl
        · intro other hother
          simp only [setDestination, Table.find?_upsert_ne _ _ hother]
          exact hdb other
    · exact hdb

theorem renew_served (clock : ℤ) (claim : DestinationClaim) (hdb : HeadsServed now db) :
    HeadsServed now (renew clock db claim).2 := by
  unfold renew
  cases hd : db.eventDestinations.find? claim.clientId with
  | none => exact hdb
  | some d =>
    simp only
    split
    · intro other
      have hold := hdb other
      simp only [setDestination, Table.find?_upsert]
      split
      · next hother =>
        rw [hother, hd] at hold
        cases hhead : (db.eventOutbox.pending other).head? with
        | none =>
          rintro _ ⟨⟩
          rw [← hother, hhead] at hold
          exact hold d rfl
        | some head =>
          rw [← hother, hhead] at hold
          obtain ⟨_, ⟨⟩, hle⟩ := hold
          exact ⟨_, rfl, hle⟩
      · exact hold
    · exact hdb

/-- A settlement changes rows of its own destination only. -/
theorem pending_settled (o : Outbox) (claim : DestinationClaim) (ids : List Uuid)
    (f : Delivery → Delivery) {other : ClientId} (hother : other ≠ claim.clientId) :
    (o.updateWhere (settledBy claim ids) f).pending other = o.pending other := by
  unfold Outbox.pending Outbox.updateWhere
  simp only
  induction o.rows with
  | nil => rfl
  | cons row rest ih =>
    rw [List.map_cons, List.filter_cons, ih, List.filter_cons]
    by_cases hsettled : settledBy claim ids row = true
    · have htarget : row.targetClientId = claim.clientId := by
        simp only [settledBy, Bool.and_eq_true, decide_eq_true_eq] at hsettled
        exact hsettled.1.1
      simp [hsettled, htarget, Ne.symm hother]
    · rw [if_neg hsettled]

theorem settle_served {clock : ℤ} {claim : DestinationClaim} {ids : List Uuid}
    {outcome : Settlement} {settled : Bool} {db' : Channel}
    (h : settle now clock db claim ids outcome = .ok (settled, db')) (hdb : HeadsServed now db) :
    HeadsServed now db' := by
  unfold settle at h
  split at h
  · next hholds =>
    split at h
    · simp at h
    · obtain ⟨-, rfl⟩ := Prod.mk.inj (Except.ok.inj h)
      have hlease : leaseToken { db with
          eventOutbox := db.eventOutbox.updateWhere (settledBy claim ids) (settleRow now outcome) }
          claim.clientId = some claim.token := holdsLease_token hholds
      refine release_served hlease ?_ rfl
      intro other hother
      rw [pending_settled _ _ _ _ hother]
      exact hdb other
  · obtain ⟨-, rfl⟩ := Prod.mk.inj (Except.ok.inj h)
    exact hdb

end Deliveries

/-- A call of the store; `clock` is the clock_timestamp its statements read. -/
inductive StoreCall
  | insertEvents (uuid : ℕ → Uuid) (clientId : ClientId) (events : List OutboundEvent)
  | insertLegacyEvent (clientId : ClientId) (event : LegacyEvent)
  | claim (clock : ℤ) (token : Uuid) (clientId : ClientId)
  | renew (clock : ℤ) (claim : DestinationClaim)
  | settle (clock : ℤ) (claim : DestinationClaim) (ids : List Uuid) (outcome : Settlement)

/-- What one call commits at its time; a failed one only loses sequence values. -/
inductive Committed (now : ℤ) (db : Channel) : StoreCall → Channel → Prop
  | insertEvents {uuid : ℕ → Uuid} {clientId : ClientId} {events : List OutboundEvent}
      {ids : List Uuid} {db' : Channel}
      (hok : DreamSso.insertEvents now uuid db clientId events = .ok (ids, db')) :
      Committed now db (.insertEvents uuid clientId events) db'
  | insertLegacyEvent {clientId : ClientId} {event : LegacyEvent} {fresh : Bool} {db' : Channel}
      (hok : DreamSso.insertLegacyEvent now db clientId event = .ok (fresh, db')) :
      Committed now db (.insertLegacyEvent clientId event) db'
  | claim (clock : ℤ) (token : Uuid) (clientId : ClientId) :
      Committed now db (.claim clock token clientId) (DreamSso.claim now clock token db clientId).2
  | renew (clock : ℤ) (claim : DestinationClaim) :
      Committed now db (.renew clock claim) (DreamSso.renew clock db claim).2
  | settle {clock : ℤ} {claim : DestinationClaim} {ids : List Uuid} {outcome : Settlement}
      {settled : Bool} {db' : Channel}
      (hok : DreamSso.settle now clock db claim ids outcome = .ok (settled, db')) :
      Committed now db (.settle clock claim ids outcome) db'
  | failed (call : StoreCall) (n : ℕ) :
      Committed now db call { db with eventOutbox := db.eventOutbox.skip n }

/-- What a call commits, as a function of the tables. -/
def StoreCall.commit (now : ℤ) (db : Channel) : StoreCall → Option Channel
  | .insertEvents uuid clientId events =>
      (DreamSso.insertEvents now uuid db clientId events).toOption.map Prod.snd
  | .insertLegacyEvent clientId event =>
      (DreamSso.insertLegacyEvent now db clientId event).toOption.map Prod.snd
  | .claim clock token clientId => some (DreamSso.claim now clock token db clientId).2
  | .renew clock held => some (DreamSso.renew clock db held).2
  | .settle clock held ids outcome =>
      (DreamSso.settle now clock db held ids outcome).toOption.map Prod.snd

theorem StoreCall.committed {now : ℤ} {db db' : Channel} {call : StoreCall}
    (h : call.commit now db = some db') : Committed now db call db' := by
  have hok : ∀ {α : Type} {result : Except Failure (α × Channel)},
      result.toOption.map Prod.snd = some db' → ∃ value, result = .ok (value, db') := by
    intro α result hresult
    cases result with
    | error failure => simp [Except.toOption] at hresult
    | ok pair => exact ⟨pair.1, by rw [← Option.some.inj hresult]⟩
  cases call with
  | insertEvents uuid clientId events =>
    obtain ⟨ids, hids⟩ := hok h
    exact .insertEvents hids
  | insertLegacyEvent clientId event =>
    obtain ⟨fresh, hfresh⟩ := hok h
    exact .insertLegacyEvent hfresh
  | claim clock token clientId => exact Option.some.inj h ▸ .claim clock token clientId
  | renew clock claim => exact Option.some.inj h ▸ .renew clock claim
  | settle clock claim ids outcome =>
    obtain ⟨settled, hsettled⟩ := hok h
    exact .settle hsettled

/-- The tables with the time of the last call. -/
structure Store where
  now : ℤ
  db : Channel

/-- The store under a clock that does not go back, from tables without an event. -/
def store : System Store (ℤ × StoreCall) where
  initial := fun s => s.db.eventOutbox.rows = [] ∧ s.db.eventDestinations = ∅
  step := fun s label s' => s.now ≤ label.1 ∧ s'.now = label.1 ∧ Committed label.1 s.db label.2 s'.db

def Store.advance (s : Store) (label : ℤ × StoreCall) : Option Store :=
  if s.now ≤ label.1 then (label.2.commit label.1 s.db).map fun db => ⟨label.1, db⟩ else none

theorem Store.advance_step {s s' : Store} {label : ℤ × StoreCall} (h : s.advance label = some s') :
    store.step s label s' := by
  unfold Store.advance at h
  split at h
  · next hclock =>
    rw [Option.map_eq_some_iff] at h
    obtain ⟨db, hdb, rfl⟩ := h
    exact ⟨hclock, rfl, StoreCall.committed hdb⟩
  · simp at h

/-- The call is no import that holds a head back. -/
def Restful (s : Store) (label : ℤ × StoreCall) : Prop :=
  ∀ clientId event, label.2 = .insertLegacyEvent clientId event →
    ¬ HoldsBack label.1 s.db clientId event

theorem Committed.served {now : ℤ} {db db' : Channel} {call : StoreCall}
    (h : Committed now db call db') (hdb : HeadsServed now db)
    (hrestful : ∀ clientId event, call = .insertLegacyEvent clientId event →
      ¬ HoldsBack now db clientId event) : HeadsServed now db' := by
  cases h with
  | insertEvents hok => exact insertEvents_served hok hdb
  | insertLegacyEvent hok => exact insertLegacyEvent_served hok hdb (hrestful _ _ rfl)
  | claim clock token clientId => exact claim_served clock hdb
  | renew clock claim => exact renew_served clock claim hdb
  | settle hok => exact settle_served hok hdb
  | failed n => exact hdb

theorem store_step {s s' : Store} {label : ℤ × StoreCall} (h : store.step s label s')
    (hs : HeadsServed s.now s.db) (hrestful : Restful s label) : HeadsServed s'.now s'.db := by
  obtain ⟨hclock, hnow, hcommitted⟩ := h
  rw [hnow]
  exact hcommitted.served (hs.mono hclock) hrestful

theorem initial_served {s : Store} (h : store.initial s) : HeadsServed s.now s.db := by
  intro clientId
  rw [Outbox.pending, h.1, h.2]
  simp [Served]

/-- In the states of a run every destination is awake in time. -/
theorem run_served {start s : Store} {trace : List (Event Store (ℤ × StoreCall))}
    (hstart : store.initial start) (hrun : Exec store start trace s)
    (hrestful : ∀ e ∈ trace, Restful e.before e.label) : HeadsServed s.now s.db :=
  hrun.preserves_where (fun _ _ _ hs hr ht => store_step ht hs hr) hrestful (initial_served hstart)

section Due

variable {db : Channel} {clientId : ClientId} {now clock : ℤ} {d : Destination} {head : OutboxRow}

theorem destinations_lists (hd : db.eventDestinations.find? clientId = some d)
    (hdue : d.nextAttemptAt ≤ now) (hfree : leaseFree d clock = true)
    (hhead : (db.eventOutbox.pending clientId).head? = some head) (limit : ℕ) :
    clientId ∈ destinations now clock db limit ∨
      (destinations now clock db limit).length = min (max limit 1) 64 := by
  unfold destinations
  simp only
  generalize hready : (db.eventDestinations.rows.filter fun r =>
    decide (r.2.nextAttemptAt ≤ now) && leaseFree r.2 clock &&
      !(db.eventOutbox.pending r.1).isEmpty) = ready
  have hmem : (clientId, d) ∈ ready := by
    rw [← hready, List.mem_filter]
    refine ⟨(Table.mem_rows_iff _ _ _).mpr hd, ?_⟩
    have hnonempty : (db.eventOutbox.pending clientId).isEmpty = false := by
      cases hpending : db.eventOutbox.pending clientId with
      | nil =>
        rw [hpending] at hhead
        simp at hhead
      | cons row rest => rfl
    simp [hdue, hfree, hnonempty]
  rw [List.length_map, List.length_take, List.length_insertionSort]
  by_cases hfull : min (max limit 1) 64 ≤ ready.length
  · right
    omega
  · left
    rw [List.take_of_length_le (by rw [List.length_insertionSort]; omega)]
    exact List.mem_map.mpr ⟨(clientId, d), (List.mem_insertionSort _).mpr hmem, rfl⟩

theorem claim_takes (hd : db.eventDestinations.find? clientId = some d)
    (hdue : d.nextAttemptAt ≤ now) (hfree : leaseFree d clock = true)
    (hhead : (db.eventOutbox.pending clientId).head? = some head) (hheadDue : head.nextAttemptAt ≤ now)
    (token : Uuid) : (claim now clock token db clientId).1.isSome = true := by
  unfold claim
  rw [hd]
  simp only [hdue, hfree, decide_true, Bool.and_self, if_true]
  cases hpending : db.eventOutbox.pending clientId with
  | nil =>
    rw [hpending] at hhead
    simp at hhead
  | cons row rest =>
    rw [hpending, List.head?_cons, Option.some.injEq] at hhead
    subst hhead
    rw [if_pos]
    · rfl
    · simp [BATCH_MAX, PendingRow.ofRow, hheadDue]

end Due

/-- In every state of a run without such an import, a destination whose oldest
pending row is due is awake, so it is listed and claimed unless it is leased; and
every call leaves it awake no later than the head it has then. -/
theorem due_heads_served {start s : Store} {trace : List (Event Store (ℤ × StoreCall))}
    (hstart : store.initial start) (hrun : Exec store start trace s)
    (hrestful : ∀ e ∈ trace, Restful e.before e.label) :
    (∀ clientId head, (s.db.eventOutbox.pending clientId).head? = some head →
      ∃ d, s.db.eventDestinations.find? clientId = some d ∧
        d.nextAttemptAt ≤ max s.now head.nextAttemptAt) ∧
    ∀ clientId head now clock, s.now ≤ now →
      (s.db.eventOutbox.pending clientId).head? = some head → head.nextAttemptAt ≤ now →
      ∃ d, s.db.eventDestinations.find? clientId = some d ∧ d.nextAttemptAt ≤ now ∧
        (leaseFree d clock = true →
          (∀ limit, clientId ∈ destinations now clock s.db limit ∨
            (destinations now clock s.db limit).length = min (max limit 1) 64) ∧
          ∀ token, (claim now clock token s.db clientId).1.isSome = true) := by
  have hserved := run_served hstart hrun hrestful
  have hheads : ∀ clientId head, (s.db.eventOutbox.pending clientId).head? = some head →
      ∃ d, s.db.eventDestinations.find? clientId = some d ∧
        d.nextAttemptAt ≤ max s.now head.nextAttemptAt := by
    intro clientId head hhead
    have hclient := hserved clientId
    rw [hhead] at hclient
    exact hclient
  refine ⟨hheads, ?_⟩
  intro clientId head now clock hnow hhead hdue
  obtain ⟨d, hd, hle⟩ := hheads clientId head hhead
  have hawake : d.nextAttemptAt ≤ now := by omega
  refine ⟨d, hd, hawake, fun hfree => ⟨?_, ?_⟩⟩
  · exact fun limit => destinations_lists hd hawake hfree hhead limit
  · exact fun token => claim_takes hd hawake hfree hhead hdue token

/-- One client and nothing enqueued. -/
def quietStore : Store where
  now := 0
  db := {
    oauthClients := (∅ : Table ClientId OauthClient).upsert (js "app")
      ⟨js "App", some (js "https://app.example/events"), none⟩
    eventOutbox := Outbox.empty
    eventDestinations := ∅
  }

def rolePayload : Json := Json.ofObject [("sub", .str (js "u"))]

def roleClaim : DestinationClaim where
  clientId := js "app"
  token := Uuid.numbered 9
  uri := some (js "https://app.example/events")
  disabled := false
  failures := 0
  events := []

/-- A role event fails and is tried again in a minute, another event queues up
behind it, and the legacy copy of the first one is imported. -/
def importedOver : List (ℤ × StoreCall) :=
  [(0, .insertEvents (fun _ => Uuid.numbered 1) (js "app")
      [⟨js "account.roles_change", rolePayload, none, some (Uuid.numbered 5).text⟩]),
    (0, .claim 0 (Uuid.numbered 9) (js "app")),
    (1, .settle 1 roleClaim [Uuid.numbered 5] (.retry "http_rejected" 60000)),
    (2, .insertEvents (fun _ => Uuid.numbered 1) (js "app")
      [⟨js "token_claims_change", rolePayload, none, some (Uuid.numbered 6).text⟩]),
    (3, .insertLegacyEvent (js "app") ⟨⟨Uuid.numbered 5, js "account.roles_change", rolePayload⟩,
      0, 0, 0, js "member", .int 0⟩)]

/-- The tables after the import: the head is due, nobody holds a lease, and the
destination sleeps on. -/
theorem importedOver_asleep :
    ∃ s trace, Exec store quietStore trace s ∧ s.now = 3 ∧
      ∃ head, (s.db.eventOutbox.pending (js "app")).head? = some head ∧ head.nextAttemptAt = 2 ∧
        ∃ d, s.db.eventDestinations.find? (js "app") = some d ∧ d.lease = none ∧
          d.nextAttemptAt = 60001 := by
  have hrun : (importedOver.foldlM Store.advance quietStore).any (fun s =>
      decide (s.now = 3) &&
      (s.db.eventOutbox.pending (js "app")).head?.any (fun head => decide (head.nextAttemptAt = 2)) &&
      (s.db.eventDestinations.find? (js "app")).any fun d =>
        decide (d.lease = none) && decide (d.nextAttemptAt = 60001)) = true := by
    decide +kernel
  obtain ⟨s, hs, hstate⟩ := (Option.any_eq_true _ _).mp hrun
  simp only [Bool.and_eq_true, decide_eq_true_eq] at hstate
  obtain ⟨⟨hnow, hhead⟩, hd⟩ := hstate
  obtain ⟨head, hhead, hdue⟩ := (Option.any_eq_true _ _).mp hhead
  obtain ⟨d, hd, hlate⟩ := (Option.any_eq_true _ _).mp hd
  obtain ⟨trace, hexec⟩ := exec_of_foldlM (fun _ _ _ h => Store.advance_step h) importedOver hs
  simp only [Bool.and_eq_true, decide_eq_true_eq] at hlate
  exact ⟨s, trace, hexec, hnow, head, hhead, of_decide_eq_true hdue, d, hd, hlate⟩

theorem quietStore_initial : store.initial quietStore := ⟨rfl, rfl⟩

theorem held_back_by_import :
    ¬ ∀ (start s : Store) (trace : List (Event Store (ℤ × StoreCall))), store.initial start →
      Exec store start trace s → ∀ clientId head d now,
      (s.db.eventOutbox.pending clientId).head? = some head →
      s.db.eventDestinations.find? clientId = some d → s.now ≤ now → head.nextAttemptAt ≤ now →
      leaseFree d now = true → d.nextAttemptAt ≤ now := by
  intro h
  obtain ⟨s, trace, hexec, hnow, head, hhead, hdue, d, hd, hlease, hlate⟩ := importedOver_asleep
  have hawake := h quietStore s trace quietStore_initial hexec (js "app") head d 3 hhead hd
    (by omega) (by omega) (by simp [leaseFree, hlease])
  omega

/-- The import leaves the oldest pending row alone. -/
def sparesHead (s : Store) : ℤ × StoreCall → Bool
  | (_, .insertLegacyEvent clientId event) =>
      (s.db.eventOutbox.pending clientId).head?.all fun head => !decide (Matches event head)
  | _ => true

theorem restful_of_sparesHead {s : Store} {label : ℤ × StoreCall} (h : sparesHead s label = true) :
    Restful s label := by
  rintro clientId event hlabel ⟨head, rest, d, hpending, hmatches, -⟩
  obtain ⟨now, call⟩ := label
  obtain rfl : call = _ := hlabel
  rw [sparesHead, hpending] at h
  simp [hmatches] at h

def stepSparing (s : Store) (label : ℤ × StoreCall) : Option Store :=
  if sparesHead s label then s.advance label else none

/-- Three events queue up; the import closes the second one while the first is claimed, and the
first is settled. -/
def closedBehind : List (ℤ × StoreCall) :=
  [(0, .insertEvents (fun _ => Uuid.numbered 1) (js "app")
      [⟨js "token_claims_change", rolePayload, none, some (Uuid.numbered 6).text⟩,
        ⟨js "account.roles_change", rolePayload, none, some (Uuid.numbered 5).text⟩,
        ⟨js "token_claims_change", rolePayload, none, some (Uuid.numbered 7).text⟩]),
    (1, .claim 1 (Uuid.numbered 9) (js "app")),
    (2, .insertLegacyEvent (js "app") ⟨⟨Uuid.numbered 5, js "account.roles_change", rolePayload⟩,
      0, 0, 0, js "member", .int 0⟩),
    (3, .settle 3 roleClaim [Uuid.numbered 6] .delivered)]

/-- The third event is the head then, and is claimed at once. -/
theorem due_heads_served_behind :
    ∃ s trace head, Exec store quietStore trace s ∧ s.now = 3 ∧
      (s.db.eventOutbox.pending (js "app")).head? = some head ∧ head.id = Uuid.numbered 7 ∧
      ∃ d, s.db.eventDestinations.find? (js "app") = some d ∧ d.nextAttemptAt ≤ 3 ∧
        ∀ token, (claim 3 3 token s.db (js "app")).1.isSome = true := by
  have hrun : (closedBehind.foldlM stepSparing quietStore).any (fun s => decide (s.now = 3) &&
      (s.db.eventOutbox.pending (js "app")).head?.any (fun head =>
        decide (head.id = Uuid.numbered 7) && decide (head.nextAttemptAt ≤ 3)) &&
      (s.db.eventDestinations.find? (js "app")).any fun d => leaseFree d 3) = true := by
    decide +kernel
  obtain ⟨s, hs, hstate⟩ := (Option.any_eq_true _ _).mp hrun
  simp only [Bool.and_eq_true, decide_eq_true_eq] at hstate
  obtain ⟨⟨hnow, hhead⟩, hfree⟩ := hstate
  obtain ⟨head, hhead, hboth⟩ := (Option.any_eq_true _ _).mp hhead
  simp only [Bool.and_eq_true, decide_eq_true_eq] at hboth
  obtain ⟨trace, hexec, hrestful⟩ := exec_of_foldlM_where (T := store) (G := Restful)
    (fun s label s' hstep => by
      unfold stepSparing at hstep
      split at hstep
      · next hspares => exact ⟨Store.advance_step hstep, restful_of_sparesHead hspares⟩
      · cases hstep) closedBehind hs
  obtain ⟨d, hd, hawake, hserves⟩ := (due_heads_served quietStore_initial hexec hrestful).2
    (js "app") head 3 3 (by omega) hhead hboth.2
  obtain ⟨d', hd', hlease⟩ := (Option.any_eq_true _ _).mp hfree
  obtain rfl := Option.some.inj (hd.symm.trans hd')
  exact ⟨s, trace, head, hexec, hnow, hhead, hboth.1, d, hd, hawake, (hserves hlease).2⟩

end DreamSso.DueHeads
