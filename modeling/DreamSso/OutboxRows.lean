import DreamSso.OutboxStore

/-!
What each statement of the outbox store does to the stored rows and to the lease
of a destination. Inserts only append rows beyond the sequence values drawn
before; the other statements keep the fixed columns of every row.
-/
namespace DreamSso

open JsStrings JsonValues KeyedTables StoredJson Fallible

/-- The token of the stored lease of a destination, expired or not. -/
def leaseToken (db : Channel) (clientId : ClientId) : Option Uuid :=
  (db.eventDestinations.find? clientId).bind fun d => d.lease.map fun l => l.token

theorem holdsLease_token {db : Channel} {claim : DestinationClaim} {clock : ℤ}
    (h : holdsLease db claim clock = true) : leaseToken db claim.clientId = some claim.token := by
  unfold holdsLease at h
  unfold leaseToken
  cases hd : db.eventDestinations.find? claim.clientId with
  | none => simp [hd] at h
  | some d =>
    cases hl : d.lease with
    | none => simp [hd, hl] at h
    | some l =>
      simp only [hd, hl, Bool.and_eq_true, decide_eq_true_eq] at h
      simp [hl, h.1]

theorem leaseToken_setDestination (db : Channel) (clientId other : ClientId) (d : Destination) :
    leaseToken (setDestination db clientId d) other =
      if other = clientId then d.lease.map fun l => l.token else leaseToken db other := by
  unfold leaseToken setDestination
  simp only [Table.find?_upsert]
  split <;> rfl

theorem leaseToken_congr {db db' : Channel} (h : db'.eventDestinations = db.eventDestinations)
    (clientId : ClientId) : leaseToken db' clientId = leaseToken db clientId := by
  unfold leaseToken
  rw [h]

/-- Rows added to an outbox, all beyond the sequence values drawn before. -/
structure Appended (P : OutboxRow → Prop) (o o' : Outbox) : Prop where
  drawn : o.nextSequence ≤ o'.nextSequence
  added : ∃ extra, o'.rows = o.rows ++ extra ∧ ∀ r ∈ extra, P r ∧ o.nextSequence ≤ r.sequence

theorem Appended.refl (P : OutboxRow → Prop) (o : Outbox) : Appended P o o :=
  ⟨Nat.le_refl _, [], by simp, by simp⟩

theorem Appended.trans {P : OutboxRow → Prop} {o o' o'' : Outbox} (h : Appended P o o')
    (h' : Appended P o' o'') : Appended P o o'' := by
  obtain ⟨extra, hrows, hextra⟩ := h.added
  obtain ⟨extra', hrows', hextra'⟩ := h'.added
  refine ⟨Nat.le_trans h.drawn h'.drawn, extra ++ extra', ?_, ?_⟩
  · rw [hrows', hrows, List.append_assoc]
  · intro r hr
    rcases List.mem_append.mp hr with hfirst | hsecond
    · exact hextra r hfirst
    · exact ⟨(hextra' r hsecond).1, Nat.le_trans h.drawn (hextra' r hsecond).2⟩

theorem Appended.old {P : OutboxRow → Prop} {o o' : Outbox} (h : Appended P o o')
    {r : OutboxRow} (hr : r ∈ o.rows) : r ∈ o'.rows := by
  obtain ⟨extra, hrows, -⟩ := h.added
  rw [hrows]
  exact List.mem_append_left _ hr

theorem Appended.new {P : OutboxRow → Prop} {o o' : Outbox} (h : Appended P o o')
    {r : OutboxRow} (hr : r ∈ o'.rows) : r ∈ o.rows ∨ P r ∧ o.nextSequence ≤ r.sequence := by
  obtain ⟨extra, hrows, hextra⟩ := h.added
  rw [hrows] at hr
  exact (List.mem_append.mp hr).imp_right (hextra r)

theorem skip_appended (P : OutboxRow → Prop) (o : Outbox) (n : ℕ) : Appended P o (o.skip n) :=
  ⟨Nat.le_add_right _ _, [], by simp [Outbox.skip], by simp⟩

theorem insert?_appended {P : OutboxRow → Prop} {o o' : Outbox} {row : OutboxRow}
    (h : o.insert? row = some o') (hrow : P { row with sequence := o.nextSequence }) :
    Appended P o o' := by
  obtain ⟨hrows, hnext⟩ := Outbox.insert?_rows h
  refine ⟨by omega, _, hrows, ?_⟩
  intro r hr
  rw [List.mem_singleton] at hr
  subst hr
  exact ⟨hrow, Nat.le_refl _⟩

theorem lockDestination_ok {now : ℤ} {db locked : Channel} {clientId : ClientId}
    (h : lockDestination now db clientId = .ok locked) :
    locked.eventOutbox = db.eventOutbox ∧
      ∀ other, leaseToken locked other = leaseToken db other := by
  unfold lockDestination at h
  split at h
  · simp only [Except.ok.injEq] at h
    subst h
    exact ⟨rfl, fun _ => rfl⟩
  · next hnew =>
    split at h
    · simp only [Except.ok.injEq] at h
      subst h
      refine ⟨rfl, ?_⟩
      intro other
      change leaseToken (setDestination db clientId ⟨none, now, 0⟩) other = _
      rw [leaseToken_setDestination]
      split
      · next hother =>
        have habsent : db.eventDestinations.find? clientId = none := by
          simpa [Table.contains] using hnew
        simp [leaseToken, hother, habsent]
      · rfl
    · simp at h

/-- The event a stored row puts on the wire. -/
def OutboxRow.wire (r : OutboxRow) : WireEvent := ⟨r.id, r.kind, r.payload⟩

/-- A row as `insertEvents` stores it: untried, and small enough to be sent alone. -/
structure Enqueued (clientId : ClientId) (r : OutboxRow) : Prop where
  target : r.targetClientId = clientId
  status : r.status = .pending
  attempts : r.attempts = 0
  fits : eventBytes [r.wire] ≤ EVENT_BYTES_MAX

theorem eventBytes_single (e : WireEvent) :
    eventBytes [e] = byteLength e.json.stringify + 2 := by
  unfold eventBytes
  rw [Json.stringify_arr_bytes]
  simp

theorem json_bytes (e : WireEvent) : byteLength e.json.stringify =
    byteLength (quote e.id.text) + byteLength (quote e.type) + byteLength e.payload.stringify +
      26 := by
  unfold WireEvent.json Json.ofObject
  rw [Json.stringify_obj_bytes]
  simp only [List.map_cons, List.map_nil, List.sum_cons, List.sum_nil, List.length_cons,
    List.length_nil, Json.memberBytes, Json.stringify]
  have hid : byteLength (quote (js "id")) = 4 := by decide
  have htype : byteLength (quote (js "type")) = 6 := by decide
  have hpayload : byteLength (quote (js "payload")) = 9 := by decide
  omega

/-- Reading an event back from its columns does not lengthen it: jsonb only
reorders the keys of the payload, and text replaces lone surrogates. -/
theorem stored_bytes {id : Uuid} {kind type : JsString} {payload stored : Json}
    (hkind : textInput type = some kind) (hpayload : jsonbInput payload = some stored) :
    eventBytes [⟨id, kind, stored⟩] ≤ eventBytes [⟨id, type, payload⟩] := by
  have hk := textInput_bytes hkind
  have hp := jsonbInput_bytes hpayload
  rw [eventBytes_single, eventBytes_single, json_bytes, json_bytes]
  simp only
  omega

theorem normalizedEvent_fits {id : Uuid} {event : OutboundEvent} {e : NormalizedEvent}
    (h : normalizedEvent id event = .ok e) : eventBytes [e.toWireEvent] ≤ EVENT_BYTES_MAX := by
  unfold normalizedEvent at h
  simp only at h
  split at h
  · split at h
    · simp at h
    · split at h
      · simp at h
      · next hfit =>
        simp only [Except.ok.injEq] at h
        subst h
        simpa using hfit
  · simp at h

theorem normalizedEvent_ok {id : Uuid} {event : OutboundEvent} {e : NormalizedEvent}
    (h : normalizedEvent id event = .ok e) : e.type = event.type ∧ e.payload = event.payload ∧
      bigintText? (event.version.getD (js "0")) = some e.version := by
  unfold normalizedEvent at h
  simp only at h
  split at h
  · next hversion =>
    split at h
    · simp at h
    · split at h
      · simp at h
      · simp only [Except.ok.injEq] at h
        subst h
        exact ⟨rfl, rfl, hversion⟩
  · simp at h

theorem normalizeAll_fits {uuid : ℕ → Uuid} {sequence : ℕ} {events : List OutboundEvent}
    {normalized : List NormalizedEvent} (h : normalizeAll uuid sequence events = .ok normalized) :
    ∀ e ∈ normalized, eventBytes [e.toWireEvent] ≤ EVENT_BYTES_MAX := by
  induction events generalizing sequence normalized with
  | nil =>
    simp only [normalizeAll, Except.ok.injEq] at h
    simp [← h]
  | cons event rest ih =>
    rw [normalizeAll, bind_eq_ok] at h
    obtain ⟨first, hfirst, h⟩ := h
    rw [bind_eq_ok] at h
    obtain ⟨others, hothers, h⟩ := h
    simp only [Except.ok.injEq] at h
    intro e he
    rw [← h, List.mem_cons] at he
    rcases he with rfl | he
    · exact normalizedEvent_fits hfirst
    · exact ih hothers e he

theorem insertEvent_ok {now : ℤ} {clientId : ClientId} {db db' : Channel} {event : NormalizedEvent}
    (hfits : eventBytes [event.toWireEvent] ≤ EVENT_BYTES_MAX)
    (h : insertEvent now clientId db event = .ok db') :
    db'.eventDestinations = db.eventDestinations ∧
      Appended (Enqueued clientId) db.eventOutbox db'.eventOutbox := by
  unfold insertEvent at h
  split at h
  · next kind payload hkind hpayload =>
    split at h
    · next outbox hinsert =>
      simp only [Except.ok.injEq] at h
      subst h
      exact ⟨rfl, insert?_appended hinsert
        ⟨rfl, rfl, rfl, Nat.le_trans (stored_bytes hkind hpayload) hfits⟩⟩
    · split at h
      · simp only [Except.ok.injEq] at h
        subst h
        exact ⟨rfl, skip_appended _ _ 1⟩
      · simp at h
  · simp at h

theorem insertEvents_ok {now : ℤ} {uuid : ℕ → Uuid} {db db' : Channel} {clientId : ClientId}
    {events : List OutboundEvent} {ids : List Uuid}
    (h : insertEvents now uuid db clientId events = .ok (ids, db')) :
    (∀ other, leaseToken db' other = leaseToken db other) ∧
      Appended (Enqueued clientId) db.eventOutbox db'.eventOutbox := by
  unfold insertEvents at h
  rw [bind_eq_ok] at h
  obtain ⟨normalized, hnormalized, h⟩ := h
  split at h
  · simp only [Except.ok.injEq, Prod.mk.injEq] at h
    obtain ⟨-, rfl⟩ := h
    exact ⟨fun _ => rfl, Appended.refl _ _⟩
  · rw [bind_eq_ok] at h
    obtain ⟨locked, hlocked, h⟩ := h
    rw [bind_eq_ok] at h
    obtain ⟨written, hwritten, h⟩ := h
    simp only [Except.ok.injEq, Prod.mk.injEq] at h
    obtain ⟨-, rfl⟩ := h
    obtain ⟨houtbox, htoken⟩ := lockDestination_ok hlocked
    have hfold : written.eventDestinations = locked.eventDestinations ∧
        Appended (Enqueued clientId) locked.eventOutbox written.eventOutbox := by
      refine foldlM_preserves (fun s => s.eventDestinations = locked.eventDestinations ∧
        Appended (Enqueued clientId) locked.eventOutbox s.eventOutbox) ?_ hwritten
        ⟨rfl, Appended.refl _ _⟩
      intro e he s t hs hst
      obtain ⟨hdest, happ⟩ := insertEvent_ok (normalizeAll_fits hnormalized e he) hst
      exact ⟨hdest.trans hs.1, hs.2.trans happ⟩
    refine ⟨?_, ?_⟩
    · intro other
      rw [leaseToken_congr hfold.1, htoken]
    · rw [← houtbox]
      exact hfold.2

/-- A change of the outbox that keeps every row, up to `R`, unless it was already
delivered, and whose new rows satisfy `P`. -/
structure Rewrites (P : OutboxRow → Prop) (R : OutboxRow → OutboxRow → Prop) (o o' : Outbox) :
    Prop where
  drawn : o.nextSequence ≤ o'.nextSequence
  source : ∀ r' ∈ o'.rows, (∃ r ∈ o.rows, R r r') ∨ P r' ∧ o.nextSequence ≤ r'.sequence
  target : ∀ r ∈ o.rows, (∃ r' ∈ o'.rows, R r r') ∨ r.status = .delivered

theorem Rewrites.refl {P : OutboxRow → Prop} {R : OutboxRow → OutboxRow → Prop}
    (hrefl : ∀ r, R r r) (o : Outbox) : Rewrites P R o o :=
  ⟨Nat.le_refl _, fun r hr => .inl ⟨r, hr, hrefl r⟩, fun r hr => .inl ⟨r, hr, hrefl r⟩⟩

theorem Rewrites.mono {P Q : OutboxRow → Prop} {R S : OutboxRow → OutboxRow → Prop}
    {o o' : Outbox} (h : Rewrites P R o o') (hP : ∀ r, P r → Q r)
    (hR : ∀ r r', R r r' → S r r') : Rewrites Q S o o' where
  drawn := h.drawn
  source := fun r' hr' => (h.source r' hr').imp
    (fun ⟨r, hr, hrr⟩ => ⟨r, hr, hR r r' hrr⟩) fun ⟨hp, hseq⟩ => ⟨hP r' hp, hseq⟩
  target := fun r hr => (h.target r hr).imp_left fun ⟨r', hr', hrr⟩ => ⟨r', hr', hR r r' hrr⟩

theorem Appended.rewrites {P : OutboxRow → Prop} {R : OutboxRow → OutboxRow → Prop} {o o' : Outbox}
    (h : Appended P o o') (hrefl : ∀ r, R r r) : Rewrites P R o o' where
  drawn := h.drawn
  source := fun r' hr' => (h.new hr').imp_left fun hold => ⟨r', hold, hrefl r'⟩
  target := fun r hr => .inl ⟨r, h.old hr, hrefl r⟩

theorem updateWhere_rewrites {P : OutboxRow → Prop} {R : OutboxRow → OutboxRow → Prop}
    (o : Outbox) (p : OutboxRow → Bool) (f : Delivery → Delivery)
    (hkeep : ∀ r, p r = false → R r r)
    (hchange : ∀ r ∈ o.rows, p r = true → R r { r with toDelivery := f r.toDelivery }) :
    Rewrites P R o (o.updateWhere p f) := by
  have hrow : ∀ r ∈ o.rows, R r (if p r then { r with toDelivery := f r.toDelivery } else r) := by
    intro r hr
    split
    · next hp => exact hchange r hr hp
    · next hp => exact hkeep r (by simpa using hp)
  refine ⟨Nat.le_refl _, ?_, ?_⟩
  · intro r' hr'
    obtain ⟨r, hr, rfl⟩ := (o.mem_updateWhere p f r').mp hr'
    exact .inl ⟨r, hr, hrow r hr⟩
  · intro r hr
    exact .inl ⟨_, (o.mem_updateWhere p f _).mpr ⟨r, hr, rfl⟩, hrow r hr⟩

theorem Rewrites.ofSkip {P : OutboxRow → Prop} {R : OutboxRow → OutboxRow → Prop} {o o' : Outbox}
    {n : ℕ} (h : Rewrites P R (o.skip n) o') : Rewrites P R o o' where
  drawn := Nat.le_trans (Nat.le_add_right _ n) h.drawn
  source := fun r' hr' => (h.source r' hr').imp_right fun ⟨hp, hseq⟩ =>
    ⟨hp, Nat.le_trans (Nat.le_add_right _ n) hseq⟩
  target := h.target

/-- A pending row that a legacy import closes because a fresh role event replaces it. -/
structure Replaced (r r' : OutboxRow) : Prop where
  stored : r'.toStoredEvent = r.toStoredEvent
  status : r'.status = .dead
  code : r'.lastErrorCode = some "legacy_role_replaced"
  attempts : r'.attempts = r.attempts

theorem insertLegacyEvent_ok {now : ℤ} {db db' : Channel} {clientId : ClientId}
    {event : LegacyEvent} {fresh : Bool}
    (h : insertLegacyEvent now db clientId event = .ok (fresh, db')) :
    (∀ other, leaseToken db' other = leaseToken db other) ∧
      Rewrites (fun r => r.targetClientId = clientId ∧ r.status ≠ .delivered)
        (fun r r' => r' = r ∨ Replaced r r') db.eventOutbox db'.eventOutbox := by
  unfold insertLegacyEvent at h
  rw [bind_eq_ok] at h
  obtain ⟨locked, hlocked, h⟩ := h
  obtain ⟨houtbox, htoken⟩ := lockDestination_ok hlocked
  rw [← houtbox]
  have hsame : ∀ r : OutboxRow, r = r ∨ Replaced r r := fun r => .inl rfl
  simp only at h
  split at h
  · next kind payload member hkind hpayload hmember =>
    split at h
    · next outbox hinsert =>
      simp only [Except.ok.injEq, Prod.mk.injEq] at h
      obtain ⟨-, rfl⟩ := h
      refine ⟨htoken, (insert?_appended hinsert ⟨rfl, ?_⟩).rewrites hsame⟩
      simp only
      split <;> simp
    · split at h
      · simp at h
      · next existing hexisting =>
        split at h
        · simp only [Except.ok.injEq, Prod.mk.injEq] at h
          obtain ⟨-, rfl⟩ := h
          refine ⟨htoken, @Rewrites.ofSkip _ _ _ _ 1 ?_⟩
          dsimp only
          refine updateWhere_rewrites _ _ _ ?_ ?_
          · exact fun r _ => .inl rfl
          · exact fun r _ _ => .inr ⟨rfl, rfl, rfl, rfl⟩
        · simp only [Except.ok.injEq, Prod.mk.injEq] at h
          obtain ⟨-, rfl⟩ := h
          exact ⟨htoken, (skip_appended _ _ 1).rewrites hsame⟩
  · simp at h

theorem cleanupArchive_rewrites (P : OutboxRow → Prop) (now : ℤ) (db : Channel) :
    Rewrites P (fun r r' => r' = r) db.eventOutbox (cleanupArchive now db).eventOutbox := by
  refine ⟨Nat.le_refl _, ?_, ?_⟩
  · intro r hr
    exact .inl ⟨r, ((db.eventOutbox.mem_deleteWhere _ r).mp hr).1, rfl⟩
  · intro r hr
    by_cases hbatch : r.id ∈ ((db.eventOutbox.rows.filter (archivable now)).take 1000).map
        fun q => q.id
    · right
      obtain ⟨q, hq, hid⟩ := List.mem_map.mp hbatch
      obtain ⟨hmem, harchive⟩ := List.mem_filter.mp (List.mem_of_mem_take hq)
      rw [← db.eventOutbox.row_ext hmem hr hid]
      simp only [archivable, Bool.and_eq_true, decide_eq_true_eq] at harchive
      exact harchive.1
    · exact .inl ⟨r, (db.eventOutbox.mem_deleteWhere _ r).mpr ⟨hr, by simpa using hbatch⟩, rfl⟩

@[simp] theorem setDestination_eventOutbox (db : Channel) (clientId : ClientId) (d : Destination) :
    (setDestination db clientId d).eventOutbox = db.eventOutbox := rfl

@[simp] theorem release_eventOutbox (now : ℤ) (db : Channel) (clientId : ClientId) (token : Uuid)
    (failures : ℕ) : (release now db clientId token failures).eventOutbox = db.eventOutbox := by
  unfold release
  split
  · rfl
  · split <;> rfl

theorem release_token (now : ℤ) (db : Channel) (clientId other : ClientId) (token : Uuid)
    (failures : ℕ) : leaseToken (release now db clientId token failures) other =
      if other = clientId ∧ leaseToken db clientId = some token then none
      else leaseToken db other := by
  unfold release
  cases hd : db.eventDestinations.find? clientId with
  | none => simp [leaseToken, hd]
  | some d =>
    have htoken : leaseToken db clientId = d.lease.map fun l => l.token := by simp [leaseToken, hd]
    simp only
    split
    · next hlease =>
      rw [leaseToken_setDestination, htoken]
      cases hl : d.lease with
      | none => simp [hl] at hlease
      | some l =>
        have heq : l.token = token := by simpa [hl] using hlease
        simp [heq]
    · next hlease =>
      have hne : ¬leaseToken db clientId = some token := by
        rw [htoken]
        cases hl : d.lease with
        | none => simp
        | some l => simpa [hl] using hlease
      simp [hne]

theorem renew_eventOutbox (clock : ℤ) (db : Channel) (claim : DestinationClaim) :
    (renew clock db claim).2.eventOutbox = db.eventOutbox := by
  unfold renew
  split
  · rfl
  · simp only
    split <;> rfl

theorem renew_token (clock : ℤ) (db : Channel) (claim : DestinationClaim) (other : ClientId) :
    leaseToken (renew clock db claim).2 other = leaseToken db other := by
  unfold renew
  split
  · rfl
  · simp only
    split
    · next hheld =>
      simp only [Bool.and_eq_true] at hheld
      rw [leaseToken_setDestination]
      split
      · next hother => rw [hother, holdsLease_token hheld.1, Option.map_some]
      · rfl
    · rfl

theorem renew_stale {clock : ℤ} {db : Channel} {claim : DestinationClaim}
    (h : holdsLease db claim clock = false) : renew clock db claim = (false, db) := by
  unfold renew
  split
  · rfl
  · simp [h]

/-- What a settlement with a held lease does to a row. -/
inductive Settled (now : ℤ) (claim : DestinationClaim) (ids : List Uuid) (outcome : Settlement)
    (r : OutboxRow) : OutboxRow → Prop
  | kept (hrow : settledBy claim ids r = false) : Settled now claim ids outcome r r
  | changed (hrow : settledBy claim ids r = true) :
      Settled now claim ids outcome r { r with toDelivery := settleRow now outcome r.toDelivery }

theorem settle_stale {now clock : ℤ} {db : Channel} {claim : DestinationClaim}
    (h : holdsLease db claim clock = false) (ids : List Uuid) (outcome : Settlement) :
    settle now clock db claim ids outcome = .ok (false, db) := by
  unfold settle
  simp [h]

theorem settle_ok {now clock : ℤ} {db db' : Channel} {claim : DestinationClaim} {ids : List Uuid}
    {outcome : Settlement} (hheld : holdsLease db claim clock = true) {settled : Bool}
    (h : settle now clock db claim ids outcome = .ok (settled, db')) :
    settled = true ∧ Rewrites (fun _ => False) (Settled now claim ids outcome) db.eventOutbox
        db'.eventOutbox ∧
      ∀ other, leaseToken db' other =
        if other = claim.clientId then none else leaseToken db other := by
  unfold settle at h
  rw [if_pos hheld] at h
  split at h
  · simp at h
  · simp only [Except.ok.injEq, Prod.mk.injEq] at h
    obtain ⟨hsettled, rfl⟩ := h
    refine ⟨hsettled.symm, ?_, ?_⟩
    · rw [release_eventOutbox]
      exact updateWhere_rewrites _ _ _ (fun r hr => .kept hr) fun r _ hr => .changed hr
    · intro other
      have hsame : ∀ o' client, leaseToken { db with eventOutbox := o' } client =
          leaseToken db client := fun _ _ => rfl
      rw [release_token, hsame, holdsLease_token hheld, hsame _ other]
      simp

/-- A claim returned to a worker: its token is the stored lease, and its events
are the oldest pending rows of the destination, the first of them due. -/
structure Claimed (now : ℤ) (token : Uuid) (db db' : Channel) (clientId : ClientId)
    (claim : DestinationClaim) : Prop where
  client : claim.clientId = clientId
  token_eq : claim.token = token
  events : claim.events =
    ((db.eventOutbox.pending clientId).take BATCH_MAX).map (PendingRow.ofRow now)
  stored : leaseToken db' clientId = some token

theorem claim_eventOutbox (now clock : ℤ) (token : Uuid) (db : Channel) (clientId : ClientId) :
    (claim now clock token db clientId).2.eventOutbox = db.eventOutbox := by
  unfold claim
  split
  · rfl
  · split
    · simp only
      split
      · rfl
      · simp
    · rfl

theorem claim_token (now clock : ℤ) (token : Uuid) (db : Channel) (clientId other : ClientId) :
    leaseToken (claim now clock token db clientId).2 other = leaseToken db other ∨
      leaseToken (claim now clock token db clientId).2 other = none ∨
      other = clientId ∧ leaseToken (claim now clock token db clientId).2 other = some token := by
  unfold claim
  split
  · exact .inl rfl
  · next d hd =>
    split
    · simp only
      have hset := leaseToken_setDestination db clientId other
        { d with lease := some ⟨token, clock + LEASE_MS⟩ }
      split
      · by_cases hother : other = clientId
        · exact .inr (.inr ⟨hother, by rw [hset]; simp [hother]⟩)
        · exact .inl (by rw [hset]; simp [hother])
      · rw [release_token]
        split
        · exact .inr (.inl rfl)
        · next hne =>
          have hself := leaseToken_setDestination db clientId clientId
            { d with lease := some ⟨token, clock + LEASE_MS⟩ }
          rw [hself] at hne
          refine .inl ?_
          rw [hset]
          split
          · next hother => simp [hother] at hne
          · rfl
    · exact .inl rfl

theorem claim_some {now clock : ℤ} {token : Uuid} {db db' : Channel} {clientId : ClientId}
    {c : DestinationClaim} (h : claim now clock token db clientId = (some c, db')) :
    Claimed now token db db' clientId c := by
  unfold claim at h
  split at h
  · simp at h
  · next d hd =>
    split at h
    · simp only at h
      split at h
      · simp only [Prod.mk.injEq, Option.some.injEq] at h
        obtain ⟨rfl, rfl⟩ := h
        refine ⟨rfl, rfl, rfl, ?_⟩
        rw [leaseToken_setDestination]
        simp
      · simp at h
    · simp at h

/-- What identifies an event besides its id and its place in the sequence. -/
abbrev EventContent := JsString × ClientId × Json × ℕ

def OutboxRow.content (r : OutboxRow) : EventContent :=
  (r.kind, r.targetClientId, r.payload, r.version)

/-- The content a normalized event is stored with. -/
def storedContent (clientId : ClientId) (event : NormalizedEvent) : Option EventContent :=
  (textInput event.type).bind fun kind =>
    (jsonbInput event.payload).map fun payload => (kind, clientId, payload, event.version)

theorem insertEvent_content {now : ℤ} {clientId : ClientId} {db db' : Channel}
    {event : NormalizedEvent} (h : insertEvent now clientId db event = .ok db') :
    db'.oauthClients = db.oauthClients ∧ ∃ content, storedContent clientId event = some content ∧
      ((∃ row, row.content = content ∧ row.status = .pending ∧
          db'.eventOutbox.rows = db.eventOutbox.rows ++ [row]) ∨
        db'.eventOutbox.rows = db.eventOutbox.rows ∧
          ∃ r ∈ db.eventOutbox.rows, r.content = content) := by
  unfold insertEvent at h
  split at h
  · next kind payload hkind hpayload =>
    have hcontent : storedContent clientId event = some (kind, clientId, payload, event.version) := by
      simp [storedContent, hkind, hpayload]
    split at h
    · next outbox hinsert =>
      simp only [Except.ok.injEq] at h
      subst h
      exact ⟨rfl, _, hcontent, .inl ⟨_, rfl, rfl, (Outbox.insert?_rows hinsert).1⟩⟩
    · split at h
      · next hany =>
        simp only [Except.ok.injEq] at h
        subst h
        rw [List.any_eq_true] at hany
        obtain ⟨r, hr, hsame⟩ := hany
        simp only [Bool.and_eq_true, decide_eq_true_eq] at hsame
        obtain ⟨⟨⟨⟨-, hk⟩, ht⟩, hp⟩, hv⟩ := hsame
        exact ⟨rfl, _, hcontent, .inr ⟨rfl, r, hr, by rw [OutboxRow.content, hk, ht, hp, hv]⟩⟩
      · simp at h
  · simp at h

/-- Events whose contents are new and distinct are all stored, in their order. -/
theorem insertAll_content {now : ℤ} {clientId : ClientId} {events : List NormalizedEvent}
    {db db' : Channel} (h : events.foldlM (insertEvent now clientId) db = .ok db') :
    db'.oauthClients = db.oauthClients ∧
      ∀ contents, events.map (storedContent clientId) = contents.map some → contents.Nodup →
        (∀ r ∈ db.eventOutbox.rows, r.content ∉ contents) →
        ∃ extra, db'.eventOutbox.rows = db.eventOutbox.rows ++ extra ∧
          extra.map OutboxRow.content = contents ∧ ∀ r ∈ extra, r.status = .pending := by
  induction events generalizing db with
  | nil =>
    simp only [List.foldlM_nil, pure, Except.pure, Except.ok.injEq] at h
    subst h
    refine ⟨rfl, ?_⟩
    intro contents hcontents _ _
    have hnil : contents = [] := by simpa using hcontents.symm
    exact ⟨[], by simp, by simp [hnil], by simp⟩
  | cons event rest ih =>
    rw [List.foldlM_cons, bind_eq_ok] at h
    obtain ⟨mid, hfirst, hrest⟩ := h
    obtain ⟨hclients, content, hcontent, hcase⟩ := insertEvent_content hfirst
    obtain ⟨hclients', hall⟩ := ih hrest
    refine ⟨hclients'.trans hclients, ?_⟩
    intro contents hmap hnodup hfresh
    cases contents with
    | nil => simp at hmap
    | cons first others =>
      simp only [List.map_cons, List.cons.injEq] at hmap
      obtain ⟨hhead, htail⟩ := hmap
      obtain rfl : content = first := Option.some.inj (hcontent.symm.trans hhead)
      obtain ⟨hnew, hothers⟩ := List.nodup_cons.mp hnodup
      rcases hcase with ⟨row, hrow, hstatus, hrows⟩ | ⟨-, r, hr, hsame⟩
      · have hmid : ∀ r ∈ mid.eventOutbox.rows, r.content ∉ others := by
          intro r hr hmem
          rw [hrows] at hr
          rcases List.mem_append.mp hr with hold | hlast
          · exact hfresh r hold (List.mem_cons_of_mem _ hmem)
          · rw [List.mem_singleton] at hlast
            subst hlast
            exact hnew (hrow ▸ hmem)
        obtain ⟨extra, hextra, hcontents, hpending⟩ := hall others htail hothers hmid
        refine ⟨row :: extra, ?_, ?_, ?_⟩
        · rw [hextra, hrows, List.append_assoc]
          rfl
        · simp [hrow, hcontents]
        · intro r hr
          rcases List.mem_cons.mp hr with rfl | hr
          · exact hstatus
          · exact hpending r hr
      · exact (hfresh r hr (hsame ▸ List.mem_cons_self)).elim

/-- The rows a committed enqueue adds when none of its contents is stored yet. -/
theorem insertEvents_content {now : ℤ} {uuid : ℕ → Uuid} {db db' : Channel} {clientId : ClientId}
    {events : List OutboundEvent} {ids : List Uuid}
    (h : insertEvents now uuid db clientId events = .ok (ids, db')) :
    db'.oauthClients = db.oauthClients ∧ ∃ normalized,
      normalizeAll uuid db.eventOutbox.nextSequence events = .ok normalized ∧
      ∀ contents, normalized.map (storedContent clientId) = contents.map some → contents.Nodup →
        (∀ r ∈ db.eventOutbox.rows, r.content ∉ contents) →
        ∃ extra, db'.eventOutbox.rows = db.eventOutbox.rows ++ extra ∧
          extra.map OutboxRow.content = contents ∧ ∀ r ∈ extra, r.status = .pending := by
  unfold insertEvents at h
  rw [bind_eq_ok] at h
  obtain ⟨normalized, hnormalized, h⟩ := h
  split at h
  · next hempty =>
    simp only [Except.ok.injEq, Prod.mk.injEq] at h
    obtain ⟨-, rfl⟩ := h
    refine ⟨rfl, normalized, hnormalized, ?_⟩
    intro contents hcontents _ _
    have hnil : normalized = [] := by simpa using hempty
    have hnone : contents = [] := by simpa [hnil] using hcontents.symm
    exact ⟨[], by simp, by simp [hnone], by simp⟩
  · rw [bind_eq_ok] at h
    obtain ⟨locked, hlocked, h⟩ := h
    rw [bind_eq_ok] at h
    obtain ⟨written, hwritten, h⟩ := h
    simp only [Except.ok.injEq, Prod.mk.injEq] at h
    obtain ⟨-, rfl⟩ := h
    obtain ⟨hclients, hall⟩ := insertAll_content hwritten
    obtain ⟨houtbox, -⟩ := lockDestination_ok hlocked
    have hlockedClients : locked.oauthClients = db.oauthClients := by
      unfold lockDestination at hlocked
      split at hlocked
      · exact (Except.ok.inj hlocked) ▸ rfl
      · split at hlocked
        · exact (Except.ok.inj hlocked) ▸ rfl
        · simp at hlocked
    rw [houtbox] at hall
    exact ⟨hclients.trans hlockedClients, normalized, hnormalized, hall⟩

/-- A row that an enqueue adds holds one of its events. -/
theorem insertEvents_adds {now : ℤ} {uuid : ℕ → Uuid} {db db' : Channel} {clientId : ClientId}
    {events : List OutboundEvent} {ids : List Uuid}
    (h : insertEvents now uuid db clientId events = .ok (ids, db')) :
    ∃ normalized, normalizeAll uuid db.eventOutbox.nextSequence events = .ok normalized ∧
      ∀ r ∈ db'.eventOutbox.rows, r ∈ db.eventOutbox.rows ∨
        ∃ e ∈ normalized, storedContent clientId e = some r.content := by
  unfold insertEvents at h
  rw [bind_eq_ok] at h
  obtain ⟨normalized, hnormalized, h⟩ := h
  refine ⟨normalized, hnormalized, ?_⟩
  split at h
  · obtain ⟨-, rfl⟩ := Prod.mk.inj (Except.ok.inj h)
    exact fun r hr => .inl hr
  · rw [bind_eq_ok] at h
    obtain ⟨locked, hlocked, h⟩ := h
    rw [bind_eq_ok] at h
    obtain ⟨written, hwritten, h⟩ := h
    obtain ⟨-, rfl⟩ := Prod.mk.inj (Except.ok.inj h)
    refine foldlM_preserves (fun s => ∀ r ∈ s.eventOutbox.rows, r ∈ db.eventOutbox.rows ∨
      ∃ e ∈ normalized, storedContent clientId e = some r.content) ?_ hwritten ?_
    · intro e he s t hs hst r hr
      obtain ⟨-, content, hcontent, ⟨row, rfl, -, hrows⟩ | ⟨hrows, -⟩⟩ := insertEvent_content hst
      · rw [hrows] at hr
        rcases List.mem_append.mp hr with hold | hnew
        · exact hs r hold
        · rw [List.mem_singleton.mp hnew]
          exact .inr ⟨e, he, hcontent⟩
      · rw [hrows] at hr
        exact hs r hr
    · rw [(lockDestination_ok hlocked).1]
      exact fun r hr => .inl hr

end DreamSso
