import DreamSso.OutboxRows

/-!
Enqueueing as one transaction. The statements an enqueue issues are recorded
beside its result: a list that does not normalize issues none, and a committed
one leaves every event stored, so that the same list can be enqueued again.
-/
namespace DreamSso

open JsStrings JsonValues KeyedTables StoredJson Fallible

inductive EnqueueStatement
  | insertDestination (clientId : ClientId)
  | selectDestination (clientId : ClientId)
  | insertEvent (clientId : ClientId) (event : NormalizedEvent)
  | selectEvent (clientId : ClientId) (event : NormalizedEvent)

/-- An INSERT whose parameters are accepted draws a sequence value, also when the
id conflicts or the transaction is rolled back. -/
def EnqueueStatement.draws : EnqueueStatement → Bool
  | .insertEvent clientId event => (storedContent clientId event).isSome
  | _ => false

/-- A conflicting id is looked up by a second statement. -/
def issuedFor (clientId : ClientId) (db : Channel) (event : NormalizedEvent) :
    List EnqueueStatement :=
  .insertEvent clientId event ::
    if (storedContent clientId event).isSome && (db.eventOutbox.find? event.id).isSome then
      [.selectEvent clientId event]
    else []

def issueEach (now : ℤ) (clientId : ClientId) (db : Channel) :
    List NormalizedEvent → List EnqueueStatement × Except Failure Channel
  | [] => ([], .ok db)
  | event :: rest => match insertEvent now clientId db event with
      | .error failure => (issuedFor clientId db event, .error failure)
      | .ok written =>
          let (issued, result) := issueEach now clientId written rest
          (issuedFor clientId db event ++ issued, result)

/-- `insertEvents` with the statements it issues. -/
def issueEvents (now : ℤ) (uuid : ℕ → Uuid) (db : Channel) (clientId : ClientId)
    (events : List OutboundEvent) :
    List EnqueueStatement × Except Failure (List Uuid × Channel) :=
  match normalizeAll uuid db.eventOutbox.nextSequence events with
  | .error failure => ([], .error failure)
  | .ok normalized =>
      if normalized.isEmpty then ([], .ok ([], db))
      else match lockDestination now db clientId with
        | .error failure => ([.insertDestination clientId], .error failure)
        | .ok locked =>
            let (issued, result) := issueEach now clientId locked normalized
            (.insertDestination clientId :: .selectDestination clientId :: issued,
              result.map fun written => (normalized.map fun e => e.id, written))

/-- The transaction: a failed enqueue is rolled back, up to the values it drew. -/
def enqueueEvents (now : ℤ) (uuid : ℕ → Uuid) (db : Channel) (clientId : ClientId)
    (events : List OutboundEvent) : Except Failure (List Uuid) × Channel :=
  match issueEvents now uuid db clientId events with
  | (_, .ok (ids, written)) => (.ok ids, written)
  | (issued, .error failure) => (.error failure,
      { db with eventOutbox := db.eventOutbox.skip (issued.filter EnqueueStatement.draws).length })

theorem issueEach_result (now : ℤ) (clientId : ClientId) (db : Channel)
    (events : List NormalizedEvent) :
    (issueEach now clientId db events).2 = events.foldlM (insertEvent now clientId) db := by
  induction events generalizing db with
  | nil => rfl
  | cons event rest ih =>
    rw [issueEach, List.foldlM_cons]
    cases insertEvent now clientId db event with
    | error failure => rfl
    | ok written => exact ih written

/-- The statements are those of `insertEvents`. -/
theorem issueEvents_result (now : ℤ) (uuid : ℕ → Uuid) (db : Channel) (clientId : ClientId)
    (events : List OutboundEvent) :
    (issueEvents now uuid db clientId events).2 = insertEvents now uuid db clientId events := by
  unfold issueEvents insertEvents
  cases normalizeAll uuid db.eventOutbox.nextSequence events with
  | error failure => rfl
  | ok normalized =>
    rw [ok_bind]
    simp only
    split
    · rfl
    · cases lockDestination now db clientId with
      | error failure => rfl
      | ok locked =>
        rw [ok_bind, ← issueEach_result]
        simp only
        cases (issueEach now clientId locked normalized).2 <;> rfl

/-- The event is stored for the client under this id. -/
def Stores (o : Outbox) (clientId : ClientId) (id : Uuid) (event : OutboundEvent) : Prop :=
  ∃ row ∈ o.rows, row.id = id ∧ row.targetClientId = clientId ∧
    textInput event.type = some row.kind ∧ jsonbInput event.payload = some row.payload ∧
    bigintText? (event.version.getD (js "0")) = some row.version

/-- The id is the given one, if one is given. -/
def Assigned (event : OutboundEvent) (id : Uuid) : Prop :=
  ∀ text, event.id = some text → Uuid.parse? text = some id

/-- A normalized event is stored under its id with its content. -/
def Kept (o : Outbox) (clientId : ClientId) (event : NormalizedEvent) : Prop :=
  ∃ row ∈ o.rows, row.id = event.id ∧ storedContent clientId event = some row.content

/-- An id is stored with another content, in the table or earlier in the list. -/
def Conflicting (o : Outbox) (clientId : ClientId) (events : List NormalizedEvent) : Prop :=
  (∃ event ∈ events, ∃ row ∈ o.rows, row.id = event.id ∧
      storedContent clientId event ≠ some row.content) ∨
    ¬ events.Pairwise fun a b => a.id = b.id →
      storedContent clientId a = storedContent clientId b

section Rows

variable {now : ℤ} {clientId : ClientId} {db db' : Channel}

theorem insertEvent_kept {event : NormalizedEvent} (h : insertEvent now clientId db event = .ok db') :
    Kept db'.eventOutbox clientId event ∧
      ∃ extra, db'.eventOutbox.rows = db.eventOutbox.rows ++ extra ∧
        ∀ row ∈ extra, row.id = event.id := by
  unfold insertEvent at h
  split at h
  · next kind payload hkind hpayload =>
    have hcontent : storedContent clientId event = some (kind, clientId, payload, event.version) := by
      simp [storedContent, hkind, hpayload]
    split at h
    · next outbox hinsert =>
      obtain rfl := Except.ok.inj h
      have hrows := (Outbox.insert?_rows hinsert).1
      refine ⟨⟨_, (Outbox.mem_insert? hinsert _).mpr (.inr rfl), rfl, hcontent⟩, _, hrows, ?_⟩
      intro row hrow
      rw [List.mem_singleton.mp hrow]
      rfl
    · split at h
      · next hany =>
        obtain rfl := Except.ok.inj h
        obtain ⟨row, hrow, hsame⟩ := List.any_eq_true.mp hany
        simp only [Bool.and_eq_true, decide_eq_true_eq] at hsame
        obtain ⟨⟨⟨⟨hid, hk⟩, ht⟩, hp⟩, hv⟩ := hsame
        refine ⟨⟨row, hrow, hid, ?_⟩, [], by simp [Outbox.skip], by simp⟩
        rw [hcontent, OutboxRow.content, hk, ht, hp, hv]
      · simp at h
  · simp at h

theorem Kept.mono {o o' : Outbox} {event : NormalizedEvent} {extra : List OutboxRow}
    (h : Kept o clientId event) (hrows : o'.rows = o.rows ++ extra) : Kept o' clientId event := by
  obtain ⟨row, hrow, hid, hcontent⟩ := h
  exact ⟨row, by rw [hrows]; exact List.mem_append_left _ hrow, hid, hcontent⟩

/-- Every event of a committed list is stored, and only rows with listed ids are new. -/
theorem insertAll_kept {events : List NormalizedEvent}
    (h : events.foldlM (insertEvent now clientId) db = .ok db') :
    (∀ event ∈ events, Kept db'.eventOutbox clientId event) ∧
      ∃ extra, db'.eventOutbox.rows = db.eventOutbox.rows ++ extra ∧
        ∀ row ∈ extra, row.id ∈ events.map fun event => event.id := by
  induction events generalizing db with
  | nil =>
    simp only [List.foldlM_nil, pure, Except.pure, Except.ok.injEq] at h
    subst h
    exact ⟨by simp, [], by simp, by simp⟩
  | cons event rest ih =>
    rw [List.foldlM_cons, bind_eq_ok] at h
    obtain ⟨mid, hfirst, hrest⟩ := h
    obtain ⟨hkept, first, hfirstRows, hfirstIds⟩ := insertEvent_kept hfirst
    obtain ⟨hothers, extra, hrows, hids⟩ := ih hrest
    refine ⟨?_, first ++ extra, by rw [hrows, hfirstRows, List.append_assoc], ?_⟩
    · intro other hother
      rcases List.mem_cons.mp hother with rfl | hother
      · exact hkept.mono hrows
      · exact hothers other hother
    · intro row hrow
      rw [List.map_cons, List.mem_cons]
      rcases List.mem_append.mp hrow with hnew | hlater
      · exact .inl (hfirstIds row hnew)
      · exact .inr (hids row hlater)

/-- An event that is stored already is accepted and adds no row. -/
theorem insertEvent_repeated {event : NormalizedEvent} (h : Kept db.eventOutbox clientId event) :
    insertEvent now clientId db event =
      .ok { db with eventOutbox := db.eventOutbox.skip 1 } := by
  obtain ⟨row, hrow, hid, hcontent⟩ := h
  simp only [storedContent, Option.bind_eq_some_iff, Option.map_eq_some_iff] at hcontent
  obtain ⟨kind, hkind, payload, hpayload, hsame⟩ := hcontent
  simp only [OutboxRow.content, Prod.mk.injEq] at hsame
  obtain ⟨hk, ht, hp, hv⟩ := hsame
  have hconflict : ∀ fresh : OutboxRow, fresh.id = event.id →
      db.eventOutbox.insert? fresh = none := by
    intro fresh hfresh
    exact Outbox.insert?_eq_none.mpr
      ⟨row, (Outbox.find?_eq_some _ _ _).mpr ⟨hrow, hid.trans hfresh.symm⟩⟩
  unfold insertEvent
  rw [hkind, hpayload]
  simp only
  rw [hconflict _ rfl]
  simp only
  rw [if_pos]
  rw [List.any_eq_true]
  refine ⟨row, hrow, ?_⟩
  simp only [Bool.and_eq_true, decide_eq_true_eq]
  exact ⟨⟨⟨⟨hid, hk.symm⟩, ht.symm⟩, hp.symm⟩, hv.symm⟩

theorem insertAll_repeated {events : List NormalizedEvent}
    (h : ∀ event ∈ events, Kept db.eventOutbox clientId event) :
    events.foldlM (insertEvent now clientId) db =
      .ok { db with eventOutbox := db.eventOutbox.skip events.length } := by
  induction events generalizing db with
  | nil => rfl
  | cons event rest ih =>
    rw [List.foldlM_cons, insertEvent_repeated (h event List.mem_cons_self), ok_bind, ih]
    · simp only [Outbox.skip, List.length_cons, Except.ok.injEq, Channel.mk.injEq, true_and,
        and_true, Outbox.mk.injEq]
      omega
    · intro other hother
      exact (h other (List.mem_cons_of_mem _ hother)).mono (List.append_nil _).symm

/-- A committed list has no conflict. -/
theorem insertAll_consistent {events : List NormalizedEvent}
    (h : events.foldlM (insertEvent now clientId) db = .ok db') :
    ¬ Conflicting db.eventOutbox clientId events := by
  obtain ⟨hkept, extra, hrows, -⟩ := insertAll_kept h
  rintro (⟨event, hevent, row, hrow, hid, hdiffer⟩ | hpairs)
  · obtain ⟨stored, hstored, hstoredId, hcontent⟩ := hkept event hevent
    have hold : row ∈ db'.eventOutbox.rows := by
      rw [hrows]
      exact List.mem_append_left _ hrow
    rw [← db'.eventOutbox.row_ext hold hstored (hid.trans hstoredId.symm)] at hcontent
    exact hdiffer hcontent
  · apply hpairs
    apply List.pairwise_of_forall_mem_list
    intro a ha b hb hsame
    obtain ⟨row, hrow, hrowId, hcontent⟩ := hkept a ha
    obtain ⟨other, hother, hotherId, hotherContent⟩ := hkept b hb
    rw [hcontent, hotherContent,
      db'.eventOutbox.row_ext hrow hother (by rw [hrowId, hotherId, hsame])]

end Rows

section Normalization

/-- The id an event is stored under when it is normalized. -/
def assignedId (randomUUID : Uuid) (event : OutboundEvent) : Option Uuid :=
  match event.id with
  | some text => Uuid.parse? text
  | none => some randomUUID

/-- No id, type, payload or version of an event. -/
def Malformed (event : OutboundEvent) : Prop :=
  (∃ text, event.id = some text ∧ Uuid.parse? text = none) ∨ event.type = [] ∨
    200 < event.type.length ∨ objectPayload event.payload = false ∨
    bigintText? (event.version.getD (js "0")) = none

def Oversized (randomUUID : Uuid) (event : OutboundEvent) : Prop :=
  ∃ id, assignedId randomUUID event = some id ∧
    EVENT_BYTES_MAX < eventBytes [⟨id, event.type, event.payload⟩]

/-- The event with the id it was stored under. -/
def OutboundEvent.withId (event : OutboundEvent) (id : Uuid) : OutboundEvent :=
  { event with id := some id.text }

variable {id randomUUID : Uuid} {event : OutboundEvent} {e : NormalizedEvent}

theorem normalizedEvent_eq (randomUUID : Uuid) (event : OutboundEvent) :
    normalizedEvent randomUUID event =
      match assignedId randomUUID event, bigintText? (event.version.getD (js "0")) with
      | some id, some version =>
          if event.type = [] ∨ event.type.length > 200 ∨ objectPayload event.payload = false then
            .error (.outbox "invalid_event")
          else if eventBytes [⟨id, event.type, event.payload⟩] > EVENT_BYTES_MAX then
            .error (.outbox "event_too_large")
          else .ok ⟨⟨id, event.type, event.payload⟩, version⟩
      | _, _ => .error (.outbox "invalid_event") := by
  unfold normalizedEvent assignedId
  cases event.id <;> rfl

theorem normalizedEvent_assigned (h : normalizedEvent randomUUID event = .ok e) :
    assignedId randomUUID event = some e.id := by
  unfold normalizedEvent at h
  unfold assignedId
  simp only at h
  split at h
  · next hid hversion =>
    split at h
    · simp at h
    · split at h
      · simp at h
      · rw [← Except.ok.inj h]
        exact hid
  · simp at h

theorem Assigned.of_normalized (h : normalizedEvent randomUUID event = .ok e) :
    Assigned event e.id := by
  intro text htext
  have hid := normalizedEvent_assigned h
  rw [assignedId, htext] at hid
  exact hid

theorem normalizedEvent_sound (h : normalizedEvent randomUUID event = .ok e) :
    ¬ Malformed event ∧ ¬ Oversized randomUUID event := by
  have hid := normalizedEvent_assigned h
  have hfits := normalizedEvent_fits h
  obtain ⟨htype, hpayload, hversion⟩ := normalizedEvent_ok h
  constructor
  · rintro (⟨text, htext, hnone⟩ | hshape)
    · simp only [assignedId, htext] at hid
      rw [hid] at hnone
      simp at hnone
    · have hvalid : ¬ (event.type = [] ∨ event.type.length > 200 ∨
          objectPayload event.payload = false) := by
        intro hinvalid
        unfold normalizedEvent at h
        simp only at h
        split at h
        · rw [if_pos hinvalid] at h
          simp at h
        · simp at h
      rcases hshape with hempty | hlong | hobject | hnone
      · exact hvalid (.inl hempty)
      · exact hvalid (.inr (.inl hlong))
      · exact hvalid (.inr (.inr hobject))
      · rw [hversion] at hnone
        simp at hnone
  · rintro ⟨other, hother, hlarge⟩
    rw [hid, Option.some.injEq] at hother
    subst hother
    rw [← htype, ← hpayload] at hlarge
    exact absurd hfits (Nat.not_le_of_lt hlarge)

theorem normalizedEvent_error {failure : Failure}
    (h : normalizedEvent randomUUID event = .error failure) :
    failure = .outbox "invalid_event" ∨ failure = .outbox "event_too_large" := by
  unfold normalizedEvent at h
  simp only at h
  split at h
  · split at h
    · exact .inl (Except.error.inj h).symm
    · split at h
      · exact .inr (Except.error.inj h).symm
      · simp at h
  · exact .inl (Except.error.inj h).symm

/-- With its id given the event normalizes to the same one. -/
theorem normalizedEvent_withId (other : Uuid) (h : normalizedEvent randomUUID event = .ok e) :
    normalizedEvent other (event.withId e.id) = .ok e := by
  have hid := normalizedEvent_assigned h
  have hgiven : assignedId other (event.withId e.id) = some e.id := by
    simp only [assignedId, OutboundEvent.withId, Uuid.parse?_text]
  rw [normalizedEvent_eq, hid] at h
  rw [normalizedEvent_eq, hgiven]
  exact h

theorem normalizeAll_each {uuid : ℕ → Uuid} {sequence : ℕ} {events : List OutboundEvent}
    {normalized : List NormalizedEvent} (h : normalizeAll uuid sequence events = .ok normalized) :
    List.Forall₂ (fun event e => ∃ n, normalizedEvent (uuid n) event = .ok e) events normalized := by
  induction events generalizing sequence normalized with
  | nil =>
    obtain rfl := Except.ok.inj h
    exact .nil
  | cons event rest ih =>
    rw [normalizeAll, bind_eq_ok] at h
    obtain ⟨first, hfirst, h⟩ := h
    rw [bind_eq_ok] at h
    obtain ⟨others, hothers, h⟩ := h
    obtain rfl := Except.ok.inj h
    exact .cons ⟨sequence, hfirst⟩ (ih hothers)

theorem normalizeAll_withId {events : List OutboundEvent} {normalized : List NormalizedEvent}
    {uuid : ℕ → Uuid}
    (h : List.Forall₂ (fun event e => ∃ n, normalizedEvent (uuid n) event = .ok e) events normalized)
    (uuid' : ℕ → Uuid) (sequence : ℕ) :
    normalizeAll uuid' sequence
      (List.zipWith OutboundEvent.withId events (normalized.map fun e => e.id)) =
        .ok normalized := by
  induction h generalizing sequence with
  | nil => rfl
  | cons hfirst _ ih =>
    obtain ⟨n, hn⟩ := hfirst
    rw [List.map_cons, List.zipWith_cons_cons, normalizeAll, normalizedEvent_withId _ hn, ok_bind,
      ih, ok_bind]

theorem normalizeAll_error {uuid : ℕ → Uuid} {sequence : ℕ} {events : List OutboundEvent}
    {failure : Failure} (h : normalizeAll uuid sequence events = .error failure) :
    failure = .outbox "invalid_event" ∨ failure = .outbox "event_too_large" := by
  induction events generalizing sequence with
  | nil => simp [normalizeAll] at h
  | cons event rest ih =>
    rw [normalizeAll, bind_eq_error] at h
    rcases h with hfirst | ⟨first, -, h⟩
    · exact normalizedEvent_error hfirst
    · rw [bind_eq_error] at h
      rcases h with hrest | ⟨others, -, h⟩
      · exact ih hrest
      · simp at h

/-- One refused event refuses the list. -/
theorem normalizeAll_refused {uuid : ℕ → Uuid} {sequence i : ℕ} {events : List OutboundEvent}
    (hevent : events[i]? = some event)
    (hrefused : Malformed event ∨ Oversized (uuid (sequence + i)) event) :
    ∃ failure, normalizeAll uuid sequence events = .error failure := by
  induction events generalizing sequence i with
  | nil => simp at hevent
  | cons first rest ih =>
    rw [normalizeAll]
    cases hfirst : normalizedEvent (uuid sequence) first with
    | error failure => exact ⟨failure, rfl⟩
    | ok e =>
      cases i with
      | zero =>
        rw [List.getElem?_cons_zero, Option.some.injEq] at hevent
        subst hevent
        obtain ⟨hshape, hsize⟩ := normalizedEvent_sound hfirst
        exact (hrefused.elim hshape hsize).elim
      | succ i =>
        rw [List.getElem?_cons_succ] at hevent
        rw [show sequence + (i + 1) = sequence + 1 + i by omega] at hrefused
        obtain ⟨failure, hrest⟩ := ih hevent hrefused
        exact ⟨failure, by rw [ok_bind, hrest, error_bind]⟩

end Normalization

section Transaction

variable {now : ℤ} {uuid : ℕ → Uuid} {db db' : Channel} {clientId : ClientId}
  {events : List OutboundEvent} {ids : List Uuid}

theorem enqueueEvents_ok (h : enqueueEvents now uuid db clientId events = (.ok ids, db')) :
    insertEvents now uuid db clientId events = .ok (ids, db') := by
  rw [← issueEvents_result]
  unfold enqueueEvents at h
  split at h
  · next hissue =>
    rw [hissue]
    simp only [Prod.mk.injEq, Except.ok.injEq] at h
    rw [h.1, h.2]
  · simp at h

theorem enqueueEvents_of_ok (h : insertEvents now uuid db clientId events = .ok (ids, db')) :
    enqueueEvents now uuid db clientId events = (.ok ids, db') := by
  rw [← issueEvents_result] at h
  unfold enqueueEvents
  cases hissue : issueEvents now uuid db clientId events with
  | mk issued result =>
    rw [hissue] at h
    simp only at h
    rw [h]

theorem enqueueEvents_of_error {failure : Failure}
    (h : insertEvents now uuid db clientId events = .error failure) :
    (enqueueEvents now uuid db clientId events).1 = .error failure := by
  rw [← issueEvents_result] at h
  unfold enqueueEvents
  cases hissue : issueEvents now uuid db clientId events with
  | mk issued result =>
    rw [hissue] at h
    simp only at h
    rw [h]

/-- A failed transaction leaves every table. -/
theorem enqueueEvents_failed {failure : Failure}
    (h : (enqueueEvents now uuid db clientId events).1 = .error failure) :
    (enqueueEvents now uuid db clientId events).2.eventOutbox.rows = db.eventOutbox.rows ∧
      (enqueueEvents now uuid db clientId events).2.eventDestinations = db.eventDestinations ∧
      (enqueueEvents now uuid db clientId events).2.oauthClients = db.oauthClients := by
  unfold enqueueEvents at *
  split at h
  · simp at h
  · exact ⟨rfl, rfl, rfl⟩

theorem lockDestination_contains {locked : Channel}
    (h : lockDestination now db clientId = .ok locked) :
    locked.eventDestinations.contains clientId = true := by
  unfold lockDestination at h
  split at h
  · next hthere =>
    rw [← Except.ok.inj h]
    exact hthere
  · split at h
    · rw [← Except.ok.inj h]
      simp [Table.contains]
    · simp at h

/-- What a committed enqueue did. -/
theorem insertEvents_stored (h : insertEvents now uuid db clientId events = .ok (ids, db')) :
    ∃ normalized, normalizeAll uuid db.eventOutbox.nextSequence events = .ok normalized ∧
      ids = normalized.map (fun e => e.id) ∧
      (∀ e ∈ normalized, Kept db'.eventOutbox clientId e) ∧
      (∃ extra, db'.eventOutbox.rows = db.eventOutbox.rows ++ extra ∧ ∀ row ∈ extra, row.id ∈ ids) ∧
      ¬ Conflicting db.eventOutbox clientId normalized ∧
      (events ≠ [] → db'.eventDestinations.contains clientId = true) := by
  unfold insertEvents at h
  rw [bind_eq_ok] at h
  obtain ⟨normalized, hnormalized, h⟩ := h
  refine ⟨normalized, hnormalized, ?_⟩
  split at h
  · next hempty =>
    obtain ⟨rfl, rfl⟩ := Prod.mk.inj (Except.ok.inj h)
    have hnil : normalized = [] := by simpa using hempty
    subst hnil
    refine ⟨rfl, by simp, ⟨[], by simp, by simp⟩, by simp [Conflicting], ?_⟩
    intro hevents
    have heach := normalizeAll_each hnormalized
    rw [List.forall₂_nil_right_iff] at heach
    exact (hevents heach).elim
  · rw [bind_eq_ok] at h
    obtain ⟨locked, hlocked, h⟩ := h
    rw [bind_eq_ok] at h
    obtain ⟨written, hwritten, h⟩ := h
    obtain ⟨rfl, rfl⟩ := Prod.mk.inj (Except.ok.inj h)
    obtain ⟨houtbox, -⟩ := lockDestination_ok hlocked
    obtain ⟨hkept, extra, hrows, hids⟩ := insertAll_kept hwritten
    have hconsistent := insertAll_consistent hwritten
    rw [houtbox] at hrows hconsistent
    refine ⟨rfl, hkept, ⟨extra, hrows, hids⟩, hconsistent, fun _ => ?_⟩
    have hfold : written.eventDestinations = locked.eventDestinations := by
      refine foldlM_preserves (fun s => s.eventDestinations = locked.eventDestinations) ?_ hwritten rfl
      intro e he s t hs hst
      rw [(insertEvent_ok (normalizeAll_fits hnormalized e he) hst).1]
      exact hs
    rw [hfold]
    exact lockDestination_contains hlocked

/-- The listed rows are all there still, whatever became of their deliveries. -/
def StillStored (clientId : ClientId) (ids : List Uuid) (db later : Channel) : Prop :=
  (∀ row ∈ db.eventOutbox.rows, row.id ∈ ids →
    ∃ row' ∈ later.eventOutbox.rows, row'.toStoredEvent = row.toStoredEvent) ∧
  (db.eventDestinations.contains clientId = true → later.eventDestinations.contains clientId = true)

theorem Kept.later {o : Outbox} {later : Outbox} {e : NormalizedEvent} (h : Kept o clientId e)
    (hids : e.id ∈ ids) (hlater : ∀ row ∈ o.rows, row.id ∈ ids →
      ∃ row' ∈ later.rows, row'.toStoredEvent = row.toStoredEvent) : Kept later clientId e := by
  obtain ⟨row, hrow, hid, hcontent⟩ := h
  obtain ⟨row', hrow', hsame⟩ := hlater row hrow (hid ▸ hids)
  refine ⟨row', hrow', by rw [hsame]; exact hid, ?_⟩
  rw [hcontent]
  simp only [OutboxRow.content, hsame]

/-- Enqueueing the stored events again adds no row. -/
theorem insertEvents_again (h : insertEvents now uuid db clientId events = .ok (ids, db'))
    {later : Channel} (hlater : StillStored clientId ids db' later) (now' : ℤ)
    (uuid' : ℕ → Uuid) :
    ∃ again, insertEvents now' uuid' later clientId
        (List.zipWith OutboundEvent.withId events ids) = .ok (ids, again) ∧
      again.eventOutbox.rows = later.eventOutbox.rows := by
  obtain ⟨normalized, hnormalized, rfl, hkept, -, -, hdestination⟩ := insertEvents_stored h
  have heach := normalizeAll_each hnormalized
  unfold insertEvents
  rw [normalizeAll_withId heach, ok_bind]
  by_cases hempty : normalized.isEmpty = true
  · rw [if_pos hempty]
    have hnil : normalized = [] := by simpa using hempty
    exact ⟨later, by rw [hnil]; rfl, rfl⟩
  · rw [if_neg hempty]
    have hevents : events ≠ [] := by
      rintro rfl
      rw [List.forall₂_nil_left_iff.mp heach] at hempty
      simp at hempty
    have hcontains := hlater.2 (hdestination hevents)
    have hagain : ∀ e ∈ normalized, Kept later.eventOutbox clientId e := by
      intro e he
      exact (hkept e he).later (List.mem_map.mpr ⟨e, he, rfl⟩) hlater.1
    rw [lockDestination, if_pos hcontains, ok_bind, insertAll_repeated hagain, ok_bind]
    exact ⟨_, rfl, rfl⟩

theorem stores_of_normalized {o : Outbox} {normalized : List NormalizedEvent}
    (heach : List.Forall₂ (fun event e => ∃ n, normalizedEvent (uuid n) event = .ok e) events
      normalized) (hkept : ∀ e ∈ normalized, Kept o clientId e) :
    List.Forall₂ (fun event id => Assigned event id ∧ Stores o clientId id event) events
      (normalized.map fun e => e.id) := by
  induction heach with
  | nil => exact .nil
  | @cons event e others rest hfirst _ ih =>
    obtain ⟨n, hn⟩ := hfirst
    refine .cons ⟨Assigned.of_normalized hn, ?_⟩
      (ih fun e he => hkept e (List.mem_cons_of_mem _ he))
    obtain ⟨htype, hpayload, hversion⟩ := normalizedEvent_ok hn
    obtain ⟨row, hrow, hid, hcontent⟩ := hkept e List.mem_cons_self
    simp only [storedContent, Option.bind_eq_some_iff, Option.map_eq_some_iff] at hcontent
    obtain ⟨kind, hkind, payload, hstored, hsame⟩ := hcontent
    simp only [OutboxRow.content, Prod.mk.injEq] at hsame
    obtain ⟨hk, ht, hp, hv⟩ := hsame
    refine ⟨row, hrow, hid, ht.symm, ?_, ?_, ?_⟩
    · rw [← htype, hkind, hk]
    · rw [← hpayload, hstored, hp]
    · rw [hversion, hv]

end Transaction

/-- Enqueueing is idempotent and atomic: a committed list is stored whole and can
be enqueued again, a refused event refuses the list before any statement, and a
conflict or another failure leaves the tables as they were. -/
theorem enqueue_idempotent_atomic (now : ℤ) (uuid : ℕ → Uuid) (db : Channel) (clientId : ClientId)
    (events : List OutboundEvent) :
    (∀ ids db', enqueueEvents now uuid db clientId events = (.ok ids, db') →
      List.Forall₂ (fun event id => Assigned event id ∧ Stores db'.eventOutbox clientId id event)
        events ids ∧
      (∃ extra, db'.eventOutbox.rows = db.eventOutbox.rows ++ extra ∧
        ∀ row ∈ extra, row.id ∈ ids) ∧
      (∀ now' uuid', ∃ again, enqueueEvents now' uuid' db' clientId
          (List.zipWith OutboundEvent.withId events ids) = (.ok ids, again) ∧
        again.eventOutbox.rows = db'.eventOutbox.rows) ∧
      ∀ later now' uuid', StillStored clientId ids db' later →
        ∃ again, enqueueEvents now' uuid' later clientId
            (List.zipWith OutboundEvent.withId events ids) = (.ok ids, again) ∧
          again.eventOutbox.rows = later.eventOutbox.rows) ∧
    (∀ (i : ℕ) event, events[i]? = some event →
      Malformed event ∨ Oversized (uuid (db.eventOutbox.nextSequence + i)) event →
      ∃ failure, (failure = .outbox "invalid_event" ∨ failure = .outbox "event_too_large") ∧
        issueEvents now uuid db clientId events = ([], .error failure) ∧
        (enqueueEvents now uuid db clientId events).1 = .error failure) ∧
    (∀ normalized, normalizeAll uuid db.eventOutbox.nextSequence events = .ok normalized →
      Conflicting db.eventOutbox clientId normalized →
      ∃ failure, (enqueueEvents now uuid db clientId events).1 = .error failure) ∧
    ∀ failure, (enqueueEvents now uuid db clientId events).1 = .error failure →
      (enqueueEvents now uuid db clientId events).2.eventOutbox.rows = db.eventOutbox.rows ∧
      (enqueueEvents now uuid db clientId events).2.eventDestinations = db.eventDestinations ∧
      (enqueueEvents now uuid db clientId events).2.oauthClients = db.oauthClients := by
  refine ⟨?_, ?_, ?_, fun failure h => enqueueEvents_failed h⟩
  · intro ids db' h
    have hok := enqueueEvents_ok h
    obtain ⟨normalized, hnormalized, rfl, hkept, hrows, -, -⟩ := insertEvents_stored hok
    have hagain : ∀ later now' uuid', StillStored clientId (normalized.map fun e => e.id) db' later →
        ∃ again, enqueueEvents now' uuid' later clientId
            (List.zipWith OutboundEvent.withId events (normalized.map fun e => e.id)) =
              (.ok (normalized.map fun e => e.id), again) ∧
          again.eventOutbox.rows = later.eventOutbox.rows := by
      intro later now' uuid' hlater
      obtain ⟨again, hinsert, hsame⟩ := insertEvents_again hok hlater now' uuid'
      exact ⟨again, enqueueEvents_of_ok hinsert, hsame⟩
    refine ⟨stores_of_normalized (normalizeAll_each hnormalized) hkept, hrows, ?_, hagain⟩
    exact fun now' uuid' => hagain db' now' uuid' ⟨fun row hrow _ => ⟨row, hrow, rfl⟩, id⟩
  · intro i event hevent hrefused
    obtain ⟨failure, hfailure⟩ := normalizeAll_refused hevent hrefused
    have hissue : issueEvents now uuid db clientId events = ([], .error failure) := by
      rw [issueEvents, hfailure]
    refine ⟨failure, normalizeAll_error hfailure, hissue, enqueueEvents_of_error ?_⟩
    rw [← issueEvents_result, hissue]
  · intro normalized hnormalized hconflict
    cases hinsert : insertEvents now uuid db clientId events with
    | error failure => exact ⟨failure, enqueueEvents_of_error hinsert⟩
    | ok result =>
      obtain ⟨ids, db'⟩ := result
      obtain ⟨stored, hstored, -, -, -, hconsistent, -⟩ := insertEvents_stored hinsert
      rw [hnormalized, Except.ok.injEq] at hstored
      exact (hconsistent (hstored ▸ hconflict)).elim

end DreamSso
