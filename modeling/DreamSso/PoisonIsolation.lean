import DreamSso.OrderedDelivery

/-!
An event that fails never exhausts the attempts of the events behind it. Once a
row has failed, every pending row before it has failed as well, so the head of
any later batch that contains it is retried alone.
-/
namespace DreamSso

open JsStrings KeyedTables Transitions

/-- The attempts column of the row with a sequence value. -/
def attemptsOf (db : Channel) (sequence : ℕ) : Option ℕ :=
  (db.eventOutbox.rows.find? fun r => decide (r.sequence = sequence)).map fun r => r.attempts

/-- The ids a step settles. -/
def settledIds (e : Event Service Action) : List Uuid :=
  match e.label with
  | .settle w _ _ => match e.before.workers w with
      | .settling _ ids _ => ids
      | _ => []
  | _ => []

/-- The step raises the attempts of the row with a sequence value. -/
def raises (sequence : ℕ) (e : Event Service Action) : Bool :=
  match attemptsOf e.before.db sequence, attemptsOf e.after.db sequence with
  | some a, some b => decide (a < b)
  | _, _ => false

/-- Failures of the row in a batch with other events. -/
def sharedFailures (r : OutboxRow) (trace : List (Event Service Action)) : ℕ :=
  trace.countP fun e => raises r.sequence e && decide (settledIds e ≠ [r.id])

/-- Failures of the row as the only event of its batch. -/
def soleFailures (r : OutboxRow) (trace : List (Event Service Action)) : ℕ :=
  trace.countP fun e => raises r.sequence e && decide (settledIds e = [r.id])

theorem attemptsOf_row {db : Channel} {r : OutboxRow} (hr : r ∈ db.eventOutbox.rows) :
    attemptsOf db r.sequence = some r.attempts := by
  unfold attemptsOf
  cases hfind : db.eventOutbox.rows.find? fun q => decide (q.sequence = r.sequence) with
  | none =>
    have := List.find?_eq_none.mp hfind r hr
    simp at this
  | some q =>
    have hq : q.sequence = r.sequence := by simpa using List.find?_some hfind
    rw [db.eventOutbox.sequence_ext (List.mem_of_find?_eq_some hfind) hr hq, Option.map_some]

theorem attemptsOf_absent {db : Channel} {n : ℕ}
    (h : ∀ r ∈ db.eventOutbox.rows, r.sequence ≠ n) : attemptsOf db n = none := by
  unfold attemptsOf
  rw [Option.map_eq_none_iff, List.find?_eq_none]
  intro r hr
  simpa using h r hr

theorem sharedFailures_snoc (r : OutboxRow) (trace : List (Event Service Action))
    (e : Event Service Action) : sharedFailures r (trace ++ [e]) = sharedFailures r trace +
      if raises r.sequence e = true ∧ settledIds e ≠ [r.id] then 1 else 0 := by
  simp [sharedFailures, List.countP_append, List.countP_singleton]

theorem soleFailures_snoc (r : OutboxRow) (trace : List (Event Service Action))
    (e : Event Service Action) : soleFailures r (trace ++ [e]) = soleFailures r trace +
      if raises r.sequence e = true ∧ settledIds e = [r.id] then 1 else 0 := by
  simp [soleFailures, List.countP_append, List.countP_singleton]

/-- A batch whose oldest row already failed holds that row only. -/
theorem boundedBatch_failed_head {head : PendingRow} (rest : List PendingRow)
    (h : head.attempts ≠ 0) :
    batchIds (boundedBatch (head :: rest)) = [] ∨
      batchIds (boundedBatch (head :: rest)) = [head.id] := by
  have hlimit : head.attempts > 0 := Nat.pos_of_ne_zero h
  unfold boundedBatch
  simp only [List.head?_cons, Option.any_some, hlimit, decide_true, if_true, List.take_succ_cons,
    List.take_zero, boundedBatchFrom]
  split
  · exact .inl rfl
  · split
    · exact .inl rfl
    · exact .inr rfl

/-- A due event that fits alone is never left out of its batch. -/
theorem boundedBatch_ne_nil {head : PendingRow} {rest : List PendingRow} (hdue : head.due = true)
    (hfits : eventBytes [head.toWireEvent] ≤ EVENT_BYTES_MAX) :
    boundedBatch (head :: rest) ≠ [] := by
  obtain ⟨limit, hlimit⟩ : ∃ n, (if (head :: rest).head?.any fun r => decide (r.attempts > 0) then 1
      else BATCH_MAX) = n + 1 := by
    split
    · exact ⟨0, rfl⟩
    · exact ⟨99, rfl⟩
  have hkeep : ∀ batch rows, batch ≠ [] → boundedBatchFrom batch rows ≠ [] := by
    intro batch rows hbatch
    obtain ⟨k, hk⟩ := boundedBatchFrom_take batch rows
    rw [hk]
    exact List.append_ne_nil_of_left_ne_nil hbatch _
  unfold boundedBatch
  simp only [hlimit, List.take_succ_cons, boundedBatchFrom, hdue, List.nil_append]
  rw [if_neg (by simp), if_neg (by omega)]
  exact hkeep _ _ (by simp)

/-- The settlement of a step fails the row and leaves it dead. -/
def DiesOfRetries (r : OutboxRow) (e : Event Service Action) : Prop :=
  ∃ now claim ids code delayMs,
    Commits e.before e.label e.after now claim ids (.retry code delayMs) ∧
    (∃ q ∈ e.before.db.eventOutbox.rows, q.sequence = r.sequence ∧
      settledBy claim ids q = true) ∧
    ∃ q' ∈ e.after.db.eventOutbox.rows, q'.sequence = r.sequence ∧ q'.status = .dead

/-- What a run keeps about a row that `insertEvents` created: its attempts are its
recorded failures, and once it has failed so has every older pending row, in the
table and in the claims that are up to date. -/
structure Isolated (r : OutboxRow) (trace : List (Event Service Action)) (t : Service)
    (q : OutboxRow) : Prop where
  stored : q.toStoredEvent = r.toStoredEvent
  attempts : q.attempts = sharedFailures r trace + soleFailures r trace
  sendable : ¬(q.status = .dead ∧ q.lastErrorCode = some "event_too_large")
  older : q.attempts ≠ 0 → ∀ p ∈ t.db.eventOutbox.pending r.targetClientId,
    p.sequence < r.sequence → p.attempts ≠ 0
  claimed : ∀ w c, (t.workers w).claim? = some c →
    leaseToken t.db c.clientId = some c.token → ∀ e ∈ c.events, e.id = r.id → e.attempts ≠ 0 →
      ∀ head ∈ c.events.head?, head.attempts ≠ 0

structure Tracked (r : OutboxRow) (trace : List (Event Service Action)) (t : Service) : Prop where
  once : sharedFailures r trace ≤ 1
  drawn : r.sequence < t.db.eventOutbox.nextSequence
  row : ∀ q ∈ t.db.eventOutbox.rows, q.sequence = r.sequence → Isolated r trace t q

/-- A committed settlement changes exactly the rows it settles. -/
theorem Commits.source {s s' : Service} {a : Action} {now : ℤ} {claim : DestinationClaim}
    {ids : List Uuid} {outcome : Settlement} (h : Commits s a s' now claim ids outcome)
    {q' : OutboxRow} (hq' : q' ∈ s'.db.eventOutbox.rows) :
    ∃ q ∈ s.db.eventOutbox.rows, Settled now claim ids outcome q q' := by
  obtain ⟨w, clock, -, -, hheld, hok⟩ := h
  exact ((settle_ok hheld hok).2.1.source q' hq').resolve_right fun hnew => hnew.1

/-- A pending row after a step was pending before it, with no more attempts. -/
theorem RowStep.pending {s s' : Service} {a : Action} {q q' : OutboxRow}
    (h : RowStep s a s' q q') (hstatus : q'.status = .pending) :
    q.status = .pending ∧ q.attempts ≤ q'.attempts := by
  cases h with
  | kept => exact ⟨hstatus, Nat.le_refl _⟩
  | replaced hreplaced => simp [hreplaced.status] at hstatus
  | @settled now claim ids outcome hcommits hrow =>
    simp only [settledBy, Bool.and_eq_true, decide_eq_true_eq] at hrow
    refine ⟨hrow.2, ?_⟩
    cases outcome with
    | delivered => exact Nat.le_refl _
    | dead code => exact Nat.le_refl _
    | retry code delayMs => exact Nat.le_succ _

/-- Older pending rows that failed before a step have failed after it. -/
theorem older_step {s s' : Service} {a : Action} (h : step s a = some s') {clientId : ClientId}
    {n : ℕ} (hn : n < s.db.eventOutbox.nextSequence)
    (hold : ∀ p ∈ s.db.eventOutbox.pending clientId, p.sequence < n → p.attempts ≠ 0) :
    ∀ p ∈ s'.db.eventOutbox.pending clientId, p.sequence < n → p.attempts ≠ 0 := by
  intro p hp hlt
  obtain ⟨hmem, htarget, hstatus⟩ := (s'.db.eventOutbox.mem_pending clientId p).mp hp
  rcases (step_outbox h).source p hmem with ⟨p₀, hp₀, hstep⟩ | ⟨-, hnew⟩
  · obtain ⟨hstatus₀, hle⟩ := hstep.pending hstatus
    have hstored := hstep.stored
    have htarget₀ : p₀.targetClientId = clientId := by rw [← htarget, hstored]
    have := hold p₀ ((s.db.eventOutbox.mem_pending clientId p₀).mpr ⟨hp₀, htarget₀, hstatus₀⟩)
      (by rw [hstored] at hlt; exact hlt)
    omega
  · omega

/-- A claim lists the pending rows oldest first, so the head of a claim that
contains a failed row has failed too. -/
theorem claimed_step {s s' : Service} {a : Action} (h : step s a = some s') (hs : Coherent s)
    {r q : OutboxRow} {trace : List (Event Service Action)} (hq : q ∈ s.db.eventOutbox.rows)
    (hrow : Isolated r trace s q) :
    ∀ w c, (s'.workers w).claim? = some c → leaseToken s'.db c.clientId = some c.token →
      ∀ e ∈ c.events, e.id = r.id → e.attempts ≠ 0 →
        ∀ head ∈ c.events.head?, head.attempts ≠ 0 := by
  intro w c hc htoken e he hid hattempts head hhead
  rcases step_current h hs.drawn hc htoken with ⟨hold, hstored, -⟩ | ⟨hrows, now, hclaimed⟩
  · exact hrow.claimed w c hold hstored e he hid hattempts head hhead
  · rw [hclaimed.events] at he hhead
    obtain ⟨p, hp, rfl⟩ := List.mem_map.mp he
    obtain ⟨hmem, htarget, hstatus⟩ :=
      (s.db.eventOutbox.mem_pending c.clientId p).mp (List.mem_of_mem_take hp)
    have hpq : p = q := by
      refine s.db.eventOutbox.row_ext hmem hq ?_
      rw [hrow.stored]
      exact hid
    subst hpq
    rw [List.head?_map, List.head?_take] at hhead
    simp only [BATCH_MAX, Nat.succ_ne_zero, if_false] at hhead
    obtain ⟨first, hfirst, rfl⟩ := Option.map_eq_some_iff.mp hhead
    have hpending := List.mem_of_mem_take hp
    have hordered := s.db.eventOutbox.pending_ordered c.clientId
    cases hlist : s.db.eventOutbox.pending c.clientId with
    | nil => simp [hlist] at hfirst
    | cons first' rest =>
      rw [hlist] at hfirst hpending hordered
      simp only [List.head?_cons, Option.some.injEq] at hfirst
      subst hfirst
      rcases List.mem_cons.mp hpending with hhere | hlater
      · subst hhere
        exact hattempts
      · have hlt := (List.pairwise_cons.mp hordered).1 p hlater
        rw [hrow.stored] at htarget hlt
        refine hrow.older hattempts first' ?_ hlt
        rw [htarget, hlist]
        exact List.mem_cons_self

/-- A row that fits alone is never closed as too large. -/
theorem not_oversized {s s' : Service} {a : Action} (hs : Coherent s) {now : ℤ}
    {claim : DestinationClaim} {ids : List Uuid}
    (h : Commits s a s' now claim ids (.dead "event_too_large")) {q : OutboxRow}
    (hq : q ∈ s.db.eventOutbox.rows) (hrow : settledBy claim ids q = true) :
    EVENT_BYTES_MAX < eventBytes [q.wire] := by
  obtain ⟨w, clock, -, hphase, hheld, -⟩ := h
  have hsnap : Snapshot s.db claim :=
    hs.current w claim (by rw [hphase]; rfl) (holdsLease_token hheld)
  have hformed := hs.formed w
  rw [hphase] at hformed
  cases hformed with
  | settling _ _ houtcome => exact (houtcome rfl).elim
  | oversized _ row rest hevents hdue hbatch =>
    obtain ⟨p, hp, hwire, -, -, -⟩ := hsnap.present row (hevents ▸ List.mem_cons_self)
    simp only [settledBy, Bool.and_eq_true, decide_eq_true_eq, List.mem_singleton] at hrow
    have hid : p.id = row.id := congrArg WireEvent.id hwire
    rw [← s.db.eventOutbox.row_ext hp hq (hid.trans hrow.1.2.symm), hwire]
    by_contra hfits
    exact boundedBatch_ne_nil hdue (by omega) (hevents ▸ hbatch)

/-- A row that already failed is only settled alone. -/
theorem failed_alone {s s' : Service} {a : Action} (hs : Coherent s) {now delayMs : ℤ}
    {claim : DestinationClaim} {ids : List Uuid} {code : String}
    (h : Commits s a s' now claim ids (.retry code delayMs)) {r q : OutboxRow}
    {trace : List (Event Service Action)} (hq : q ∈ s.db.eventOutbox.rows)
    (hisolated : Isolated r trace s q) (hrow : settledBy claim ids q = true)
    (hattempts : q.attempts ≠ 0) : ids = [q.id] := by
  obtain ⟨w, clock, -, hphase, hheld, -⟩ := h
  have hclaim : (s.workers w).claim? = some claim := by rw [hphase]; rfl
  have hsnap : Snapshot s.db claim := hs.current w claim hclaim (holdsLease_token hheld)
  simp only [settledBy, Bool.and_eq_true, decide_eq_true_eq] at hrow
  obtain ⟨⟨-, hid⟩, hstatus⟩ := hrow
  have hformed := hs.formed w
  rw [hphase] at hformed
  obtain ⟨k, hk⟩ := hformed.ids_take
  have hid' := hid
  rw [hk] at hid'
  obtain ⟨e, he, heq⟩ := List.mem_map.mp hid'
  have he := List.mem_of_mem_take he
  obtain ⟨p, hp, hwire, -, -, hpattempts⟩ := hsnap.present e he
  have hpid : p.id = e.id := congrArg WireEvent.id hwire
  obtain rfl := s.db.eventOutbox.row_ext hp hq (hpid.trans heq)
  have htried : ∀ head ∈ claim.events.head?, head.attempts ≠ 0 := by
    refine hisolated.claimed w claim hclaim (holdsLease_token hheld) e he ?_
      (hpattempts hstatus ▸ hattempts)
    rw [← hpid, hisolated.stored]
  cases hformed with
  | settling =>
    cases hevents : claim.events with
    | nil => simp [hevents] at he
    | cons head rest =>
      rw [hevents] at hid htried
      rcases boundedBatch_failed_head rest (htried head rfl) with hnil | hone
      · simp [hnil] at hid
      · rw [hone, List.mem_singleton] at hid
        rw [hone, hid]

/-- Every pending row before a settled row was settled with it. -/
theorem older_settled {s s' : Service} {a : Action} (hs : Coherent s) {now delayMs : ℤ}
    {claim : DestinationClaim} {ids : List Uuid} {code : String}
    (h : Commits s a s' now claim ids (.retry code delayMs)) {q : OutboxRow}
    (hq : q ∈ s.db.eventOutbox.rows) (hrow : settledBy claim ids q = true) :
    ∀ p ∈ s'.db.eventOutbox.pending q.targetClientId, p.sequence < q.sequence →
      p.attempts ≠ 0 := by
  intro p hp hlt
  obtain ⟨hmem, htarget, hstatus⟩ := (s'.db.eventOutbox.mem_pending _ p).mp hp
  obtain ⟨p₀, hp₀, hchange⟩ := h.source hmem
  cases hchange with
  | changed => exact Nat.succ_ne_zero _
  | kept hkept =>
    obtain ⟨w, clock, -, hphase, hheld, -⟩ := h
    have hsnap : Snapshot s.db claim :=
      hs.current w claim (by rw [hphase]; rfl) (holdsLease_token hheld)
    have hformed := hs.formed w
    rw [hphase] at hformed
    obtain ⟨k, rfl⟩ := hformed.ids_take
    simp only [settledBy, Bool.and_eq_true, decide_eq_true_eq] at hrow
    obtain ⟨⟨hclient, hid⟩, -⟩ := hrow
    have hpid := hsnap.closed k q hq hid p ((s.db.eventOutbox.mem_pending _ p).mpr
      ⟨hp₀, htarget.trans hclient, hstatus⟩) hlt
    simp [settledBy, htarget.trans hclient, hpid, hstatus] at hkept

theorem raises_rows {s s' : Service} {a : Action} {q q' : OutboxRow}
    (hq : q ∈ s.db.eventOutbox.rows) (hq' : q' ∈ s'.db.eventOutbox.rows)
    (hsequence : q'.sequence = q.sequence) :
    raises q.sequence ⟨s, a, s'⟩ = decide (q.attempts < q'.attempts) := by
  have hbefore := attemptsOf_row hq
  have hafter := attemptsOf_row hq'
  rw [hsequence] at hafter
  simp only [raises, hbefore, hafter]

theorem raises_absent {s s' : Service} {a : Action} {n : ℕ}
    (h : ∀ q ∈ s'.db.eventOutbox.rows, q.sequence ≠ n) : raises n ⟨s, a, s'⟩ = false := by
  unfold raises
  simp only [attemptsOf_absent h]
  split <;> simp_all

/-- A step that leaves the attempts of the row alone counts as no failure. -/
theorem Isolated.unfailed {s s' : Service} {a : Action} (h : step s a = some s') (hs : Coherent s)
    {r q q' : OutboxRow} {trace : List (Event Service Action)} (hr : Tracked r trace s)
    (hq : q ∈ s.db.eventOutbox.rows) (hq' : q' ∈ s'.db.eventOutbox.rows)
    (hrow : Isolated r trace s q) (hstored : q'.toStoredEvent = q.toStoredEvent)
    (hsame : q'.attempts = q.attempts)
    (hsendable : ¬(q'.status = .dead ∧ q'.lastErrorCode = some "event_too_large")) :
    sharedFailures r (trace ++ [⟨s, a, s'⟩]) = sharedFailures r trace ∧
      Isolated r (trace ++ [⟨s, a, s'⟩]) s' q' := by
  have hsequence : q.sequence = r.sequence := by rw [hrow.stored]
  have hraises : raises r.sequence ⟨s, a, s'⟩ = false := by
    rw [← hsequence, raises_rows hq hq' (by rw [hstored]), hsame]
    simp
  have hshared : sharedFailures r (trace ++ [⟨s, a, s'⟩]) = sharedFailures r trace := by
    simp [sharedFailures_snoc, hraises]
  have hsole : soleFailures r (trace ++ [⟨s, a, s'⟩]) = soleFailures r trace := by
    simp [soleFailures_snoc, hraises]
  refine ⟨hshared, ⟨hstored.trans hrow.stored, ?_, hsendable, ?_, claimed_step h hs hq hrow⟩⟩
  · rw [hshared, hsole, hsame, hrow.attempts]
  · intro hattempts
    exact older_step h hr.drawn (hrow.older (hsame ▸ hattempts))

/-- A failure of the row is shared only when it is the first. -/
theorem Isolated.failed {s s' : Service} {a : Action} (h : step s a = some s') (hs : Coherent s)
    {r q : OutboxRow} {trace : List (Event Service Action)} {now delayMs : ℤ}
    {claim : DestinationClaim} {ids : List Uuid} {code : String}
    (hcommits : Commits s a s' now claim ids (.retry code delayMs))
    (hq : q ∈ s.db.eventOutbox.rows) (hsettled : settledBy claim ids q = true)
    (hq' : { q with toDelivery := settleRow now (.retry code delayMs) q.toDelivery } ∈
      s'.db.eventOutbox.rows)
    (hrow : Isolated r trace s q) (hcode : code ≠ "event_too_large") :
    sharedFailures r (trace ++ [⟨s, a, s'⟩]) ≤ max 1 (sharedFailures r trace) ∧
      Isolated r (trace ++ [⟨s, a, s'⟩]) s'
        { q with toDelivery := settleRow now (.retry code delayMs) q.toDelivery } := by
  have hsequence : q.sequence = r.sequence := by rw [hrow.stored]
  have hid : q.id = r.id := by rw [hrow.stored]
  have hraises : raises r.sequence ⟨s, a, s'⟩ = true := by
    rw [← hsequence, raises_rows hq hq' rfl]
    simp [settleRow]
  have hids : settledIds ⟨s, a, s'⟩ = ids := by
    obtain ⟨w, clock, rfl, hphase, -⟩ := hcommits
    simp [settledIds, hphase]
  have hattempts := hrow.attempts
  have hclient : q.targetClientId = r.targetClientId := by rw [hrow.stored]
  have holder := older_settled hs hcommits hq hsettled
  rw [hclient, hsequence] at holder
  refine ⟨?_, hrow.stored, ?_, ?_, fun _ => holder, claimed_step h hs hq hrow⟩
  · rw [sharedFailures_snoc, hraises, hids]
    by_cases halone : ids = [r.id]
    · simp [halone]
    · have hfirst : q.attempts = 0 := by
        by_contra hne
        exact halone (hid ▸ failed_alone hs hcommits hq hrow hsettled hne)
      simp only [halone, ne_eq, not_false_eq_true, and_self, if_true]
      omega
  · rw [sharedFailures_snoc, soleFailures_snoc, hraises, hids]
    change q.attempts + 1 = _
    by_cases halone : ids = [r.id]
    · simp only [halone, ne_eq, not_true_eq_false, and_false, if_false, and_self, if_true]
      omega
    · simp only [halone, ne_eq, not_false_eq_true, and_self, if_true, and_false, if_false]
      omega
  · rintro ⟨-, hlast⟩
    exact hcode (Option.some.inj hlast)

/-- The code of a retry is never the code of an oversized event. -/
theorem retry_code {s s' : Service} {a : Action} (hs : Coherent s) {now delayMs : ℤ}
    {claim : DestinationClaim} {ids : List Uuid} {code : String}
    (h : Commits s a s' now claim ids (.retry code delayMs)) : code ≠ "event_too_large" := by
  obtain ⟨w, clock, -, hphase, -⟩ := h
  have hformed := hs.formed w
  rw [hphase] at hformed
  cases hformed with
  | settling _ _ houtcome => simpa [Settlement.code?] using houtcome

theorem Tracked.step {s s' : Service} {a : Action} (h : step s a = some s') (hs : Coherent s)
    {r : OutboxRow} {trace : List (Event Service Action)} (hr : Tracked r trace s)
    (hfits : eventBytes [r.wire] ≤ EVENT_BYTES_MAX) :
    Tracked r (trace ++ [⟨s, a, s'⟩]) s' := by
  have hrows := step_outbox h
  have hdrawn : r.sequence < s'.db.eventOutbox.nextSequence :=
    Nat.lt_of_lt_of_le hr.drawn hrows.drawn
  by_cases hthere : ∃ q' ∈ s'.db.eventOutbox.rows, q'.sequence = r.sequence
  · obtain ⟨q', hq', hsequence⟩ := hthere
    have hunique : ∀ p ∈ s'.db.eventOutbox.rows, p.sequence = r.sequence → p = q' :=
      fun p hp hsame => s'.db.eventOutbox.sequence_ext hp hq' (hsame.trans hsequence.symm)
    have hcarry (hq : sharedFailures r (trace ++ [⟨s, a, s'⟩]) ≤ max 1 (sharedFailures r trace) ∧
        Isolated r (trace ++ [⟨s, a, s'⟩]) s' q') : Tracked r (trace ++ [⟨s, a, s'⟩]) s' := by
      have honce := hr.once
      refine ⟨by omega, hdrawn, ?_⟩
      intro p hp hsame
      rw [hunique p hp hsame]
      exact hq.2
    apply hcarry
    rcases hrows.source q' hq' with ⟨q, hq, hstep⟩ | ⟨-, hnew⟩
    · have hqsequence : q.sequence = r.sequence := by rw [← hsequence, hstep.stored]
      have hrow := hr.row q hq hqsequence
      have hunfailed (hsame : q'.attempts = q.attempts)
          (hsendable : ¬(q'.status = .dead ∧ q'.lastErrorCode = some "event_too_large")) :
          sharedFailures r (trace ++ [⟨s, a, s'⟩]) ≤ max 1 (sharedFailures r trace) ∧
            Isolated r (trace ++ [⟨s, a, s'⟩]) s' q' := by
        obtain ⟨hshared, hkept⟩ := hrow.unfailed h hs hr hq hq' hstep.stored hsame hsendable
        exact ⟨by omega, hkept⟩
      cases hstep with
      | kept => exact hunfailed rfl hrow.sendable
      | replaced hreplaced =>
        refine hunfailed hreplaced.attempts ?_
        rintro ⟨-, hcode⟩
        simp [hreplaced.code] at hcode
      | @settled now claim ids outcome hcommits hsettled =>
        cases outcome with
        | delivered => exact hunfailed rfl (by simp [settleRow])
        | dead code =>
          refine hunfailed rfl ?_
          rintro ⟨-, hcode⟩
          obtain rfl : code = "event_too_large" := Option.some.inj hcode
          have hlarge := not_oversized hs hcommits hq hsettled
          rw [OutboxRow.wire, hrow.stored] at hlarge
          exact Nat.not_lt_of_le hfits hlarge
        | retry code delayMs =>
          exact hrow.failed h hs hcommits hq hsettled hq' (retry_code hs hcommits)
    · have := hr.drawn
      omega
  · have habsent : ∀ q ∈ s'.db.eventOutbox.rows, q.sequence ≠ r.sequence :=
      fun q hq hsame => hthere ⟨q, hq, hsame⟩
    refine ⟨?_, hdrawn, fun q hq hsame => (habsent q hq hsame).elim⟩
    simp only [sharedFailures_snoc, raises_absent habsent, Bool.false_eq_true, false_and, if_false]
    exact hr.once

/-- A row that a step of `insertEvents` adds is untried, fits a batch of its own
and is in no claim that is up to date. -/
theorem inserted_tracked {s s' : Service} {now : ℤ} {uuid : ℕ → Uuid} {clientId : ClientId}
    {events : List OutboundEvent} (h : step s (.insertEvents now uuid clientId events) = some s')
    (hs : Coherent s) {r : OutboxRow} (hr : r ∈ s'.db.eventOutbox.rows)
    (hnew : r ∉ s.db.eventOutbox.rows) :
    Tracked r [] s' ∧ eventBytes [r.wire] ≤ EVENT_BYTES_MAX := by
  have hs' := hs.step h
  cases step_outcome h with
  | @inserted _ _ _ _ ids db hok =>
    obtain ⟨htoken, happ⟩ := insertEvents_ok hok
    obtain ⟨hadded, hdrawn⟩ := (happ.new hr).resolve_left hnew
    refine ⟨⟨Nat.zero_le _, db.eventOutbox.below r hr, ?_⟩, hadded.fits⟩
    intro q hq hsequence
    obtain rfl := db.eventOutbox.sequence_ext hq hr hsequence
    refine ⟨rfl, hadded.attempts, ?_, fun h => (h hadded.attempts).elim, ?_⟩
    · rintro ⟨hdead, -⟩
      simp [hadded.status] at hdead
    · intro w c hc hstored e he hid _ head _
      obtain ⟨p, hp, hwire, -⟩ := (hs.current w c hc (htoken c.clientId ▸ hstored)).present e he
      have hpid : p.id = e.id := congrArg WireEvent.id hwire
      obtain rfl := db.eventOutbox.row_ext (happ.old hp) hq (hpid.trans hid)
      exact (hnew hp).elim

theorem tracked_of_run {s t : Service} {trace : List (Event Service Action)} {r : OutboxRow}
    (run : Exec delivery s trace t) (hs : Coherent s) (hr : Tracked r [] s)
    (hfits : eventBytes [r.wire] ≤ EVENT_BYTES_MAX) : Tracked r trace t := by
  refine Exec.history (fun trace t => Tracked r trace t) hr ?_ run
  intro trace t l u hrun ih hstep
  exact ih.step hstep (hrun.preserves (fun _ _ _ hs hstep => hs.step hstep) hs) hfits

theorem soleFailures_mono (r : OutboxRow) {first trace : List (Event Service Action)}
    (h : first.Sublist trace) : soleFailures r first ≤ soleFailures r trace := h.countP_le

/-- A row created by `insertEvents` shares at most one failure with other events,
dies of its attempts only after forty-nine failures of its own and is never
closed as too large. -/
theorem poison_isolation {start s s' t : Service} {earlier trace : List (Event Service Action)}
    {now : ℤ} {uuid : ℕ → Uuid} {clientId : ClientId} {events : List OutboundEvent} {r : OutboxRow}
    (hstart : start.Initial) (before : Exec delivery start earlier s)
    (hinsert : step s (.insertEvents now uuid clientId events) = some s')
    (hr : r ∈ s'.db.eventOutbox.rows) (hnew : r ∉ s.db.eventOutbox.rows)
    (run : Exec delivery s' trace t) :
    sharedFailures r trace ≤ 1 ∧
    (∀ e ∈ trace, DiesOfRetries r e → MAX_ATTEMPTS - 1 ≤ soleFailures r trace) ∧
    ∀ q ∈ t.db.eventOutbox.rows, q.sequence = r.sequence →
      ¬(q.status = .dead ∧ q.lastErrorCode = some "event_too_large") := by
  have hs := coherent_of_run hstart before
  obtain ⟨htracked, hfits⟩ := inserted_tracked hinsert hs hr hnew
  have hend := tracked_of_run run (hs.step hinsert) htracked hfits
  refine ⟨hend.once, ?_, fun q hq hsequence => (hend.row q hq hsequence).sendable⟩
  rintro ⟨u, a, u'⟩ he ⟨now', claim, ids, code, delayMs, hcommits, ⟨q, hq, hsequence, hsettled⟩,
    q', hq', hsequence', hdead⟩
  obtain ⟨first, second, rfl, hfirst, hstep, -⟩ := run.split he
  have hupto : Tracked r (first ++ [⟨u, a, u'⟩]) u' :=
    tracked_of_run (Exec.snoc hfirst hstep) (hs.step hinsert) htracked hfits
  have hattempts := (hupto.row q' hq' hsequence').attempts
  have honce := hupto.once
  obtain ⟨p, hp, hchange⟩ := hcommits.source hq'
  have hpq : p = q := by
    have hsame : q'.sequence = p.sequence := by cases hchange <;> rfl
    refine u.db.eventOutbox.sequence_ext hp hq ?_
    rw [← hsame, hsequence', hsequence]
  subst hpq
  have hmax : MAX_ATTEMPTS ≤ q'.attempts := by
    cases hchange with
    | kept hkept => simp [hkept] at hsettled
    | changed =>
      simp only [settleRow] at hdead ⊢
      split at hdead
      · assumption
      · simp at hdead
  have hmono : soleFailures r (first ++ [⟨u, a, u'⟩]) ≤
      soleFailures r (first ++ ⟨u, a, u'⟩ :: second) := by
    refine soleFailures_mono r ?_
    exact (List.append_sublist_append_left first).mpr (List.singleton_sublist.mpr List.mem_cons_self)
  omega

/-- The batch of both events fails once, then the first event alone. -/
def failTwice : List Action :=
  [.start 0 (js "app"), .claim 0 1 1 (Uuid.numbered 9), .sign 0 false 0, .settle 0 3 3,
    .start 0 (js "app"), .claim 0 200000 200000 (Uuid.numbered 8), .sign 0 true 0,
    .renew 0 200001, .send 0 (some 500) 0, .settle 0 200002 200002]

theorem poison_isolation_failTwice : ∃ s' r trace t, r ∈ s'.db.eventOutbox.rows ∧
    Exec delivery s' trace t ∧
    (∃ q ∈ t.db.eventOutbox.rows, q.sequence = r.sequence ∧ q.attempts = 2) ∧
    sharedFailures r trace ≤ 1 := by
  have hrun : (step oneClient (.insertEvents 0 numberedIds (js "app") twoEvents)).any (fun s' =>
      s'.db.eventOutbox.rows.head?.any fun r =>
        (failTwice.foldlM step s').any fun t =>
          t.db.eventOutbox.rows.any fun q =>
            decide (q.sequence = r.sequence) && decide (q.attempts = 2)) = true := by
    decide +kernel
  rw [Option.any_eq_true] at hrun
  obtain ⟨s', hs', hrun⟩ := hrun
  rw [Option.any_eq_true] at hrun
  obtain ⟨r, hr, hrun⟩ := hrun
  rw [Option.any_eq_true] at hrun
  obtain ⟨t, ht, hrow⟩ := hrun
  rw [List.any_eq_true] at hrow
  obtain ⟨q, hq, hqrow⟩ := hrow
  obtain ⟨trace, run⟩ := exec_step failTwice ht
  have hmem : r ∈ s'.db.eventOutbox.rows := List.mem_of_mem_head? hr
  refine ⟨s', r, trace, t, hmem, run, ⟨q, hq, by simpa using hqrow⟩, ?_⟩
  exact (poison_isolation oneClient_initial (Exec.nil _) hs' hmem
    (by simp [oneClient, Outbox.empty]) run).1

end DreamSso
