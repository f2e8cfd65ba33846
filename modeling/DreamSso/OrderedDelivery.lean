import DreamSso.OutboxDelivery

/-!
Deliveries of one destination happen in sequence order. While the token of a
claim is the stored lease, the claimed rows are a closed prefix of the pending
rows of the destination: producers only add larger sequence values, and no other
settlement touches those rows before the lease is replaced.
-/
namespace DreamSso

open JsStrings KeyedTables Transitions

def Phase.claim? : Phase → Option DestinationClaim
  | .idle => none
  | .claiming _ => none
  | .signing claim _ => some claim
  | .renewing claim _ => some claim
  | .sending claim _ => some claim
  | .settling claim _ _ => some claim

def rowIds (rows : List PendingRow) : List Uuid := rows.map fun e => e.id

theorem boundedBatchFrom_take (batch : List WireEvent) (rows : List PendingRow) :
    ∃ k, boundedBatchFrom batch rows = batch ++ (rows.take k).map PendingRow.toWireEvent := by
  induction rows generalizing batch with
  | nil => exact ⟨0, by simp [boundedBatchFrom]⟩
  | cons row rest ih =>
    unfold boundedBatchFrom
    split
    · exact ⟨0, by simp⟩
    · split
      · exact ⟨0, by simp⟩
      · obtain ⟨k, hk⟩ := ih (batch ++ [row.toWireEvent])
        exact ⟨k + 1, by simp [hk]⟩

/-- The batch is a prefix of the claimed rows. -/
theorem boundedBatch_take (rows : List PendingRow) :
    ∃ k, batchIds (boundedBatch rows) = rowIds (rows.take k) := by
  unfold boundedBatch
  obtain ⟨k, hk⟩ := boundedBatchFrom_take [] (rows.take
    (if rows.head?.any fun r => decide (r.attempts > 0) then 1 else BATCH_MAX))
  refine ⟨min k (if rows.head?.any fun r => decide (r.attempts > 0) then 1 else BATCH_MAX), ?_⟩
  simp only [hk, List.nil_append, batchIds, rowIds, List.map_map, List.take_take]
  rfl

/-- The error code a settlement stores. -/
def Settlement.code? : Settlement → Option String
  | .delivered => none
  | .retry code _ => some code
  | .dead code => some code

/-- What a worker holds was cut from its claim. -/
inductive Phase.Formed : Phase → Prop
  | idle : Formed .idle
  | claiming (clientId : ClientId) : Formed (.claiming clientId)
  | signing (claim : DestinationClaim) : Formed (.signing claim (boundedBatch claim.events))
  | renewing (claim : DestinationClaim) : Formed (.renewing claim (boundedBatch claim.events))
  | sending (claim : DestinationClaim) : Formed (.sending claim (boundedBatch claim.events))
  | settling (claim : DestinationClaim) (outcome : Settlement)
      (houtcome : outcome.code? ≠ some "event_too_large") :
      Formed (.settling claim (batchIds (boundedBatch claim.events)) outcome)
  | oversized (claim : DestinationClaim) (row : PendingRow) (rest : List PendingRow)
      (hevents : claim.events = row :: rest) (hdue : row.due = true)
      (hbatch : boundedBatch claim.events = []) :
      Formed (.settling claim [row.id] (.dead "event_too_large"))

theorem Phase.Formed.ids_take {claim : DestinationClaim} {ids : List Uuid} {outcome : Settlement}
    (h : Formed (.settling claim ids outcome)) : ∃ k, ids = rowIds (claim.events.take k) := by
  cases h with
  | settling => exact boundedBatch_take claim.events
  | oversized _ row rest hevents => exact ⟨1, by simp [hevents, rowIds]⟩

theorem afterClaim_formed (claim : DestinationClaim) : (afterClaim claim).Formed := by
  unfold afterClaim
  simp only
  split
  · next hbatch =>
    split
    · next row rest hevents =>
      split
      · next hdue => exact .oversized claim row rest hevents hdue hbatch
      · exact .idle
    · exact .idle
  · split
    · exact .settling claim _ (by simp [Settlement.code?])
    · exact .signing claim

theorem afterClaim_claim? {claim c : DestinationClaim} (h : (afterClaim claim).claim? = some c) :
    c = claim := by
  unfold afterClaim at h
  simp only at h
  split at h
  · split at h
    · split at h <;> simp_all [Phase.claim?]
    · simp [Phase.claim?] at h
  · split at h <;> simp_all [Phase.claim?]

theorem afterSign_claim? (claim : DestinationClaim) (batch : List WireEvent) (signed : Bool)
    (jitter : Fin 15000) : (afterSign claim batch signed jitter).claim? = some claim := by
  unfold afterSign
  split <;> rfl

theorem afterSign_formed (claim : DestinationClaim) (signed : Bool) (jitter : Fin 15000) :
    (afterSign claim (boundedBatch claim.events) signed jitter).Formed := by
  unfold afterSign
  split
  · exact .renewing claim
  · exact .settling claim _ (by simp [retryLater, Settlement.code?])

theorem afterSend_formed (claim : DestinationClaim) (answer : Option ℕ) (jitter : Fin 15000) :
    (afterSend claim (boundedBatch claim.events) answer jitter).Formed := by
  refine .settling claim _ ?_
  split
  · split <;> simp [retryLater, Settlement.code?]
  · simp [retryLater, Settlement.code?]

/-- What one step may do to what a worker holds. -/
inductive PhaseStep (s : Service) (a : Action) (s' : Service) (w : WorkerId) : Prop
  | same (hsame : s'.workers w = s.workers w)
  | left (hphase' : s'.workers w = .idle ∨ ∃ clientId, s'.workers w = .claiming clientId)
  | claimed {now : ℤ} {token : Uuid} {clientId : ClientId} {claim : DestinationClaim}
      (hfresh : token ∉ s.tokens) (htokens : s'.tokens = token :: s.tokens)
      (hclaimed : Claimed now token s.db s'.db clientId claim)
      (hrows : s'.db.eventOutbox = s.db.eventOutbox) (hphase' : s'.workers w = afterClaim claim)
  | signed {claim : DestinationClaim} {batch : List WireEvent} {signed : Bool}
      {jitter : Fin 15000} (hphase : s.workers w = .signing claim batch)
      (hphase' : s'.workers w = afterSign claim batch signed jitter)
  | renewed {claim : DestinationClaim} {batch : List WireEvent}
      (hphase : s.workers w = .renewing claim batch) (hphase' : s'.workers w = .sending claim batch)
  | sent {claim : DestinationClaim} {batch : List WireEvent} {answer : Option ℕ}
      {jitter : Fin 15000} (haction : a = .send w answer jitter)
      (hphase : s.workers w = .sending claim batch)
      (hphase' : s'.workers w = afterSend claim batch answer jitter)

theorem step_phase {s s' : Service} {a : Action} (h : step s a = some s') (w : WorkerId) :
    PhaseStep s a s' w := by
  have hset {v : WorkerId} {phase : Phase} (hne : w ≠ v) :
      (s.setWorker v phase).workers w = s.workers w := Function.update_of_ne hne _ _
  have hself {phase : Phase} : (s.setWorker w phase).workers w = phase :=
    Function.update_self _ _ _
  cases step_outcome h with
  | inserted | imported | skipped | configured | archived => exact .same rfl
  | @started v clientId hphase =>
    by_cases hw : w = v
    · subst hw
      exact .left (.inr ⟨clientId, hself⟩)
    · exact .same (hset hw)
  | @claimed v now clock token clientId result db hphase hfresh hclaim =>
    by_cases hw : w = v
    · subst hw
      cases result with
      | none => exact .left (.inl hself)
      | some claim =>
        have hrows := claim_eventOutbox now clock token s.db clientId
        rw [hclaim] at hrows
        exact .claimed hfresh rfl (claim_some hclaim) hrows hself
    · exact .same (hset hw)
  | @signed v claim batch hphase signed jitter =>
    by_cases hw : w = v
    · subst hw
      exact .signed hphase hself
    · exact .same (hset hw)
  | @renewed v claim batch clock result db hphase hrenew =>
    by_cases hw : w = v
    · subst hw
      cases result with
      | true => exact .renewed hphase hself
      | false => exact .left (.inl hself)
    · exact .same (hset hw)
  | @sent v claim batch hphase answer jitter =>
    by_cases hw : w = v
    · subst hw
      exact .sent rfl hphase hself
    · exact .same (hset hw)
  | @settled v =>
    by_cases hw : w = v
    · subst hw
      exact .left (.inl hself)
    · exact .same (hset hw)
  | @settleFailed v =>
    by_cases hw : w = v
    · subst hw
      exact .left (.inl hself)
    · exact .same (hset hw)
  | crashed v =>
    by_cases hw : w = v
    · subst hw
      exact .left (.inl hself)
    · exact .same (hset hw)

/-- The claimed rows are still there as the worker read them, or closed by a
legacy import, and each prefix of them is closed under older pending rows. -/
structure Snapshot (db : Channel) (c : DestinationClaim) : Prop where
  present : ∀ e ∈ c.events, ∃ r ∈ db.eventOutbox.rows, r.wire = e.toWireEvent ∧
    r.targetClientId = c.clientId ∧ r.status ≠ .delivered ∧
    (r.status = .pending → r.attempts = e.attempts)
  closed : ∀ k, ∀ q ∈ db.eventOutbox.rows, q.id ∈ rowIds (c.events.take k) →
    ∀ r ∈ db.eventOutbox.pending c.clientId, r.sequence < q.sequence →
      r.id ∈ rowIds (c.events.take k)

theorem mem_take_of_lt {rows : List OutboxRow}
    (hordered : rows.Pairwise fun a b => a.sequence < b.sequence) {m : ℕ} {q r : OutboxRow}
    (hq : q ∈ rows.take m) (hr : r ∈ rows) (hlt : r.sequence < q.sequence) : r ∈ rows.take m := by
  rw [← List.take_append_drop m rows] at hr hordered
  rcases List.mem_append.mp hr with htake | hdrop
  · exact htake
  · have := (List.pairwise_append.mp hordered).2.2 q hq r hdrop
    omega

theorem Claimed.snapshot {now : ℤ} {token : Uuid} {db db' : Channel} {clientId : ClientId}
    {c : DestinationClaim} (h : Claimed now token db db' clientId c)
    (hrows : db'.eventOutbox = db.eventOutbox) : Snapshot db' c := by
  have hpending := db.eventOutbox.mem_pending clientId
  have htake : ∀ k, rowIds (c.events.take k) =
      ((db.eventOutbox.pending clientId).take (min k BATCH_MAX)).map fun r => r.id := by
    intro k
    rw [h.events, rowIds, ← List.map_take, List.map_map, List.take_take]
    rfl
  refine ⟨?_, ?_⟩
  · intro e he
    rw [h.events] at he
    obtain ⟨r, hr, rfl⟩ := List.mem_map.mp he
    obtain ⟨hmem, htarget, hstatus⟩ := (hpending r).mp (List.mem_of_mem_take hr)
    refine ⟨r, hrows ▸ hmem, rfl, htarget.trans h.client.symm, ?_, fun _ => rfl⟩
    simp [hstatus]
  · intro k q hq hid r hr hlt
    rw [hrows] at hq hr
    rw [h.client] at hr
    rw [htake] at hid ⊢
    obtain ⟨q', hq', hsame⟩ := List.mem_map.mp hid
    have hmem := ((hpending q').mp (List.mem_of_mem_take hq')).1
    rw [db.eventOutbox.row_ext hmem hq hsame] at hq'
    exact List.mem_map_of_mem
      (mem_take_of_lt (db.eventOutbox.pending_ordered clientId) hq' hr hlt)

/-- A row of a destination that no settlement touches is kept or replaced. -/
theorem RowStep.quiet {s s' : Service} {a : Action} {r r' : OutboxRow} (h : RowStep s a s' r r')
    {clientId : ClientId} (htarget : r.targetClientId = clientId)
    (hquiet : ∀ now claim ids outcome, Commits s a s' now claim ids outcome →
      claim.clientId ≠ clientId) : r' = r ∨ Replaced r r' := by
  cases h with
  | kept => exact .inl rfl
  | replaced hreplaced => exact .inr hreplaced
  | @settled now claim ids outcome hcommits hrow =>
    simp only [settledBy, Bool.and_eq_true, decide_eq_true_eq] at hrow
    exact (hquiet _ _ _ _ hcommits (hrow.1.1.symm.trans htarget)).elim

theorem Snapshot.step {s s' : Service} {a : Action} (h : step s a = some s')
    {c : DestinationClaim} (hsnap : Snapshot s.db c)
    (hquiet : ∀ now claim ids outcome, Commits s a s' now claim ids outcome →
      claim.clientId ≠ c.clientId) : Snapshot s'.db c := by
  have hrows := step_outbox h
  -- every claimed row lives on, with its fixed columns
  have himage : ∀ e ∈ c.events, ∃ r ∈ s.db.eventOutbox.rows, ∃ r' ∈ s'.db.eventOutbox.rows,
      r.wire = e.toWireEvent ∧ r'.toStoredEvent = r.toStoredEvent ∧
      r.targetClientId = c.clientId ∧ r'.status ≠ .delivered ∧
      (r'.status = .pending → r'.attempts = e.attempts) := by
    intro e he
    obtain ⟨r, hr, hwire, htarget, hstatus, hattempts⟩ := hsnap.present e he
    rcases hrows.target r hr with ⟨r', hr', hstep⟩ | hdelivered
    · refine ⟨r, hr, r', hr', hwire, hstep.stored, htarget, ?_⟩
      rcases hstep.quiet htarget hquiet with rfl | hreplaced
      · exact ⟨hstatus, hattempts⟩
      · simp [hreplaced.status]
    · exact (hstatus hdelivered).elim
  refine ⟨?_, ?_⟩
  · intro e he
    obtain ⟨r, -, r', hr', hwire, hstored, htarget, hstatus, hattempts⟩ := himage e he
    refine ⟨r', hr', ?_, ?_, hstatus, hattempts⟩
    · rw [← hwire, OutboxRow.wire, hstored]
      rfl
    · rw [hstored, htarget]
  · intro k q hq hid r hr hlt
    obtain ⟨e, he, hqe⟩ := List.mem_map.mp hid
    obtain ⟨q₀, hq₀, q', hq', hwire, hstored, -, -, -⟩ := himage e (List.mem_of_mem_take he)
    have hid₀ : q₀.id = e.id := congrArg WireEvent.id hwire
    have heq : q' = q := by
      refine s'.db.eventOutbox.row_ext hq' hq ?_
      rw [hstored, hid₀, hqe]
    subst heq
    obtain ⟨hmem, htarget, hstatus⟩ := (s'.db.eventOutbox.mem_pending c.clientId r).mp hr
    have hbelow := s.db.eventOutbox.below q₀ hq₀
    rw [hstored] at hlt
    rcases hrows.source r hmem with ⟨r₀, hr₀, hstep⟩ | ⟨-, hnew⟩
    · have htarget₀ : r₀.targetClientId = c.clientId := by rw [← htarget, hstep.stored]
      rcases hstep.quiet htarget₀ hquiet with rfl | hreplaced
      · exact hsnap.closed k q₀ hq₀ (by rw [hid₀, hqe]; exact hid) r
          ((s.db.eventOutbox.mem_pending c.clientId r).mpr ⟨hr₀, htarget, hstatus⟩) hlt
      · rw [hreplaced.status] at hstatus
        simp at hstatus
    · omega

/-- The invariant of a run: every token in use was drawn, every worker holds a
batch cut from its claim, and a claim whose token is stored is up to date. -/
structure Coherent (s : Service) : Prop where
  stored : ∀ clientId token, leaseToken s.db clientId = some token → token ∈ s.tokens
  drawn : ∀ w c, (s.workers w).claim? = some c → c.token ∈ s.tokens
  formed : ∀ w, (s.workers w).Formed
  current : ∀ w c, (s.workers w).claim? = some c →
    leaseToken s.db c.clientId = some c.token → Snapshot s.db c

theorem Service.Initial.coherent {s : Service} (h : s.Initial) : Coherent s where
  stored := h.drawn
  drawn := fun w c hc => by simp [h.idle w, Phase.claim?] at hc
  formed := fun w => by rw [h.idle w]; exact .idle
  current := fun w c hc => by simp [h.idle w, Phase.claim?] at hc

theorem step_tokens {s s' : Service} {a : Action} (h : step s a = some s') {token : Uuid}
    (htoken : token ∈ s.tokens) : token ∈ s'.tokens := by
  cases step_outcome h with
  | claimed => exact List.mem_cons_of_mem _ htoken
  | _ => exact htoken

theorem step_formed {s s' : Service} {a : Action} (h : step s a = some s') {w : WorkerId}
    (hformed : (s.workers w).Formed) : (s'.workers w).Formed := by
  cases step_phase h w with
  | same hsame => exact hsame ▸ hformed
  | left hphase' =>
    rcases hphase' with hidle | ⟨clientId, hclaiming⟩
    · exact hidle ▸ .idle
    · exact hclaiming ▸ .claiming clientId
  | claimed _ _ _ _ hphase' => exact hphase' ▸ afterClaim_formed _
  | signed hphase hphase' =>
    rw [hphase] at hformed
    cases hformed
    exact hphase' ▸ afterSign_formed _ _ _
  | renewed hphase hphase' =>
    rw [hphase] at hformed
    cases hformed
    exact hphase' ▸ .sending _
  | sent _ hphase hphase' =>
    rw [hphase] at hformed
    cases hformed
    exact hphase' ▸ afterSend_formed _ _ _

/-- A claim held after a step was held before it or is the one the step took. -/
theorem step_claim? {s s' : Service} {a : Action} (h : step s a = some s') {w : WorkerId}
    {c : DestinationClaim} (hc : (s'.workers w).claim? = some c) :
    (s.workers w).claim? = some c ∨ c.token ∉ s.tokens ∧ c.token ∈ s'.tokens ∧
      s'.db.eventOutbox = s.db.eventOutbox ∧
      ∃ now, Claimed now c.token s.db s'.db c.clientId c := by
  cases step_phase h w with
  | same hsame => exact .inl (hsame ▸ hc)
  | left hphase' =>
    rcases hphase' with hidle | ⟨clientId, hclaiming⟩
    · simp [hidle, Phase.claim?] at hc
    · simp [hclaiming, Phase.claim?] at hc
  | @claimed now token clientId claim hfresh htokens hclaimed hrows hphase' =>
    right
    rw [hphase'] at hc
    obtain rfl := afterClaim_claim? hc
    obtain rfl := hclaimed.token_eq
    obtain rfl := hclaimed.client
    exact ⟨hfresh, htokens ▸ List.mem_cons_self, hrows, now, hclaimed⟩
  | signed hphase hphase' =>
    rw [hphase', afterSign_claim?] at hc
    exact .inl (by rw [hphase]; exact hc)
  | renewed hphase hphase' =>
    rw [hphase'] at hc
    exact .inl (by rw [hphase]; exact hc)
  | sent _ hphase hphase' =>
    rw [hphase'] at hc
    exact .inl (by rw [hphase]; exact hc)

/-- A claim whose token is stored after a step is the one the step took, or was
stored before it and no settlement touched its destination. -/
theorem step_current {s s' : Service} {a : Action} (h : step s a = some s')
    (hdrawn : ∀ w c, (s.workers w).claim? = some c → c.token ∈ s.tokens) {w : WorkerId}
    {c : DestinationClaim} (hc : (s'.workers w).claim? = some c)
    (htoken : leaseToken s'.db c.clientId = some c.token) :
    ((s.workers w).claim? = some c ∧ leaseToken s.db c.clientId = some c.token ∧
      ∀ now claim ids outcome, Commits s a s' now claim ids outcome →
        claim.clientId ≠ c.clientId) ∨
    s'.db.eventOutbox = s.db.eventOutbox ∧
      ∃ now, Claimed now c.token s.db s'.db c.clientId c := by
  rcases step_claim? h hc with hold | ⟨-, -, hnew⟩
  · left
    cases step_lease h c.clientId with
    | released hnone => simp [hnone] at htoken
    | taken token hfresh hdrawn' htaken =>
      rw [htaken, Option.some.injEq] at htoken
      exact (hfresh (htoken ▸ hdrawn w c hold)).elim
    | kept hsame hquiet => exact ⟨hold, hsame ▸ htoken, hquiet⟩
  · exact .inr hnew

theorem Coherent.step {s s' : Service} {a : Action} (h : step s a = some s') (hs : Coherent s) :
    Coherent s' where
  stored := by
    intro clientId token htoken
    cases step_lease h clientId with
    | released hnone => simp [hnone] at htoken
    | taken token' hfresh hdrawn htaken =>
      rw [htaken, Option.some.injEq] at htoken
      exact htoken ▸ hdrawn
    | kept hsame _ => exact step_tokens h (hs.stored clientId token (hsame ▸ htoken))
  drawn := by
    intro w c hc
    rcases step_claim? h hc with hold | ⟨-, hnew, -⟩
    · exact step_tokens h (hs.drawn w c hold)
    · exact hnew
  formed := fun w => step_formed h (hs.formed w)
  current := by
    intro w c hc htoken
    rcases step_current h hs.drawn hc htoken with ⟨hold, hstored, hquiet⟩ | ⟨hrows, now, hclaimed⟩
    · exact (hs.current w c hold hstored).step h hquiet
    · exact hclaimed.snapshot hrows

/-- The run recorded the answer 204 to the batch that `w` sent under its claim. -/
def SawNoContent (trace : List (Event Service Action)) (w : WorkerId) (claim : DestinationClaim)
    (ids : List Uuid) : Prop :=
  ∃ e ∈ trace, ∃ batch jitter, e.label = .send w (some 204) jitter ∧
    e.before.workers w = .sending claim batch ∧ batchIds batch = ids

theorem afterClaim_not_delivered (claim c : DestinationClaim) (ids : List Uuid) :
    afterClaim claim ≠ .settling c ids .delivered := by
  unfold afterClaim
  simp only
  split
  · split
    · split <;> simp
    · simp
  · split <;> simp

theorem afterSend_delivered {claim c : DestinationClaim} {batch : List WireEvent}
    {answer : Option ℕ} {jitter : Fin 15000} {ids : List Uuid}
    (h : afterSend claim batch answer jitter = .settling c ids .delivered) :
    c = claim ∧ ids = batchIds batch ∧ answer = some 204 := by
  unfold afterSend at h
  simp only [Phase.settling.injEq] at h
  obtain ⟨rfl, rfl, h⟩ := h
  refine ⟨rfl, rfl, ?_⟩
  split at h
  · split at h
    · next hstatus => rw [hstatus]
    · simp [retryLater] at h
  · simp [retryLater] at h

/-- A worker settles as delivered only what it saw answered with 204. -/
theorem delivered_answered {start s : Service} {trace : List (Event Service Action)}
    (hstart : start.Initial) (run : Exec delivery start trace s) :
    ∀ w claim ids, s.workers w = .settling claim ids .delivered →
      SawNoContent trace w claim ids := by
  refine Exec.history (fun trace s => ∀ w claim ids, s.workers w = .settling claim ids .delivered →
    SawNoContent trace w claim ids) ?_ ?_ run
  · intro w claim ids hphase
    simp [hstart.idle w] at hphase
  · intro trace t l u _ ih hstep w claim ids hphase
    have hold {claim' ids'} (h : SawNoContent trace w claim' ids') :
        SawNoContent (trace ++ [⟨t, l, u⟩]) w claim' ids' := by
      obtain ⟨e, he, hseen⟩ := h
      exact ⟨e, List.mem_append_left _ he, hseen⟩
    cases step_phase hstep w with
    | same hsame => exact hold (ih w claim ids (hsame ▸ hphase))
    | left hphase' =>
      rcases hphase' with hidle | ⟨clientId, hclaiming⟩
      · simp [hidle] at hphase
      · simp [hclaiming] at hphase
    | claimed _ _ _ _ hphase' =>
      exact (afterClaim_not_delivered _ _ _ (hphase' ▸ hphase)).elim
    | @signed claim' batch signed jitter _ hphase' =>
      rw [hphase', afterSign] at hphase
      split at hphase <;> simp [retryLater] at hphase
    | renewed _ hphase' => simp [hphase'] at hphase
    | @sent claim' batch answer jitter haction hbefore hphase' =>
      obtain ⟨rfl, rfl, rfl⟩ := afterSend_delivered (hphase' ▸ hphase)
      exact ⟨⟨t, l, u⟩, by simp, batch, jitter, haction, hbefore, rfl⟩

theorem coherent_of_run {start s : Service} {trace : List (Event Service Action)}
    (hstart : start.Initial) (run : Exec delivery start trace s) : Coherent s :=
  run.preserves (fun _ _ _ hs hstep => hs.step hstep) hstart.coherent

/-- Some worker settles `r` as delivered under a lease it holds, after it saw the
answer 204 to a batch containing `r`, and leaves nothing pending before `r`. -/
def DeliveredInOrder (trace : List (Event Service Action)) (s : Service) (a : Action)
    (s' : Service) (r : OutboxRow) : Prop :=
  ∃ w now clock claim ids, a = .settle w now clock ∧
    s.workers w = .settling claim ids .delivered ∧ claim.clientId = r.targetClientId ∧
    SawNoContent trace w claim ids ∧ r.id ∈ ids ∧ holdsLease s.db claim clock = true ∧
    ∀ q ∈ s.db.eventOutbox.rows, q.targetClientId = r.targetClientId → q.sequence < r.sequence →
      q.status = .delivered ∨ q.status = .dead ∨
        q.id ∈ ids ∧ ∃ q' ∈ s'.db.eventOutbox.rows, q'.toStoredEvent = q.toStoredEvent ∧
          q'.status = .delivered

/-- The settle or renew step of a worker whose lease was replaced or has expired. -/
def StaleStep (s : Service) (a : Action) : Prop :=
  (∃ w now clock claim ids outcome, a = .settle w now clock ∧
    s.workers w = .settling claim ids outcome ∧ holdsLease s.db claim clock = false) ∨
  ∃ w clock claim batch, a = .renew w clock ∧ s.workers w = .renewing claim batch ∧
    holdsLease s.db claim clock = false

theorem stale_unchanged {s s' : Service} {a : Action} (h : step s a = some s')
    (hstale : StaleStep s a) : s'.db = s.db := by
  rcases hstale with ⟨w, now, clock, claim, ids, outcome, rfl, hphase, hheld⟩ |
    ⟨w, clock, claim, batch, rfl, hphase, hheld⟩
  · simp only [step, hphase, settle_stale hheld, Option.some.injEq] at h
    exact h ▸ rfl
  · simp only [step, hphase, renew_stale hheld, Option.some.injEq] at h
    exact h ▸ rfl

/-- A pending row is not dropped by any step. -/
theorem pending_kept {s s' : Service} {a : Action} (h : step s a = some s') {r : OutboxRow}
    (hr : r ∈ s.db.eventOutbox.rows) (hstatus : r.status = .pending) :
    ∃ r' ∈ s'.db.eventOutbox.rows, r'.toStoredEvent = r.toStoredEvent := by
  rcases (step_outbox h).target r hr with ⟨r', hr', hstep⟩ | hdelivered
  · exact ⟨r', hr', hstep.stored⟩
  · simp [hstatus] at hdelivered

/-- A row that a step newly delivers was settled as delivered by that step. -/
theorem newly_delivered {s s' : Service} {a : Action} (h : step s a = some s') {r' : OutboxRow}
    (hr' : r' ∈ s'.db.eventOutbox.rows) (hdelivered : r'.status = .delivered)
    (hbefore : ∀ r ∈ s.db.eventOutbox.rows, r.id = r'.id → r.status ≠ .delivered) :
    ∃ now claim ids, Commits s a s' now claim ids .delivered ∧
      ∃ r ∈ s.db.eventOutbox.rows, r'.toStoredEvent = r.toStoredEvent ∧
        settledBy claim ids r = true := by
  rcases (step_outbox h).source r' hr' with ⟨r, hr, hstep⟩ | ⟨hadded, -⟩
  · have hid : r.id = r'.id := by rw [hstep.stored]
    cases hstep with
    | kept => exact (hbefore _ hr rfl hdelivered).elim
    | replaced hreplaced => simp [hreplaced.status] at hdelivered
    | @settled now claim ids outcome hcommits hrow =>
      cases outcome with
      | delivered => exact ⟨now, claim, ids, hcommits, r, hr, rfl, hrow⟩
      | dead code => simp [settleRow] at hdelivered
      | retry code delayMs =>
        simp only [settleRow] at hdelivered
        split at hdelivered <;> simp at hdelivered
  · exact (hadded.status hdelivered).elim

/-- Every step of every run delivers in order, ignores a lost lease and keeps the
pending rows. A status is one of pending, delivered and dead by its type. -/
theorem ordered_delivery {start s s' : Service} {trace : List (Event Service Action)} {a : Action}
    (hstart : start.Initial) (run : Exec delivery start trace s) (hstep : step s a = some s') :
    (∀ r' ∈ s'.db.eventOutbox.rows, r'.status = .delivered →
      (∀ r ∈ s.db.eventOutbox.rows, r.id = r'.id → r.status ≠ .delivered) →
        DeliveredInOrder trace s a s' r') ∧
    (StaleStep s a → s'.db = s.db) ∧
    (∀ r ∈ s.db.eventOutbox.rows, r.status = .pending →
      ∃ r' ∈ s'.db.eventOutbox.rows, r'.toStoredEvent = r.toStoredEvent) := by
  have hs := coherent_of_run hstart run
  refine ⟨?_, stale_unchanged hstep, fun r hr hstatus => pending_kept hstep hr hstatus⟩
  intro r' hr' hdelivered hbefore
  obtain ⟨now, claim, ids, hcommits, r, hr, hstored, hrow⟩ :=
    newly_delivered hstep hr' hdelivered hbefore
  obtain ⟨w, clock, haction, hphase, hheld, hsettle⟩ := hcommits
  simp only [settledBy, Bool.and_eq_true, decide_eq_true_eq] at hrow
  obtain ⟨⟨htarget, hid⟩, -⟩ := hrow
  have hsnap : Snapshot s.db claim :=
    hs.current w claim (by rw [hphase]; rfl) (holdsLease_token hheld)
  have hformed := hs.formed w
  rw [hphase] at hformed
  obtain ⟨k, rfl⟩ := hformed.ids_take
  refine ⟨w, now, clock, claim, _, haction, hphase, ?_, delivered_answered hstart run w claim _ hphase,
    ?_, hheld, ?_⟩
  · rw [hstored, htarget]
  · rw [hstored]
    exact hid
  · intro q hq hsame hlt
    rw [hstored] at hsame hlt
    cases hstatus : q.status with
    | delivered => exact .inl rfl
    | dead => exact .inr (.inl rfl)
    | pending =>
      right; right
      have hpending : q ∈ s.db.eventOutbox.pending claim.clientId :=
        (s.db.eventOutbox.mem_pending _ q).mpr ⟨hq, hsame.trans htarget, hstatus⟩
      have hqid := hsnap.closed k r hr hid q hpending hlt
      refine ⟨hqid, ?_⟩
      obtain ⟨q', hq', hchange⟩ := ((settle_ok hheld hsettle).2.1.target q hq).resolve_right
        (by simp [hstatus])
      have hsettled : settledBy claim (rowIds (claim.events.take k)) q = true := by
        simp [settledBy, hsame.trans htarget, hqid, hstatus]
      cases hchange with
      | kept hrow => simp [hsettled] at hrow
      | changed => exact ⟨_, hq', rfl, rfl⟩

/-- One registered client, nothing enqueued and no worker at work. -/
def oneClient : Service where
  db := {
    oauthClients := (∅ : Table ClientId OauthClient).upsert (js "app")
      ⟨js "App", some (js "https://app.example/events"), none⟩
    eventOutbox := Outbox.empty
    eventDestinations := ∅
  }
  workers := fun _ => .idle
  tokens := []

theorem oneClient_initial : oneClient.Initial where
  idle := fun _ => rfl
  drawn := fun clientId token h => by simp [leaseToken, oneClient] at h

def numberedIds (n : ℕ) : Uuid := Uuid.numbered (Fin.ofNat 10 n)

def twoEvents : List OutboundEvent :=
  List.replicate 2 ⟨js "token_claims_change", .obj [(js "sub", .str (js "u"))], none, none⟩

/-- Two events of one client, sent in one batch and not yet settled. -/
def sendTwo : List Action :=
  [.insertEvents 0 numberedIds (js "app") twoEvents,
    .start 0 (js "app"), .claim 0 1 1 (Uuid.numbered 9), .sign 0 true 0, .renew 0 2,
    .send 0 (some 204) 0]

theorem exec_step (actions : List Action) {s t : Service}
    (h : actions.foldlM step s = some t) : ∃ trace, Exec delivery s trace t :=
  exec_of_foldlM (fun _ _ _ h => h) actions h

theorem ordered_delivery_sendTwo : ∃ trace s s', Exec delivery oneClient trace s ∧
    step s (.settle 0 3 3) = some s' ∧ ∃ r' ∈ s'.db.eventOutbox.rows, r'.status = .delivered ∧
      DeliveredInOrder trace s (.settle 0 3 3) s' r' := by
  have hrun : (sendTwo.foldlM step oneClient).any (fun s =>
      (s.db.eventOutbox.rows.all fun r => decide (r.status = .pending)) &&
      (step s (.settle 0 3 3)).any fun s' =>
        s'.db.eventOutbox.rows.any fun r => decide (r.status = .delivered)) = true := by
    decide +kernel
  rw [Option.any_eq_true] at hrun
  obtain ⟨s, hs, hstatus⟩ := hrun
  rw [Bool.and_eq_true, Option.any_eq_true] at hstatus
  obtain ⟨hpending, s', hstep, hdelivered⟩ := hstatus
  rw [List.any_eq_true] at hdelivered
  obtain ⟨r', hr', hr'status⟩ := hdelivered
  obtain ⟨trace, run⟩ := exec_step sendTwo hs
  have hfirst := (ordered_delivery oneClient_initial run hstep).1 r' hr' (by simpa using hr'status)
  refine ⟨trace, s, s', run, hstep, r', hr', by simpa using hr'status, hfirst ?_⟩
  intro r hr _
  have hpend : r.status = .pending := by simpa using List.all_eq_true.mp hpending r hr
  simp [hpend]

end DreamSso
