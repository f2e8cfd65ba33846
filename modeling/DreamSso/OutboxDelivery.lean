import DreamSso.Library.Transitions
import DreamSso.OutboxRows
import Mathlib.Logic.Function.Basic

/-!
Producers and delivery workers over one outbox. Every committed transaction and
every HTTP request is one step; a worker holds only what `deliverDestination`
keeps in memory between two awaits, so it may stop at any of them and its lease
then runs out. A failed transaction leaves nothing but unused sequence values.
-/
namespace DreamSso

open JsStrings KeyedTables Transitions

abbrev WorkerId := ℕ

/-- Where one call of `deliverDestination` stands. -/
inductive Phase
  | idle
  | claiming (clientId : ClientId)
  | signing (claim : DestinationClaim) (batch : List WireEvent)
  | renewing (claim : DestinationClaim) (batch : List WireEvent)
  | sending (claim : DestinationClaim) (batch : List WireEvent)
  | settling (claim : DestinationClaim) (ids : List Uuid) (outcome : Settlement)
  deriving DecidableEq

def batchIds (batch : List WireEvent) : List Uuid := batch.map fun e => e.id

def retryLater (code : String) (claim : DestinationClaim) (jitter : Fin 15000) : Settlement :=
  .retry code (backoffMs (claim.failures + 1) jitter)

def afterClaim (claim : DestinationClaim) : Phase :=
  let batch := boundedBatch claim.events
  if batch = [] then
    match claim.events with
    | row :: _ => if row.due then .settling claim [row.id] (.dead "event_too_large") else .idle
    | [] => .idle
  else if (claim.uri.all fun uri => decide (uri = [])) || claim.disabled then
    .settling claim (batchIds batch) (.dead "destination_unavailable")
  else .signing claim batch

def afterSign (claim : DestinationClaim) (batch : List WireEvent) (signed : Bool)
    (jitter : Fin 15000) : Phase :=
  if signed then .renewing claim batch
  else .settling claim (batchIds batch) (retryLater "signing_failed" claim jitter)

def afterRenew (claim : DestinationClaim) (batch : List WireEvent) (renewed : Bool) : Phase :=
  if renewed then .sending claim batch else .idle

/-- `answer` is the status of the response, or `none` when the request threw. -/
def afterSend (claim : DestinationClaim) (batch : List WireEvent) (answer : Option ℕ)
    (jitter : Fin 15000) : Phase :=
  .settling claim (batchIds batch) (match answer with
    | some status =>
        if status = 204 then .delivered else retryLater "http_rejected" claim jitter
    | none => retryLater "delivery_failed" claim jitter)

/-- The database, the workers and the lease tokens drawn so far. -/
structure Service where
  db : Channel
  workers : WorkerId → Phase
  tokens : List Uuid

def Service.setWorker (s : Service) (w : WorkerId) (phase : Phase) : Service :=
  { s with workers := Function.update s.workers w phase }

inductive Action
  | insertEvents (now : ℤ) (uuid : ℕ → Uuid) (clientId : ClientId) (events : List OutboundEvent)
  | insertLegacyEvent (now : ℤ) (clientId : ClientId) (event : LegacyEvent)
  | sequenceGap (n : ℕ)
  | updateClient (clientId : ClientId) (client : OauthClient)
  | cleanupArchive (now : ℤ)
  | start (w : WorkerId) (clientId : ClientId)
  | claim (w : WorkerId) (now clock : ℤ) (token : Uuid)
  | sign (w : WorkerId) (signed : Bool) (jitter : Fin 15000)
  | renew (w : WorkerId) (clock : ℤ)
  | send (w : WorkerId) (answer : Option ℕ) (jitter : Fin 15000)
  | settle (w : WorkerId) (now clock : ℤ)
  | crash (w : WorkerId)

/-- One step. A random lease token differs from every token drawn before. -/
def step (s : Service) : Action → Option Service
  | .insertEvents now uuid clientId events =>
      match insertEvents now uuid s.db clientId events with
      | .ok (_, db) => some { s with db := db }
      | .error _ => none
  | .insertLegacyEvent now clientId event =>
      match insertLegacyEvent now s.db clientId event with
      | .ok (_, db) => some { s with db := db }
      | .error _ => none
  | .sequenceGap n => some { s with db := { s.db with eventOutbox := s.db.eventOutbox.skip n } }
  | .updateClient clientId client =>
      some { s with db := { s.db with oauthClients := s.db.oauthClients.upsert clientId client } }
  | .cleanupArchive now => some { s with db := cleanupArchive now s.db }
  | .start w clientId => match s.workers w with
      | .idle => some (s.setWorker w (.claiming clientId))
      | _ => none
  | .claim w now clock token => match s.workers w with
      | .claiming clientId =>
          if token ∈ s.tokens then none
          else
            let (claimed, db) := claim now clock token s.db clientId
            let moved := s.setWorker w (claimed.elim .idle afterClaim)
            some { moved with db := db, tokens := token :: s.tokens }
      | _ => none
  | .sign w signed jitter => match s.workers w with
      | .signing claim batch => some (s.setWorker w (afterSign claim batch signed jitter))
      | _ => none
  | .renew w clock => match s.workers w with
      | .renewing claim batch =>
          let (renewed, db) := renew clock s.db claim
          some { s.setWorker w (afterRenew claim batch renewed) with db := db }
      | _ => none
  | .send w answer jitter => match s.workers w with
      | .sending claim batch => some (s.setWorker w (afterSend claim batch answer jitter))
      | _ => none
  | .settle w now clock => match s.workers w with
      | .settling claim ids outcome => match settle now clock s.db claim ids outcome with
          | .ok (_, db) => some { s.setWorker w .idle with db := db }
          | .error _ => some (s.setWorker w .idle)
      | _ => none
  | .crash w => some (s.setWorker w .idle)

/-- Any tables, with no worker at work and every stored token drawn. -/
structure Service.Initial (s : Service) : Prop where
  idle : ∀ w, s.workers w = .idle
  drawn : ∀ clientId token, leaseToken s.db clientId = some token → token ∈ s.tokens

def delivery : System Service Action where
  initial := Service.Initial
  step := fun s a s' => step s a = some s'

/-- The steps with the result of the transaction each of them ran. -/
inductive Outcome (s : Service) : Action → Service → Prop
  | inserted {now : ℤ} {uuid : ℕ → Uuid} {clientId : ClientId} {events : List OutboundEvent}
      {ids : List Uuid} {db : Channel}
      (hok : DreamSso.insertEvents now uuid s.db clientId events = .ok (ids, db)) :
      Outcome s (.insertEvents now uuid clientId events) { s with db := db }
  | imported {now : ℤ} {clientId : ClientId} {event : LegacyEvent} {fresh : Bool} {db : Channel}
      (hok : DreamSso.insertLegacyEvent now s.db clientId event = .ok (fresh, db)) :
      Outcome s (.insertLegacyEvent now clientId event) { s with db := db }
  | skipped (n : ℕ) : Outcome s (.sequenceGap n)
      { s with db := { s.db with eventOutbox := s.db.eventOutbox.skip n } }
  | configured (clientId : ClientId) (client : OauthClient) :
      Outcome s (.updateClient clientId client)
        { s with db := { s.db with oauthClients := s.db.oauthClients.upsert clientId client } }
  | archived (now : ℤ) :
      Outcome s (.cleanupArchive now) { s with db := DreamSso.cleanupArchive now s.db }
  | started {w : WorkerId} {clientId : ClientId} (hphase : s.workers w = .idle) :
      Outcome s (.start w clientId) (s.setWorker w (.claiming clientId))
  | claimed {w : WorkerId} {now clock : ℤ} {token : Uuid} {clientId : ClientId}
      {result : Option DestinationClaim} {db : Channel}
      (hphase : s.workers w = .claiming clientId) (hfresh : token ∉ s.tokens)
      (hclaim : DreamSso.claim now clock token s.db clientId = (result, db)) :
      Outcome s (.claim w now clock token)
        { s.setWorker w (result.elim .idle afterClaim) with db := db, tokens := token :: s.tokens }
  | signed {w : WorkerId} {claim : DestinationClaim} {batch : List WireEvent}
      (hphase : s.workers w = .signing claim batch) (signed : Bool) (jitter : Fin 15000) :
      Outcome s (.sign w signed jitter) (s.setWorker w (afterSign claim batch signed jitter))
  | renewed {w : WorkerId} {claim : DestinationClaim} {batch : List WireEvent} {clock : ℤ}
      {result : Bool} {db : Channel} (hphase : s.workers w = .renewing claim batch)
      (hrenew : DreamSso.renew clock s.db claim = (result, db)) :
      Outcome s (.renew w clock) { s.setWorker w (afterRenew claim batch result) with db := db }
  | sent {w : WorkerId} {claim : DestinationClaim} {batch : List WireEvent}
      (hphase : s.workers w = .sending claim batch) (answer : Option ℕ) (jitter : Fin 15000) :
      Outcome s (.send w answer jitter) (s.setWorker w (afterSend claim batch answer jitter))
  | settled {w : WorkerId} {now clock : ℤ} {claim : DestinationClaim} {ids : List Uuid}
      {outcome : Settlement} {result : Bool} {db : Channel}
      (hphase : s.workers w = .settling claim ids outcome)
      (hok : DreamSso.settle now clock s.db claim ids outcome = .ok (result, db)) :
      Outcome s (.settle w now clock) { s.setWorker w .idle with db := db }
  | settleFailed {w : WorkerId} {now clock : ℤ} {claim : DestinationClaim} {ids : List Uuid}
      {outcome : Settlement} {failure : Failure}
      (hphase : s.workers w = .settling claim ids outcome)
      (hfailed : DreamSso.settle now clock s.db claim ids outcome = .error failure) :
      Outcome s (.settle w now clock) (s.setWorker w .idle)
  | crashed (w : WorkerId) : Outcome s (.crash w) (s.setWorker w .idle)

theorem step_outcome {s s' : Service} {a : Action} (h : step s a = some s') : Outcome s a s' := by
  cases a with
  | insertEvents now uuid clientId events =>
    simp only [step] at h
    split at h
    · next hok => exact Option.some.inj h ▸ .inserted hok
    · simp at h
  | insertLegacyEvent now clientId event =>
    simp only [step] at h
    split at h
    · next hok => exact Option.some.inj h ▸ .imported hok
    · simp at h
  | sequenceGap n => exact Option.some.inj h ▸ .skipped n
  | updateClient clientId client => exact Option.some.inj h ▸ .configured clientId client
  | cleanupArchive now => exact Option.some.inj h ▸ .archived now
  | start w clientId =>
    simp only [step] at h
    split at h
    · next hphase => exact Option.some.inj h ▸ .started hphase
    · simp at h
  | claim w now clock token =>
    simp only [step] at h
    split at h
    · next hphase =>
      split at h
      · simp at h
      · next hfresh => exact Option.some.inj h ▸ .claimed hphase hfresh rfl
    · simp at h
  | sign w signed jitter =>
    simp only [step] at h
    split at h
    · next hphase => exact Option.some.inj h ▸ .signed hphase signed jitter
    · simp at h
  | renew w clock =>
    simp only [step] at h
    split at h
    · next hphase => exact Option.some.inj h ▸ .renewed hphase rfl
    · simp at h
  | send w answer jitter =>
    simp only [step] at h
    split at h
    · next hphase => exact Option.some.inj h ▸ .sent hphase answer jitter
    · simp at h
  | settle w now clock =>
    simp only [step] at h
    split at h
    · next hphase =>
      split at h
      · next hok => exact Option.some.inj h ▸ .settled hphase hok
      · next hfailed => exact Option.some.inj h ▸ .settleFailed hphase hfailed
    · simp at h
  | crash w => exact Option.some.inj h ▸ .crashed w

/-- The settlement one step committed, if it was one. -/
structure Commits (s : Service) (a : Action) (s' : Service) (now : ℤ) (claim : DestinationClaim)
    (ids : List Uuid) (outcome : Settlement) : Prop where
  step : ∃ w clock, a = .settle w now clock ∧ s.workers w = .settling claim ids outcome ∧
    holdsLease s.db claim clock = true ∧
    DreamSso.settle now clock s.db claim ids outcome = .ok (true, s'.db)

/-- What one step may do to a stored row. -/
inductive RowStep (s : Service) (a : Action) (s' : Service) (r : OutboxRow) : OutboxRow → Prop
  | kept : RowStep s a s' r r
  | replaced {r' : OutboxRow} (hreplaced : Replaced r r') : RowStep s a s' r r'
  | settled {now : ℤ} {claim : DestinationClaim} {ids : List Uuid} {outcome : Settlement}
      (hcommits : Commits s a s' now claim ids outcome) (hrow : settledBy claim ids r = true) :
      RowStep s a s' r { r with toDelivery := settleRow now outcome r.toDelivery }

theorem RowStep.stored {s s' : Service} {a : Action} {r r' : OutboxRow}
    (h : RowStep s a s' r r') : r'.toStoredEvent = r.toStoredEvent := by
  cases h with
  | kept => rfl
  | replaced hreplaced => exact hreplaced.stored
  | settled => rfl

/-- What one step may add to the outbox. -/
def Added (a : Action) (r : OutboxRow) : Prop :=
  match a with
  | .insertEvents _ _ clientId _ => Enqueued clientId r
  | .insertLegacyEvent _ clientId _ => r.targetClientId = clientId ∧ r.status ≠ .delivered
  | _ => False

theorem Added.status {a : Action} {r : OutboxRow} (h : Added a r) : r.status ≠ .delivered := by
  unfold Added at h
  split at h
  · simp [h.status]
  · exact h.2
  · exact h.elim

theorem step_outbox {s s' : Service} {a : Action} (h : step s a = some s') :
    Rewrites (Added a) (RowStep s a s') s.db.eventOutbox s'.db.eventOutbox := by
  have hrefl : ∀ r, RowStep s a s' r r := fun r => .kept
  have hsame : s'.db.eventOutbox = s.db.eventOutbox →
      Rewrites (Added a) (RowStep s a s') s.db.eventOutbox s'.db.eventOutbox := by
    intro heq
    rw [heq]
    exact Rewrites.refl hrefl _
  cases step_outcome h with
  | inserted hok => exact (insertEvents_ok hok).2.rewrites hrefl
  | imported hok =>
    refine (insertLegacyEvent_ok hok).2.mono (fun r hr => hr) ?_
    rintro r r' (rfl | hreplaced)
    · exact .kept
    · exact .replaced hreplaced
  | skipped n => exact (skip_appended _ _ n).rewrites hrefl
  | archived now =>
    refine (cleanupArchive_rewrites _ now s.db).mono (fun r hr => hr) ?_
    rintro r r' rfl
    exact .kept
  | @claimed w now clock token clientId result db hphase hfresh hclaim =>
    have hout := claim_eventOutbox now clock token s.db clientId
    rw [hclaim] at hout
    exact hsame hout
  | @renewed w claim batch clock result db hphase hrenew =>
    have hout := renew_eventOutbox clock s.db claim
    rw [hrenew] at hout
    exact hsame hout
  | @settled w now clock claim ids outcome result db hphase hok =>
    cases hheld : holdsLease s.db claim clock with
    | false =>
      rw [settle_stale hheld ids outcome] at hok
      simp only [Except.ok.injEq, Prod.mk.injEq] at hok
      exact hsame (congrArg Channel.eventOutbox hok.2.symm)
    | true =>
      obtain ⟨rfl, hrows, -⟩ := settle_ok hheld hok
      refine hrows.mono (fun r hr => hr.elim) ?_
      rintro r r' (hrow | hrow)
      · exact .kept
      · exact .settled ⟨w, clock, rfl, hphase, hheld, hok⟩ hrow
  | configured | started | signed | sent | settleFailed | crashed => exact hsame rfl

/-- What one step may do to the lease of a destination. While the token stays,
no settlement touches the rows of that destination. -/
inductive LeaseStep (s : Service) (a : Action) (clientId : ClientId) (s' : Service) : Prop
  | released (hnone : leaseToken s'.db clientId = none)
  | taken (token : Uuid) (hfresh : token ∉ s.tokens) (hdrawn : token ∈ s'.tokens)
      (htoken : leaseToken s'.db clientId = some token)
  | kept (hsame : leaseToken s'.db clientId = leaseToken s.db clientId)
      (hquiet : ∀ now claim ids outcome, Commits s a s' now claim ids outcome →
        claim.clientId ≠ clientId)

/-- Only a settle step commits a settlement. -/
theorem not_commits {s s' : Service} {a : Action} (ha : ∀ w now clock, a ≠ .settle w now clock)
    (now : ℤ) (claim : DestinationClaim) (ids : List Uuid) (outcome : Settlement) :
    ¬Commits s a s' now claim ids outcome := by
  rintro ⟨w, clock, haction, -⟩
  exact ha w now clock haction

theorem step_lease {s s' : Service} {a : Action} (h : step s a = some s') (clientId : ClientId) :
    LeaseStep s a clientId s' := by
  have hother (hsame : leaseToken s'.db clientId = leaseToken s.db clientId)
      (ha : ∀ w now clock, a ≠ .settle w now clock) : LeaseStep s a clientId s' :=
    .kept hsame fun now claim ids outcome hcommits =>
      (not_commits ha now claim ids outcome hcommits).elim
  cases step_outcome h with
  | inserted hok => exact hother ((insertEvents_ok hok).1 clientId) (by simp)
  | imported hok => exact hother ((insertLegacyEvent_ok hok).1 clientId) (by simp)
  | @claimed w now clock token target result db hphase hfresh hclaim =>
    have htoken := claim_token now clock token s.db target clientId
    rw [hclaim] at htoken
    rcases htoken with hsame | hnone | ⟨-, htaken⟩
    · exact hother hsame (by simp)
    · exact .released hnone
    · exact .taken token hfresh List.mem_cons_self htaken
  | @renewed w claim batch clock result db hphase hrenew =>
    have htoken := renew_token clock s.db claim clientId
    rw [hrenew] at htoken
    exact hother htoken (by simp)
  | @settled w now clock claim ids outcome result db hphase hok =>
    cases hheld : holdsLease s.db claim clock with
    | false =>
      rw [settle_stale hheld ids outcome] at hok
      simp only [Except.ok.injEq, Prod.mk.injEq] at hok
      refine .kept (by simp only [← hok.2]) ?_
      rintro now' claim' ids' outcome' ⟨w', clock', haction, hphase', hheld', -⟩
      cases haction
      rw [hphase, Phase.settling.injEq] at hphase'
      rw [← hphase'.1, hheld] at hheld'
      simp at hheld'
    | true =>
      have htoken := (settle_ok hheld hok).2.2 clientId
      split at htoken
      · exact .released htoken
      · next hclient =>
        refine .kept htoken ?_
        rintro now' claim' ids' outcome' ⟨w', clock', haction, hphase', -⟩
        cases haction
        rw [hphase, Phase.settling.injEq] at hphase'
        rw [← hphase'.1]
        exact fun hsame => hclient hsame.symm
  | @settleFailed w now clock claim ids outcome failure hphase hfailed =>
    refine .kept rfl ?_
    rintro now' claim' ids' outcome' ⟨w', clock', haction, hphase', -, hok⟩
    cases haction
    rw [hphase, Phase.settling.injEq] at hphase'
    obtain ⟨rfl, rfl, rfl⟩ := hphase'
    rw [hfailed] at hok
    simp at hok
  | skipped | configured | archived | started | signed | sent | crashed =>
    exact hother rfl (by simp)

end DreamSso
