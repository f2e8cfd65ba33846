import DreamSso.EventTables
import DreamSso.Library.StoredJson

/-!
The statements of the outbox store: enqueueing, the import of legacy events and
the claim, renew and settle transactions of a delivery worker. `now` is the
start of the transaction and `clock` its clock_timestamp; both are in
milliseconds. The random uuid of the event inserted at sequence `n` is `uuid n`.
-/
namespace DreamSso

open JsStrings JsonValues KeyedTables StoredJson Fallible

def BATCH_MAX : ℕ := 100
def EVENT_BYTES_MAX : ℕ := 64 * 1024
def MAX_ATTEMPTS : ℕ := 50
def LEASE_MS : ℤ := 30000
def MAX_BIGINT : ℕ := 9223372036854775807
def INT_MAX : ℕ := 2147483647

structure OutboundEvent where
  type : JsString
  payload : Json
  version : Option JsString
  id : Option JsString

structure WireEvent where
  id : Uuid
  type : JsString
  payload : Json
  deriving DecidableEq

def WireEvent.json (e : WireEvent) : Json :=
  Json.ofObject [("id", .str e.id.text), ("type", .str e.type), ("payload", e.payload)]

def objectPayload : Json → Bool
  | .obj _ => true
  | _ => false

/-- UTF-8 bytes of the JSON text of a batch. -/
def eventBytes (events : List WireEvent) : ℕ :=
  byteLength (Json.arr (events.map WireEvent.json)).stringify

/-- The version pattern, `0` or up to nineteen digits without a leading zero,
read as a bigint. -/
def bigintText? (s : JsString) : Option ℕ :=
  if (decide (s = js "0") || (decide (s ≠ []) && decide (s.length ≤ 19) && s.all isDigitUnit &&
      decide (s.head? ≠ some 0x30))) && decide (digitsValue s ≤ MAX_BIGINT) then
    some (digitsValue s)
  else none

structure NormalizedEvent extends WireEvent where
  version : ℕ

def normalizedEvent (randomUUID : Uuid) (event : OutboundEvent) :
    Except Failure NormalizedEvent :=
  let id := match event.id with
    | some text => Uuid.parse? text
    | none => some randomUUID
  match id, bigintText? (event.version.getD (js "0")) with
  | some id, some version =>
      if event.type = [] ∨ event.type.length > 200 ∨ objectPayload event.payload = false then
        .error (.outbox "invalid_event")
      else if eventBytes [⟨id, event.type, event.payload⟩] > EVENT_BYTES_MAX then
        .error (.outbox "event_too_large")
      else .ok ⟨⟨id, event.type, event.payload⟩, version⟩
  | _, _ => .error (.outbox "invalid_event")

/-- Every event is normalized before the first statement; the `i`-th generated
id belongs to the `i`-th sequence value to be drawn. -/
def normalizeAll (uuid : ℕ → Uuid) (sequence : ℕ) :
    List OutboundEvent → Except Failure (List NormalizedEvent)
  | [] => .ok []
  | event :: rest => do
      let first ← normalizedEvent (uuid sequence) event
      let others ← normalizeAll uuid (sequence + 1) rest
      .ok (first :: others)

/-- The destination row is created on demand, against its foreign key, and then
locked; the lock orders the sequence values of one destination. -/
def lockDestination (now : ℤ) (db : Channel) (clientId : ClientId) : Except Failure Channel :=
  if db.eventDestinations.contains clientId then .ok db
  else if db.oauthClients.contains clientId then
    .ok { db with eventDestinations := db.eventDestinations.upsert clientId ⟨none, now, 0⟩ }
  else .error (.database "event_destinations_client_id_fkey")

/-- The row a first insert of an event stores. -/
def pendingRow (now : ℤ) (clientId : ClientId) (id : Uuid) (kind : JsString) (payload : Json)
    (version : ℕ) : OutboxRow where
  sequence := 0
  id := id
  kind := kind
  targetClientId := clientId
  payload := payload
  version := version
  createdAt := now
  status := .pending
  attempts := 0
  nextAttemptAt := now
  deliveredAt := none
  lastErrorCode := none
  legacyRedisMember := none
  legacyRedisScore := none

/-- A conflicting id never overwrites the stored row. -/
def insertEvent (now : ℤ) (clientId : ClientId) (db : Channel) (event : NormalizedEvent) :
    Except Failure Channel :=
  match textInput event.type, jsonbInput event.payload with
  | some kind, some payload =>
      match db.eventOutbox.insert? (pendingRow now clientId event.id kind payload event.version) with
      | some outbox => .ok { db with eventOutbox := outbox }
      | none =>
          if db.eventOutbox.rows.any fun r => decide (r.id = event.id) && decide (r.kind = kind) &&
              decide (r.targetClientId = clientId) && decide (r.payload = payload) &&
              decide (r.version = event.version) then
            .ok { db with eventOutbox := db.eventOutbox.skip 1 }
          else .error (.outbox "event_id_conflict")
  | _, _ => .error (.database "untranslatable_character")

def insertEvents (now : ℤ) (uuid : ℕ → Uuid) (db : Channel) (clientId : ClientId)
    (events : List OutboundEvent) : Except Failure (List Uuid × Channel) := do
  let normalized ← normalizeAll uuid db.eventOutbox.nextSequence events
  if normalized.isEmpty then .ok ([], db)
  else
    let locked ← lockDestination now db clientId
    let written ← normalized.foldlM (insertEvent now clientId) locked
    .ok (normalized.map fun e => e.id, written)

structure PendingRow extends WireEvent where
  attempts : ℕ
  due : Bool
  deriving DecidableEq

structure DestinationClaim where
  clientId : ClientId
  token : Uuid
  uri : Option JsString
  disabled : Bool
  failures : ℕ
  events : List PendingRow
  deriving DecidableEq

inductive Settlement
  | delivered
  | retry (code : String) (delayMs : ℤ)
  | dead (code : String)
  deriving DecidableEq

def setDestination (db : Channel) (clientId : ClientId) (d : Destination) : Channel :=
  { db with eventDestinations := db.eventDestinations.upsert clientId d }

/-- `lease_until IS NULL OR lease_until<=clock_timestamp()`. -/
def leaseFree (d : Destination) (clock : ℤ) : Bool :=
  match d.lease with
  | none => true
  | some l => decide (l.leaseUntil ≤ clock)

/-- `lease_token=$2 AND lease_until>clock_timestamp()`. -/
def holdsLease (db : Channel) (claim : DestinationClaim) (clock : ℤ) : Bool :=
  match db.eventDestinations.find? claim.clientId with
  | some d => match d.lease with
    | some l => decide (l.token = claim.token) && decide (clock < l.leaseUntil)
    | none => false
  | none => false

/-- Clients that have a pending event, are due and are not leased, soonest first. -/
def destinations (now clock : ℤ) (db : Channel) (limit : ℕ) : List ClientId :=
  let ready := db.eventDestinations.rows.filter fun r =>
    decide (r.2.nextAttemptAt ≤ now) && leaseFree r.2 clock && !(db.eventOutbox.pending r.1).isEmpty
  let ordered := ready.insertionSort fun a b =>
    a.2.nextAttemptAt < b.2.nextAttemptAt ∨
      (a.2.nextAttemptAt = b.2.nextAttemptAt ∧ a.1 ≤ b.1)
  (ordered.take (min (max limit 1) 64)).map fun r => r.1

/-- Give up the lease; the destination sleeps until its oldest pending row is due. -/
def release (now : ℤ) (db : Channel) (clientId : ClientId) (token : Uuid) (failures : ℕ) :
    Channel :=
  match db.eventDestinations.find? clientId with
  | none => db
  | some d =>
      if d.lease.any fun l => decide (l.token = token) then
        let next := (db.eventOutbox.pending clientId).head?.elim now fun r => r.nextAttemptAt
        setDestination db clientId ⟨none, next, failures⟩
      else db

def PendingRow.ofRow (now : ℤ) (r : OutboxRow) : PendingRow :=
  ⟨⟨r.id, r.kind, r.payload⟩, r.attempts, decide (r.nextAttemptAt ≤ now)⟩

/-- The lease is taken before the rows are read, in one transaction. -/
def claim (now clock : ℤ) (token : Uuid) (db : Channel) (clientId : ClientId) :
    Option DestinationClaim × Channel :=
  match db.eventDestinations.find? clientId with
  | none => (none, db)
  | some destination =>
      if decide (destination.nextAttemptAt ≤ now) && leaseFree destination clock then
        let leased := setDestination db clientId
          { destination with lease := some ⟨token, clock + LEASE_MS⟩ }
        let rows := ((db.eventOutbox.pending clientId).take BATCH_MAX).map (PendingRow.ofRow now)
        if rows.head?.any fun r => r.due then
          let client := db.oauthClients.find? clientId
          (some {
            clientId := clientId
            token := token
            uri := client.bind fun c => c.eventsUri
            disabled := client.all fun c => c.disabledAt.isSome
            failures := destination.failures
            events := rows
          }, leased)
        else (none, release now leased clientId token destination.failures)
      else (none, db)

def renew (clock : ℤ) (db : Channel) (claim : DestinationClaim) : Bool × Channel :=
  match db.eventDestinations.find? claim.clientId with
  | none => (false, db)
  | some destination =>
      let current := (db.oauthClients.find? claim.clientId).any fun c =>
        c.disabledAt.isNone && claim.uri.isSome && decide (c.eventsUri = claim.uri)
      if holdsLease db claim clock && current then
        (true, setDestination db claim.clientId
          { destination with lease := some ⟨claim.token, clock + LEASE_MS⟩ })
      else (false, db)

/-- Rows a settlement updates. -/
def settledBy (claim : DestinationClaim) (ids : List Uuid) (r : OutboxRow) : Bool :=
  decide (r.targetClientId = claim.clientId) && decide (r.id ∈ ids) && decide (r.status = .pending)

def settleRow (now : ℤ) (outcome : Settlement) (d : Delivery) : Delivery :=
  match outcome with
  | .delivered => { d with status := .delivered, deliveredAt := some now, lastErrorCode := none }
  | .dead code => { d with status := .dead, lastErrorCode := some code }
  | .retry code delayMs => { d with
      attempts := d.attempts + 1
      status := if d.attempts + 1 ≥ MAX_ATTEMPTS then .dead else .pending
      nextAttemptAt := now + delayMs
      lastErrorCode := some code }

def retryFailures (claim : DestinationClaim) : Settlement → ℕ
  | .retry _ _ => min (claim.failures + 1) MAX_ATTEMPTS
  | _ => 0

def isRetry : Settlement → Bool
  | .retry _ _ => true
  | _ => false

/-- The lease is checked and the destination locked first; the integer column
cannot count past its maximum, which aborts the transaction. -/
def settle (now clock : ℤ) (db : Channel) (claim : DestinationClaim) (ids : List Uuid)
    (outcome : Settlement) : Except Failure (Bool × Channel) :=
  if holdsLease db claim clock then
    if isRetry outcome && db.eventOutbox.rows.any fun r =>
        settledBy claim ids r && decide (r.attempts ≥ INT_MAX) then
      .error (.database "numeric_value_out_of_range")
    else
      let updated := { db with
        eventOutbox := db.eventOutbox.updateWhere (settledBy claim ids) (settleRow now outcome) }
      .ok (true, release now updated claim.clientId claim.token (retryFailures claim outcome))
  else .ok (false, db)

instance instNeZeroJitter : NeZero 15000 := ⟨by decide⟩

/-- `jitter` is the random part, below fifteen seconds. -/
def backoffMs (failures : ℕ) (jitter : Fin 15000) : ℤ :=
  ((min (60000 * 2 ^ min (failures - 1) 6) 3600000 + jitter.val : ℕ) : ℤ)

/-- The longest due prefix that fits one envelope; a head that already failed
is retried alone. -/
def boundedBatchFrom (batch : List WireEvent) : List PendingRow → List WireEvent
  | [] => batch
  | row :: rest =>
      if row.due = false then batch
      else if eventBytes (batch ++ [row.toWireEvent]) > EVENT_BYTES_MAX then batch
      else boundedBatchFrom (batch ++ [row.toWireEvent]) rest

def boundedBatch (rows : List PendingRow) : List WireEvent :=
  let limit := if rows.head?.any fun r => decide (r.attempts > 0) then 1 else BATCH_MAX
  boundedBatchFrom [] (rows.take limit)

structure LegacyEvent extends WireEvent where
  attempts : ℕ
  createdAt : ℤ
  dueAt : ℤ
  member : JsString
  score : JsNumber

/-- A legacy event keeps its attempts and due time. A legacy role event is
stored as a terminal receipt, because a fresh role event replaces it. -/
def insertLegacyEvent (now : ℤ) (db : Channel) (clientId : ClientId) (event : LegacyEvent) :
    Except Failure (Bool × Channel) := do
  let db ← lockDestination now db clientId
  let replaced := decide (event.type = js "account.roles_change")
  match textInput event.type, jsonbInput event.payload, textInput event.member with
  | some kind, some payload, some member =>
      let row : OutboxRow := { pendingRow now clientId event.id kind payload 0 with
        attempts := event.attempts
        nextAttemptAt := event.dueAt
        createdAt := event.createdAt
        status := if replaced then .dead else .pending
        lastErrorCode := if replaced then some "legacy_role_replaced" else none
        legacyRedisMember := some member
        legacyRedisScore := some event.score }
      match db.eventOutbox.insert? row with
      | some outbox => .ok (true, { db with eventOutbox := outbox })
      | none =>
          match db.eventOutbox.rows.find? fun r => decide (r.id = event.id) && decide (r.kind = kind) &&
              decide (r.targetClientId = clientId) && decide (r.payload = payload) with
          | none => .error (.outbox "legacy_id_conflict")
          | some existing =>
              let burned := db.eventOutbox.skip 1
              if replaced && decide (existing.status = .pending) then
                let close := fun d : Delivery => { d with
                  status := .dead
                  lastErrorCode := some "legacy_role_replaced"
                  legacyRedisMember := d.legacyRedisMember.or (some member)
                  legacyRedisScore := d.legacyRedisScore.or (some event.score) }
                .ok (true, { db with
                  eventOutbox := burned.updateWhere (fun r => decide (r.id = event.id)) close })
              else .ok (false, { db with eventOutbox := burned })
  | _, _, _ => .error (.database "untranslatable_character")

/-- Delivered rows are dropped after thirty days, at most a thousand at a time. -/
def archivable (now : ℤ) (r : OutboxRow) : Bool :=
  decide (r.status = .delivered) && r.deliveredAt.any fun t => decide (t < now - 2592000000)

def cleanupArchive (now : ℤ) (db : Channel) : Channel :=
  let batch := ((db.eventOutbox.rows.filter (archivable now)).take 1000).map fun r => r.id
  { db with eventOutbox := db.eventOutbox.deleteWhere fun r => decide (r.id ∈ batch) }

end DreamSso
