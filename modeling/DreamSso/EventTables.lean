import DreamSso.Identifiers

/-!
Tables of the event channel: registered clients, the outbox and one delivery
destination for each client. An outbox value lists its rows in sequence order
and cannot hold two rows with one id or a row at or above the next sequence
value, so ORDER BY sequence is list order. Deliveries change only the columns
of `Delivery`; the columns of `StoredEvent` are fixed at the insert.
-/
namespace DreamSso

open JsStrings JsonValues KeyedTables

inductive EventStatus
  | pending
  | delivered
  | dead
  deriving DecidableEq

structure StoredEvent where
  sequence : ℕ
  id : Uuid
  kind : JsString
  targetClientId : ClientId
  payload : Json
  version : ℕ
  createdAt : ℤ
  deriving DecidableEq

structure Delivery where
  status : EventStatus
  attempts : ℕ
  nextAttemptAt : ℤ
  deliveredAt : Option ℤ
  lastErrorCode : Option String
  legacyRedisMember : Option JsString
  legacyRedisScore : Option JsNumber
  deriving DecidableEq

structure OutboxRow extends StoredEvent, Delivery
  deriving DecidableEq

/-- `event_outbox` with the identity sequence that numbers its rows. -/
structure Outbox where
  rows : List OutboxRow
  nextSequence : ℕ
  ordered : rows.Pairwise fun a b => a.sequence < b.sequence
  below : ∀ r ∈ rows, r.sequence < nextSequence
  uniqueIds : (rows.map fun r => r.id).Nodup

namespace Outbox

def empty : Outbox := ⟨[], 1, List.Pairwise.nil, by simp, by simp⟩

instance : Inhabited Outbox := ⟨empty⟩

instance : DecidableEq Outbox := fun a b =>
  decidable_of_iff (a.rows = b.rows ∧ a.nextSequence = b.nextSequence) (by
    cases a; cases b; simp)

def find? (o : Outbox) (id : Uuid) : Option OutboxRow := o.rows.find? fun r => decide (r.id = id)

/-- Sequence values drawn without a row staying: a conflicting or rolled-back insert. -/
def skip (o : Outbox) (n : ℕ) : Outbox where
  rows := o.rows
  nextSequence := o.nextSequence + n
  ordered := o.ordered
  below := fun r hr => Nat.lt_of_lt_of_le (o.below r hr) (Nat.le_add_right _ _)
  uniqueIds := o.uniqueIds

/-- The row takes the next sequence value; `none` is a conflict on its id. -/
def insert? (o : Outbox) (row : OutboxRow) : Option Outbox :=
  if h : row.id ∈ o.rows.map fun r => r.id then none
  else some {
    rows := o.rows ++ [{ row with sequence := o.nextSequence }]
    nextSequence := o.nextSequence + 1
    ordered := by
      rw [List.pairwise_append]
      refine ⟨o.ordered, List.pairwise_singleton _ _, ?_⟩
      intro a ha b hb
      rw [List.mem_singleton] at hb
      subst hb
      exact o.below a ha
    below := by
      intro r hr
      rcases List.mem_append.mp hr with hold | hnew
      · have := o.below r hold
        omega
      · rw [List.mem_singleton] at hnew
        subst hnew
        exact Nat.lt_succ_self _
    uniqueIds := by
      rw [List.map_append, List.nodup_append]
      refine ⟨o.uniqueIds, by simp, ?_⟩
      intro a ha b hb hab
      simp only [List.map_cons, List.map_nil, List.mem_singleton] at hb
      subst hb
      exact h (hab ▸ ha)
  }

/-- UPDATE of delivery columns on the rows where `p` holds. -/
def updateWhere (o : Outbox) (p : OutboxRow → Bool) (f : Delivery → Delivery) : Outbox where
  rows := o.rows.map fun r => if p r then { r with toDelivery := f r.toDelivery } else r
  nextSequence := o.nextSequence
  ordered := by
    rw [List.pairwise_map]
    refine o.ordered.imp ?_
    intro a b hab
    split <;> split <;> exact hab
  below := by
    intro r hr
    obtain ⟨q, hq, rfl⟩ := List.mem_map.mp hr
    have := o.below q hq
    split <;> exact this
  uniqueIds := by
    have hids : (o.rows.map fun r => if p r then { r with toDelivery := f r.toDelivery } else r).map
        (fun r => r.id) = o.rows.map fun r => r.id := by
      rw [List.map_map]
      refine List.map_congr_left ?_
      intro r _
      simp only [Function.comp_apply]
      split <;> rfl
    rw [hids]
    exact o.uniqueIds

def deleteWhere (o : Outbox) (p : OutboxRow → Bool) : Outbox where
  rows := o.rows.filter fun r => !p r
  nextSequence := o.nextSequence
  ordered := o.ordered.filter _
  below := fun r hr => o.below r (List.mem_of_mem_filter hr)
  uniqueIds := (List.filter_sublist.map _).nodup o.uniqueIds

/-- Pending rows of one client, oldest first. -/
def pending (o : Outbox) (clientId : ClientId) : List OutboxRow :=
  o.rows.filter fun r => decide (r.targetClientId = clientId) && decide (r.status = .pending)

theorem mem_pending (o : Outbox) (clientId : ClientId) (r : OutboxRow) :
    r ∈ o.pending clientId ↔ r ∈ o.rows ∧ r.targetClientId = clientId ∧ r.status = .pending := by
  simp [pending, List.mem_filter]

theorem pending_ordered (o : Outbox) (clientId : ClientId) :
    (o.pending clientId).Pairwise fun a b => a.sequence < b.sequence := o.ordered.filter _

theorem row_ext (o : Outbox) {a b : OutboxRow} (ha : a ∈ o.rows) (hb : b ∈ o.rows)
    (h : a.id = b.id) : a = b := List.inj_on_of_nodup_map o.uniqueIds ha hb h

theorem sequence_ext (o : Outbox) {a b : OutboxRow} (ha : a ∈ o.rows) (hb : b ∈ o.rows)
    (h : a.sequence = b.sequence) : a = b := by
  have hnodup : (o.rows.map fun r => r.sequence).Nodup :=
    List.pairwise_map.mpr (o.ordered.imp fun hlt => Nat.ne_of_lt hlt)
  exact List.inj_on_of_nodup_map hnodup ha hb h

theorem find?_eq_some (o : Outbox) (id : Uuid) (r : OutboxRow) :
    o.find? id = some r ↔ r ∈ o.rows ∧ r.id = id := by
  constructor
  · intro h
    exact ⟨List.mem_of_find?_eq_some h, by simpa using List.find?_some h⟩
  · rintro ⟨hr, hid⟩
    cases h : o.find? id with
    | none =>
      have := List.find?_eq_none.mp h r hr
      simp [hid] at this
    | some q =>
      have hq : q ∈ o.rows := List.mem_of_find?_eq_some h
      have hqid : q.id = id := by simpa using List.find?_some h
      rw [o.row_ext hq hr (hqid.trans hid.symm)]

theorem mem_insert? {o o' : Outbox} {row : OutboxRow} (h : o.insert? row = some o')
    (r : OutboxRow) :
    r ∈ o'.rows ↔ r ∈ o.rows ∨ r = { row with sequence := o.nextSequence } := by
  unfold insert? at h
  split at h
  · simp at h
  · simp only [Option.some.injEq] at h
    subst h
    simp

theorem insert?_fresh {o o' : Outbox} {row : OutboxRow} (h : o.insert? row = some o') :
    ∀ r ∈ o.rows, r.id ≠ row.id := by
  unfold insert? at h
  split at h
  · simp at h
  · next hid =>
    intro r hr heq
    exact hid (heq ▸ List.mem_map_of_mem hr)

theorem insert?_rows {o o' : Outbox} {row : OutboxRow} (h : o.insert? row = some o') :
    o'.rows = o.rows ++ [{ row with sequence := o.nextSequence }] ∧
      o'.nextSequence = o.nextSequence + 1 := by
  unfold insert? at h
  split at h
  · simp at h
  · simp only [Option.some.injEq] at h
    subst h
    exact ⟨rfl, rfl⟩

theorem insert?_eq_none {o : Outbox} {row : OutboxRow} :
    o.insert? row = none ↔ ∃ r, o.find? row.id = some r := by
  unfold insert?
  constructor
  · intro h
    split at h
    · next hid =>
      obtain ⟨r, hr, hrid⟩ := List.mem_map.mp hid
      exact ⟨r, (o.find?_eq_some row.id r).mpr ⟨hr, hrid⟩⟩
    · simp at h
  · rintro ⟨r, hr⟩
    obtain ⟨hmem, hid⟩ := (o.find?_eq_some row.id r).mp hr
    rw [dif_pos (hid ▸ List.mem_map_of_mem hmem)]

theorem mem_updateWhere (o : Outbox) (p : OutboxRow → Bool) (f : Delivery → Delivery)
    (r : OutboxRow) :
    r ∈ (o.updateWhere p f).rows ↔
      ∃ q ∈ o.rows, r = if p q then { q with toDelivery := f q.toDelivery } else q := by
  simp only [updateWhere, List.mem_map, eq_comm]

theorem mem_deleteWhere (o : Outbox) (p : OutboxRow → Bool) (r : OutboxRow) :
    r ∈ (o.deleteWhere p).rows ↔ r ∈ o.rows ∧ p r = false := by
  simp [deleteWhere, List.mem_filter]

end Outbox

structure OauthClient where
  name : JsString
  eventsUri : Option JsString
  disabledAt : Option ℤ
  deriving DecidableEq

/-- The lease columns are null together, so they form one value. -/
structure Lease where
  token : Uuid
  leaseUntil : ℤ
  deriving DecidableEq

structure Destination where
  lease : Option Lease
  nextAttemptAt : ℤ
  failures : ℕ
  deriving DecidableEq

/-- The tables an event passes through on its way out. -/
structure Channel where
  oauthClients : Table ClientId OauthClient
  eventOutbox : Outbox
  eventDestinations : Table ClientId Destination

end DreamSso
