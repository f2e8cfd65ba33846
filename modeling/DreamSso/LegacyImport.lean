import DreamSso.RolePublication
import DreamSso.Library.Interleaving
import DreamSso.Library.JsonText
import DreamSso.Library.NumberValues
import DreamSso.Library.RotatingQueues

/-!
The import of the events that an earlier version left in Redis, one sorted set for each
client. A sweep asks SCAN and SSCAN for one page of sets each, visits the sets that wait
longest, and persists every member of the page of a set before it removes the member.
-/
namespace DreamSso.LegacyImport

open Interleaving JsConversions JsStrings JsonText JsonValues KeyedTables NumberValues
  RotatingQueues

def LEGACY_MEMBER_BYTES_MAX : ℕ := 256 * 1024

/-- Number(rawScore) when it is finite and not negative. -/
def scoreOf? (rawScore : JsString) : Option JsNumber :=
  let s := trim rawScore
  let whole? (n : Option ℕ) : Option JsNumber := n.map fun n => numberOf (decimal n)
  match s with
  | [] => some (.int 0)
  | 0x30 :: radix :: digits =>
      if radix = 0x78 ∨ radix = 0x58 then whole? (digitsBelow 16 digits)
      else if radix = 0x6f ∨ radix = 0x4f then whole? (digitsBelow 8 digits)
      else if radix = 0x62 ∨ radix = 0x42 then whole? (digitsBelow 2 digits)
      else (decimalLiteral? s).map fun _ => numberOf s
  | _ => (decimalLiteral? s).map fun _ => numberOf s

def eventUuid? : Option Json → Option Uuid
  | some (.str text) => Uuid.parse? text
  | _ => none

def eventType? : Option Json → Option JsString
  | some (.str type) => if type = [] ∨ 200 < type.length then none else some type
  | _ => none

def eventPayload? : Option Json → Option Json
  | some payload => if objectPayload payload then some payload else none
  | none => none

/-- A whole number that is not negative and not above the given one. -/
def naturalUpTo? (bound : ℕ) (value : Option Json) : Option ℕ :=
  (value.bind safeNatural?).filter fun n => decide (n ≤ bound)

/-- The fields of a parsed member, each checked. -/
def legacyFields? (members : List (JsString × Json)) (member rawScore : JsString) :
    Option LegacyEvent := do
  let id ← eventUuid? (Json.member? members (js "id"))
  let type ← eventType? (Json.member? members (js "type"))
  let payload ← eventPayload? (Json.member? members (js "payload"))
  let attempts ← naturalUpTo? INT_MAX (Json.member? members (js "attempts"))
  let createdAt ← naturalUpTo? maxTime (Json.member? members (js "created_at"))
  let score ← scoreOf? rawScore
  let dueAt ← timeOf? score
  some ⟨⟨id, type, payload⟩, attempts, createdAt, dueAt, member, score⟩

/-- A role event may be larger than an envelope holds, because it is never sent itself. -/
def parseLegacyEvent (member rawScore : JsString) : Except Failure LegacyEvent :=
  if LEGACY_MEMBER_BYTES_MAX < byteLength member then .error (.outbox "legacy_member_too_large")
  else match JsonText.parse member with
    | some (.obj members) => match legacyFields? members member rawScore with
      | some event =>
          if event.type ≠ rolesChangeType ∧ EVENT_BYTES_MAX < eventBytes [event.toWireEvent] then
            .error (.outbox "legacy_event_too_large")
          else .ok event
      | none => .error (.outbox "legacy_member_invalid")
    | _ => .error (.outbox "legacy_member_invalid")

/-- The subject of a role event. -/
def payloadSub? : Json → Option Uuid
  | .obj members => eventUuid? (Json.member? members (js "sub"))
  | _ => none

def forced : PublishOptions := ⟨true, []⟩

/-- The work of the transaction that persists one event: the row, and for a role event it
stored or closed the report of the role the subject has now. -/
def persistWork (env : Surroundings) (clientId : ClientId) (event : LegacyEvent) (db : Db) :
    Except Failure Db := do
  let (inserted, channel) ← insertLegacyEvent env.now db.toChannel clientId event
  let db := { db with toChannel := channel }
  if inserted && decide (event.type = rolesChangeType) then
    match payloadSub? event.payload with
    | none => .error (.outbox "legacy_role_subject_invalid")
    | some sub =>
        let (count, db) ← publishRoleChanges env db [clientId] (some [sub]) forced
        if count = 1 then .ok db else .error (.outbox "legacy_role_unavailable")
  else .ok db

/-- What the importer asks of Redis, of the database and of its process. -/
inductive ImportCommand
  | scan (cursor : JsString)
  | sscan (cursor : JsString)
  | zscan (key cursor : JsString)
  | stopping
  | persist (clientId : ClientId) (event : LegacyEvent)
  | zrem (key member : JsString)

/-- A page is a cursor and the members, those of a sorted set with their scores. -/
abbrev ImportCommand.Reply : ImportCommand → Type
  | .scan _ => JsString × List JsString
  | .sscan _ => JsString × List JsString
  | .zscan _ _ => JsString × List (JsString × JsString)
  | .stopping => Bool
  | .persist _ _ => Unit
  | .zrem _ _ => ℕ

abbrev ImportProg (α : Type) : Type := Prog ImportCommand ImportCommand.Reply α

/-- The cursors and the set of waiting keys that the importer keeps from sweep to sweep. A
Set lists its elements in the order in which they were added. -/
structure Importer where
  keyCursor : JsString
  setCursor : JsString
  pendingKeys : List JsString
  memberCursors : Table JsString JsString
  distinct : pendingKeys.Nodup

namespace Importer

def start : Importer := ⟨js "0", js "0", [], ∅, List.nodup_nil⟩

def pend (st : Importer) (keys : List JsString) : Importer where
  keyCursor := st.keyCursor
  setCursor := st.setCursor
  pendingKeys := enqueueAll st.pendingKeys keys
  memberCursors := st.memberCursors
  distinct := enqueueAll_nodup st.distinct keys

def unpend (st : Importer) (key : JsString) : Importer where
  keyCursor := st.keyCursor
  setCursor := st.setCursor
  pendingKeys := st.pendingKeys.erase key
  memberCursors := st.memberCursors
  distinct := st.distinct.erase key

def cursorOf (st : Importer) (key : JsString) : JsString := (st.memberCursors.find? key).getD (js "0")

/-- The page of a set was answered: its cursor is kept, and a set with more pages waits
again behind the others. -/
def turnPage (st : Importer) (key cursor : JsString) : Importer :=
  let st := { st with memberCursors := st.memberCursors.upsert key cursor }
  if cursor = js "0" then st else st.pend [key]

/-- The page was consumed: the cursor of a set without more pages is forgotten. -/
def closePage (st : Importer) (key cursor : JsString) : Importer :=
  if cursor = js "0" then
    { st with memberCursors := st.memberCursors.deleteWhere fun k _ => decide (k = key) }
  else st

end Importer

def keyOf (clientId : ClientId) : JsString := js "events:out:" ++ clientId

def clientOf (key : JsString) : ClientId := key.drop (js "events:out:").length

/-- The members of one page. A failure concerns its own member only; what is reported about
it is no part of the state. -/
def importPage (key : JsString) : List (JsString × JsString) → ImportProg Unit
  | [] => .done ()
  | (member, rawScore) :: rest => .call .stopping fun
    | none => .thrown
    | some true => .done ()
    | some false => match parseLegacyEvent member rawScore with
      | .error _ => importPage key rest
      | .ok event => .call (.persist (clientOf key) event) fun
        | none => importPage key rest
        | some () => .call (.zrem key member) fun _ => importPage key rest

/-- The sets of one sweep. A set whose page is refused ends the sweep and has left the
waiting keys. -/
def visitKeys : List JsString → Importer → ImportProg Importer
  | [], st => .done st
  | key :: rest, st => .call .stopping fun
    | none => .thrown
    | some true => .done st
    | some false => .call (.zscan key (st.cursorOf key)) fun
      | none => .done (st.unpend key)
      | some (cursor, members) => do
          let turned := (st.unpend key).turnPage key cursor
          importPage key members
          visitKeys rest (turned.closePage key cursor)

/-- One run of the importer, with what it keeps for the next one. -/
def sweep (st : Importer) : ImportProg Importer :=
  .call (.scan st.keyCursor) fun
    | none => .done st
    | some (cursor, keys) =>
        let st := { st.pend keys with keyCursor := cursor }
        .call (.sscan st.setCursor) fun
          | none => .done st
          | some (cursor, ids) =>
              let st := { st.pend (ids.map keyOf) with setCursor := cursor }
              visitKeys (st.pendingKeys.take 16) st

/-- A process runs one sweep after the other, never two at once. -/
def sweeps : ℕ → Importer → ImportProg Unit
  | 0, _ => .done ()
  | n + 1, st => do
      let st ← sweep st
      sweeps n st

end DreamSso.LegacyImport
