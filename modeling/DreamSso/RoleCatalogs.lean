import DreamSso.RoleSchema
import DreamSso.Library.JsConversions

/-!
Role catalogs as relying parties report them. A catalog that was accepted lists
its roles by id, without repetition, and its default is one of them; its digest
leaves out the version it was sent under, the digest of an inbox event does not.
-/
namespace DreamSso

open JsStrings JsonValues JsConversions KeyedTables Fallible

def MAX_EVENTS : ℕ := 100
def MAX_ROLES : ℕ := 500
def ROLES_SYNC : JsString := js "roles.sync"

def eventError (code : String) : Failure := .event code 400

/-- JavaScript prints a whole number in this range with neither a point nor an exponent. -/
def int32? : Json → Option ℤ
  | .num (.int n) => if -2147483648 ≤ n ∧ n ≤ 2147483647 then some n else none
  | _ => none

def trimName (value : JsString) : JsString := takePoints 100 (trim value)

theorem validText_trimName {value : JsString} (h : validText value = true) :
    validText (trimName value) = true := validText_takePoints 100 (validText_trim h)

structure CatalogRole where
  roleId : ℤ
  name : JsString
  level : ℤ
  isSystem : Bool
  deriving DecidableEq

/-- The part of a catalog that says which roles there are. -/
structure CatalogContent where
  roles : List CatalogRole
  defaultRole : Option ℤ
  siteName : Option JsString
  deriving DecidableEq

/-- An accepted catalog; its version is an epoch with a revision, or missing. -/
structure RoleCatalog extends CatalogContent where
  version : Option (Uuid × ℕ)
  sorted : roles.Pairwise fun a b => a.roleId < b.roleId
  known : ∀ id ∈ defaultRole, id ∈ roles.map CatalogRole.roleId
  validNames : ∀ role ∈ roles, validText role.name = true
  validSite : ∀ name ∈ siteName, validText name = true
  revisionRange : ∀ v ∈ version, 0 < v.2 ∧ v.2 ≤ MAX_BIGINT
  deriving DecidableEq

theorem validSite_none : ∀ name ∈ (none : Option JsString), validText name = true := by simp

theorem revisionRange_none : ∀ v ∈ (none : Option (Uuid × ℕ)), 0 < v.2 ∧ v.2 ≤ MAX_BIGINT := by
  simp

/-- An absent flag is false. -/
def systemFlag? : Option Json → Option Bool
  | none => some false
  | some (.bool b) => some b
  | some _ => none

def catalogRow : Json → Except Failure { role : CatalogRole // validText role.name = true }
  | .obj members =>
      match (Json.member? members (js "role_id")).bind int32?,
        (Json.member? members (js "level")).bind int32?, Json.member? members (js "name"),
        systemFlag? (Json.member? members (js "is_system")) with
      | some roleId, some level, some (.str name), some isSystem =>
          if h : trim name ≠ [] ∧ validText name = true then
            .ok ⟨⟨roleId, trimName name, level, isSystem⟩, validText_trimName h.2⟩
          else .error (eventError "invalid_role_row")
      | _, _, _, _ => .error (eventError "invalid_role_row")
  | _ => .error (eventError "invalid_role_row")

/-- Rows whose ids are new and distinct and whose names are valid. -/
structure Rows (seen : List ℤ) where
  rows : List CatalogRole
  distinct : (rows.map CatalogRole.roleId).Nodup
  fresh : ∀ role ∈ rows, role.roleId ∉ seen
  valid : ∀ role ∈ rows, validText role.name = true

def Rows.nil (seen : List ℤ) : Rows seen := ⟨[], List.nodup_nil, by simp, by simp⟩

def Rows.cons {seen : List ℤ} (role : CatalogRole) (hvalid : validText role.name = true)
    (hnew : role.roleId ∉ seen) (others : Rows (role.roleId :: seen)) : Rows seen where
  rows := role :: others.rows
  distinct := by
    rw [List.map_cons, List.nodup_cons]
    refine ⟨?_, others.distinct⟩
    intro hmem
    obtain ⟨other, hother, hid⟩ := List.mem_map.mp hmem
    exact others.fresh other hother (hid ▸ List.mem_cons_self)
  fresh := by
    intro other hother
    rcases List.mem_cons.mp hother with rfl | hrest
    · exact hnew
    · exact fun hseen => others.fresh other hrest (List.mem_cons_of_mem _ hseen)
  valid := by
    intro other hother
    rcases List.mem_cons.mp hother with rfl | hrest
    · exact hvalid
    · exact others.valid other hrest

def catalogRows : (seen : List ℤ) → List Json → Except Failure (Rows seen)
  | seen, [] => .ok (Rows.nil seen)
  | seen, value :: rest => do
      let role ← catalogRow value
      if h : role.val.roleId ∈ seen then .error (eventError "duplicate_role_id")
      else
        let others ← catalogRows (role.val.roleId :: seen) rest
        .ok (Rows.cons role.val role.property h others)

def roleIdLE (a b : CatalogRole) : Prop := a.roleId ≤ b.roleId

instance : DecidableRel roleIdLE := fun a b => inferInstanceAs (Decidable (a.roleId ≤ b.roleId))

instance : IsTrans CatalogRole roleIdLE := ⟨fun _ _ _ => @le_trans ℤ _ _ _ _⟩

instance : Std.Total roleIdLE := ⟨fun a b => le_total a.roleId b.roleId⟩

def sortRoles (rows : List CatalogRole) : List CatalogRole := rows.insertionSort roleIdLE

theorem mem_sortRoles {rows : List CatalogRole} {role : CatalogRole} :
    role ∈ sortRoles rows ↔ role ∈ rows := (List.perm_insertionSort _ _).mem_iff

theorem sortRoles_sorted {rows : List CatalogRole} (h : (rows.map CatalogRole.roleId).Nodup) :
    (sortRoles rows).Pairwise fun a b => a.roleId < b.roleId := by
  have hdistinct : (sortRoles rows).Pairwise fun a b => a.roleId ≠ b.roleId := by
    have hmap := ((List.perm_insertionSort roleIdLE rows).map CatalogRole.roleId).nodup_iff.mpr h
    exact List.pairwise_map.mp hmap
  have hle : (sortRoles rows).Pairwise roleIdLE := List.pairwise_insertionSort roleIdLE rows
  refine (hle.and hdistinct).imp ?_
  rintro a b ⟨hab, hne⟩
  exact lt_of_le_of_ne hab hne

def siteName : Option Json →
    Except Failure { name : Option JsString // ∀ n ∈ name, validText n = true }
  | some (.str s) =>
      if h : validText s = true then
        if trim s = [] then .ok ⟨none, validSite_none⟩
        else .ok ⟨some (trimName s), by rintro _ ⟨⟩; exact validText_trimName h⟩
      else .error (eventError "invalid_site_name")
  | _ => .ok ⟨none, validSite_none⟩

/-- A default that names no role of the catalog counts as none. -/
def defaultRole (ids : List ℤ) : Option Json → Except Failure { id : Option ℤ // ∀ i ∈ id, i ∈ ids }
  | none => .ok ⟨none, by simp⟩
  | some .null => .ok ⟨none, by simp⟩
  | some value => match int32? value with
      | none => .error (eventError "invalid_default_role")
      | some id => .ok ⟨if id ∈ ids then some id else none, by
          split
          · next hmem => rintro _ ⟨⟩; exact hmem
          · simp⟩

def catalogVersion (members : List (JsString × Json)) :
    Except Failure { v : Option (Uuid × ℕ) // ∀ w ∈ v, 0 < w.2 ∧ w.2 ≤ MAX_BIGINT } :=
  match Json.member? members (js "catalog_epoch"), Json.member? members (js "catalog_revision") with
  | none, none => .ok ⟨none, revisionRange_none⟩
  | some (.str epochText), some (.str revisionText) =>
      match Uuid.parse? epochText, bigintText? revisionText with
      | some epoch, some revision =>
          if h : 0 < revision ∧ revision ≤ MAX_BIGINT then
            .ok ⟨some (epoch, revision), by rintro _ ⟨⟩; exact h⟩
          else .error (eventError "invalid_catalog_version")
      | _, _ => .error (eventError "invalid_catalog_version")
  | _, _ => .error (eventError "invalid_catalog_version")

def normalizeRoleCatalog : Option Json → Except Failure RoleCatalog
  | some (.obj members) => match Json.member? members (js "roles") with
      | some (.arr items) => do
          failIf (decide (items.length > MAX_ROLES)) (eventError "invalid_roles")
          let rows ← catalogRows [] items
          let site ← siteName (Json.member? members (js "site_name"))
          let byDefault ← defaultRole ((sortRoles rows.rows).map CatalogRole.roleId)
            (Json.member? members (js "default_role"))
          let version ← catalogVersion members
          .ok {
            roles := sortRoles rows.rows
            defaultRole := byDefault.val
            siteName := site.val
            version := version.val
            sorted := sortRoles_sorted rows.distinct
            known := byDefault.property
            validNames := fun role hrole => rows.valid role (mem_sortRoles.mp hrole)
            validSite := site.property
            revisionRange := version.property
          }
      | _ => .error (eventError "invalid_roles")
  | _ => .error (eventError "invalid_roles")

/-- The JSON text with the keys of every object in code-unit order. -/
def canonicalText (value : Json) : JsString := (value.sortKeys fun a b => decide (a ≤ b)).stringify

/-- A value that nests deeper than sixty-four levels is refused. -/
def canonicalJson (value : Json) : Except Failure JsString :=
  if value.nests ≤ 64 then .ok (canonicalText value)
  else .error (eventError "invalid_event_payload")

def CatalogRole.json (role : CatalogRole) : Json :=
  Json.ofObject [("role_id", Json.int role.roleId), ("level", Json.int role.level),
    ("name", .str role.name), ("is_system", .bool role.isSystem)]

def CatalogContent.members (content : CatalogContent) : List (String × Json) :=
  [("roles", .arr (content.roles.map CatalogRole.json)),
    ("default_role", Json.ofOption Json.int content.defaultRole),
    ("site_name", Json.ofOption Json.str content.siteName)]

def versionMembers : Option (Uuid × ℕ) → List (String × Json)
  | some (epoch, revision) =>
      [("catalog_epoch", .str epoch.text), ("catalog_revision", .str (decimal revision))]
  | none => []

def RoleCatalog.json (catalog : RoleCatalog) : Json :=
  Json.ofObject (catalog.toCatalogContent.members ++ versionMembers catalog.version)

/-- A catalog nests three levels, so its text is never refused. -/
def catalogDigest (sha256 : JsString → Digest) (content : CatalogContent) : Digest :=
  sha256 (canonicalText (Json.ofObject content.members))

structure IncomingEvent where
  id : Uuid
  type : JsString
  payload : Json
  catalog : Option RoleCatalog
  deriving DecidableEq

def IncomingEvent.json (event : IncomingEvent) : Json :=
  Json.ofObject [("type", .str event.type),
    ("payload", event.catalog.elim event.payload RoleCatalog.json)]

def inboxDigest (sha256 : JsString → Digest) (event : IncomingEvent) : Except Failure Digest :=
  (canonicalJson event.json).map sha256

def incomingEvent (sha256 : JsString → Digest) : Json → Except Failure IncomingEvent
  | .obj members => do
      let id ← match Json.member? members (js "id") with
        | some (.str text) => match Uuid.parse? text with
          | some id => .ok id
          | none => .error (eventError "invalid_event_id")
        | _ => .error (eventError "invalid_event_id")
      let type ← match Json.member? members (js "type") with
        | some (.str text) =>
            if text = [] ∨ text.length > 100 then .error (eventError "invalid_event_type")
            else .ok text
        | _ => .error (eventError "invalid_event_type")
      let reported := Json.member? members (js "payload")
      let payload := match reported with
        | none => Json.obj []
        | some .null => Json.obj []
        | some value => value
      let catalog ← if type = ROLES_SYNC then (normalizeRoleCatalog reported).map some
        else .ok none
      let event : IncomingEvent := ⟨id, type, payload, catalog⟩
      let _ ← inboxDigest sha256 event
      .ok event
  | _ => .error (eventError "invalid_event_id")

def validateIncomingEvents (sha256 : JsString → Digest) : Json → Except Failure (List IncomingEvent)
  | .arr items => do
      failIf (items.isEmpty || decide (items.length > MAX_EVENTS)) (eventError "invalid_events")
      items.mapM (incomingEvent sha256)
  | _ => .error (eventError "invalid_events")

theorem CatalogContent.nests_le (content : CatalogContent) :
    (Json.ofObject content.members).nests ≤ 3 := by
  have hrole : ∀ role : CatalogRole, role.json.nests = 1 := fun _ => rfl
  have hitems : Json.nestsItems (content.roles.map CatalogRole.json) ≤ 2 := by
    apply Json.nestsItems_le
    intro value hvalue
    obtain ⟨role, -, rfl⟩ := List.mem_map.mp hvalue
    rw [hrole]
    omega
  have hdefault : (Json.ofOption Json.int content.defaultRole).nests = 0 := by
    cases content.defaultRole <;> rfl
  have hsite : (Json.ofOption Json.str content.siteName).nests = 0 := by
    cases content.siteName <;> rfl
  simp only [Json.ofObject, CatalogContent.members, List.map_cons, List.map_nil, Json.nests,
    Json.nestsMembers, hdefault, hsite]
  omega

theorem RoleCatalog.nests_le (catalog : RoleCatalog) : catalog.json.nests ≤ 3 := by
  have hcontent := catalog.toCatalogContent.nests_le
  unfold RoleCatalog.json
  cases catalog.version with
  | none =>
    rw [versionMembers, List.append_nil]
    exact hcontent
  | some version =>
    simp only [versionMembers, Json.ofObject, CatalogContent.members, List.cons_append,
      List.nil_append, List.map_cons, List.map_nil, Json.nests, Json.nestsMembers] at hcontent ⊢
    omega

/-- An event that carries a catalog always has a digest. -/
theorem inboxDigest_catalog (sha256 : JsString → Digest) {event : IncomingEvent}
    {catalog : RoleCatalog} (h : event.catalog = some catalog) :
    inboxDigest sha256 event = .ok (sha256 (canonicalText event.json)) := by
  have hnests : event.json.nests ≤ 64 := by
    have hcatalog := catalog.nests_le
    simp only [IncomingEvent.json, h, Option.elim_some, Json.ofObject, List.map_cons, List.map_nil,
      Json.nests, Json.nestsMembers]
    omega
  rw [inboxDigest, canonicalJson, if_pos hnests]
  rfl

theorem inboxDigest_ok {sha256 : JsString → Digest} {event : IncomingEvent} {digest : Digest}
    (h : inboxDigest sha256 event = .ok digest) : digest = sha256 (canonicalText event.json) := by
  unfold inboxDigest canonicalJson at h
  split at h
  · exact (Except.ok.inj h).symm
  · simp [Except.map] at h

end DreamSso
