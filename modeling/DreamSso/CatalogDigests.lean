import DreamSso.RoleCatalogs
import DreamSso.Library.CanonicalJson
import Mathlib.Data.List.Perm.Basic

/-!
What a digest says. The canonical text of a payload is read back as the payload, and
tells two payloads apart, exactly when their numbers are finite: a numeral beyond the
largest double is read as an infinity, and an infinity is written null. A normalized
catalog has no such number, and does not depend on the order its roles came in.
-/
namespace DreamSso

open JsStrings JsonValues JsConversions JsonText CanonicalJson Fallible

section CanonicalText

theorem nameOrder : NameOrder fun a b => decide (a ≤ b) where
  total a b := by simpa only [decide_eq_true_eq] using le_total a b
  trans a b c := by simpa only [decide_eq_true_eq] using le_trans
  antisymm a b := by simpa only [decide_eq_true_eq] using le_antisymm

/-- The canonical JSON of a value is read back as the value, up to the order of keys. -/
def ReadsBackAs (v : Json) : Prop :=
  ∃ text u, canonicalJson v = .ok text ∧ parse text = some u ∧ SameContent v u

/-- Canonical JSON says which of two values it is of. -/
def Identified (v w : Json) : Prop :=
  ReadsBackAs v ∧ ReadsBackAs w ∧ (canonicalJson v = canonicalJson w → SameContent v w)

theorem canonicalJson_ok {v : Json} (h : v.nests ≤ 64) : canonicalJson v = .ok (canonicalText v) :=
  if_pos h

theorem readsBackAs_iff {v : Json} (hv : Readable v) (hdepth : v.nests ≤ 64) :
    ReadsBackAs v ↔ finite v = true := by
  rw [← sortedText_back_iff (fun a b => decide (a ≤ b)) hv, ReadsBackAs, canonicalJson_ok hdepth]
  constructor
  · rintro ⟨text, u, htext, hparse⟩
    rw [← Except.ok.inj htext] at hparse
    exact ⟨u, hparse⟩
  · rintro ⟨u, hparse⟩
    exact ⟨_, u, rfl, hparse⟩

theorem canonicalText_eq_iff {v w : Json} (hv : Readable v) (hw : Readable w) :
    canonicalText v = canonicalText w ↔ SameContent v.printed w.printed :=
  sortedText_eq_iff nameOrder hv hw

theorem canonicalText_finite {v w : Json} (hv : Readable v) (hw : Readable w)
    (hfinite : finite v = true) (hfinite' : finite w = true) :
    canonicalText v = canonicalText w ↔ SameContent v w := by
  rw [canonicalText_eq_iff hv hw, printed_finite v hfinite, printed_finite w hfinite']

theorem identified_iff {v w : Json} (hv : Readable v) (hw : Readable w) (hdepth : v.nests ≤ 64)
    (hdepth' : w.nests ≤ 64) : Identified v w ↔ finite v = true ∧ finite w = true := by
  rw [Identified, readsBackAs_iff hv hdepth, readsBackAs_iff hw hdepth', canonicalJson_ok hdepth,
    canonicalJson_ok hdepth']
  constructor
  · rintro ⟨hfinite, hfinite', -⟩
    exact ⟨hfinite, hfinite'⟩
  · rintro ⟨hfinite, hfinite'⟩
    refine ⟨hfinite, hfinite', fun htext => ?_⟩
    exact (canonicalText_finite hv hw hfinite hfinite').mp (Except.ok.inj htext)

/-- The order of keys does not show, at any depth. -/
theorem canonicalJson_reordered {v w : Json} (hv : Readable v) (h : SameContent v w) :
    canonicalJson v = canonicalJson w := by
  have htext : canonicalText v = canonicalText w := sortedText_sameContent nameOrder hv h
  rw [canonicalJson, canonicalJson, h.nests_eq, htext]

end CanonicalText

section Catalogs

theorem int32?_range {value : Json} {n : ℤ} (h : int32? value = some n) :
    value = .num (.int n) ∧ -2147483648 ≤ n ∧ n ≤ 2147483647 := by
  unfold int32? at h
  split at h
  · split_ifs at h with hrange
    obtain rfl := Option.some.inj h
    exact ⟨rfl, hrange⟩
  · simp at h

def InInt32 (n : ℤ) : Prop := -2147483648 ≤ n ∧ n ≤ 2147483647

theorem readable_int {n : ℤ} (h : InInt32 n) : Readable (Json.int n) :=
  JsonNumbers.readsBack_int (by obtain ⟨hlow, hhigh⟩ := h; omega)

theorem catalogRow_range {value : Json} {role : { role : CatalogRole // validText role.name = true }}
    (h : catalogRow value = .ok role) : InInt32 role.val.roleId ∧ InInt32 role.val.level := by
  unfold catalogRow at h
  split at h
  · split at h
    · next roleId level name isSystem hid hlevel _ _ =>
      split_ifs at h with hname
      rw [← Except.ok.inj h]
      obtain ⟨v, -, hid⟩ := Option.bind_eq_some_iff.mp hid
      obtain ⟨w, -, hlevel⟩ := Option.bind_eq_some_iff.mp hlevel
      exact ⟨(int32?_range hid).2, (int32?_range hlevel).2⟩
    · cases h
  · cases h

/-- The rows of a catalog are the values that were sent, one by one. -/
def Reads (value : Json) (role : CatalogRole) : Prop :=
  ∃ h, catalogRow value = .ok ⟨role, h⟩

theorem rows_ext {seen : List ℤ} {a b : Rows seen} (h : a.rows = b.rows) : a = b := by
  cases a
  cases b
  simpa using h

/-- Rows that are not empty are a first one with rows whose ids differ from its own. -/
theorem rows_cons {seen : List ℤ} {rows : Rows seen} {role : CatalogRole}
    {others : List CatalogRole} (h : rows.rows = role :: others) :
    ∃ hvalid hnew, ∃ tail : Rows (role.roleId :: seen),
      tail.rows = others ∧ rows = Rows.cons role hvalid hnew tail := by
  have hmem : ∀ r, r = role ∨ r ∈ others → r ∈ rows.rows := by
    intro r hr
    rw [h]
    exact List.mem_cons.mpr hr
  have hdistinct := rows.distinct
  rw [h, List.map_cons, List.nodup_cons] at hdistinct
  have hfresh : ∀ r ∈ others, r.roleId ∉ role.roleId :: seen := by
    intro r hr hid
    rcases List.mem_cons.mp hid with hid | hid
    · exact hdistinct.1 (hid ▸ List.mem_map_of_mem hr)
    · exact rows.fresh r (hmem r (.inr hr)) hid
  refine ⟨rows.valid role (hmem role (.inl rfl)), rows.fresh role (hmem role (.inl rfl)),
    ⟨others, hdistinct.2, hfresh, fun r hr => rows.valid r (hmem r (.inr hr))⟩, rfl, ?_⟩
  exact rows_ext h

theorem catalogRows_iff {seen : List ℤ} {items : List Json} {rows : Rows seen} :
    catalogRows seen items = .ok rows ↔ List.Forall₂ Reads items rows.rows := by
  induction items generalizing seen with
  | nil =>
    rw [catalogRows]
    constructor
    · intro h
      rw [← Except.ok.inj h]
      exact .nil
    · intro h
      exact congrArg Except.ok (rows_ext (List.forall₂_nil_left_iff.mp h).symm)
  | cons value rest ih =>
    rw [catalogRows]
    constructor
    · intro h
      obtain ⟨role, hrole, h⟩ := bind_eq_ok.mp h
      split_ifs at h with hseen
      obtain ⟨others, hothers, h⟩ := bind_eq_ok.mp h
      rw [← Except.ok.inj h]
      exact .cons ⟨role.property, hrole⟩ (ih.mp hothers)
    · intro h
      obtain ⟨role, others, hrole, hothers, hrows⟩ := List.forall₂_cons_left_iff.mp h
      obtain ⟨hvalid, hrole⟩ := hrole
      obtain ⟨hvalid', hnew, tail, htail, hcons⟩ := rows_cons hrows
      rw [← htail] at hothers
      refine bind_eq_ok.mpr ⟨_, hrole, ?_⟩
      rw [dif_neg hnew]
      refine bind_eq_ok.mpr ⟨tail, ih.mpr hothers, ?_⟩
      rw [hcons]

theorem sortRoles_perm {a b : List CatalogRole} (h : a.Perm b)
    (hdistinct : (a.map CatalogRole.roleId).Nodup) : sortRoles a = sortRoles b := by
  have hdistinct' := (h.map CatalogRole.roleId).nodup_iff.mp hdistinct
  have hperm : (sortRoles a).Perm (sortRoles b) :=
    ((List.perm_insertionSort _ a).trans h).trans (List.perm_insertionSort _ b).symm
  refine hperm.eq_of_pairwise ?_ (sortRoles_sorted hdistinct) (sortRoles_sorted hdistinct')
  intro x y _ _ hxy hyx
  omega

theorem catalog_ext {c d : RoleCatalog} (h : c.toCatalogContent = d.toCatalogContent)
    (hversion : c.version = d.version) : c = d := by
  cases c
  cases d
  simpa using ⟨h, hversion⟩

/-- What the parts of a payload make of its catalog. -/
theorem normalizeRoleCatalog_iff {members : List (JsString × Json)} {items : List Json}
    {catalog : RoleCatalog} (hroles : Json.member? members (js "roles") = some (.arr items)) :
    normalizeRoleCatalog (some (.obj members)) = .ok catalog ↔
      items.length ≤ MAX_ROLES ∧
      (∃ rows : Rows [], List.Forall₂ Reads items rows.rows ∧ catalog.roles = sortRoles rows.rows) ∧
      (∃ p, siteName (Json.member? members (js "site_name")) = .ok ⟨catalog.siteName, p⟩) ∧
      (∃ p, defaultRole (catalog.roles.map CatalogRole.roleId)
        (Json.member? members (js "default_role")) = .ok ⟨catalog.defaultRole, p⟩) ∧
      ∃ p, catalogVersion members = .ok ⟨catalog.version, p⟩ := by
  unfold normalizeRoleCatalog
  simp only [hroles]
  constructor
  · intro h
    obtain ⟨_, hlength, h⟩ := bind_eq_ok.mp h
    obtain ⟨rows, hrows, h⟩ := bind_eq_ok.mp h
    obtain ⟨site, hsite, h⟩ := bind_eq_ok.mp h
    obtain ⟨byDefault, hdefault, h⟩ := bind_eq_ok.mp h
    obtain ⟨version, hversion, h⟩ := bind_eq_ok.mp h
    rw [← Except.ok.inj h]
    refine ⟨by simpa using hlength, ⟨rows, catalogRows_iff.mp hrows, rfl⟩, ?_⟩
    exact ⟨⟨site.property, hsite⟩, ⟨byDefault.property, hdefault⟩, version.property, hversion⟩
  · rintro ⟨hlength, ⟨rows, hrows, hsorted⟩, ⟨hsite, hsite'⟩, ⟨hdefault, hdefault'⟩, hversion,
      hversion'⟩
    have hlength' : failIf (decide (items.length > MAX_ROLES)) (eventError "invalid_roles") =
        .ok () := failIf_eq_ok.mpr (by simpa using hlength)
    obtain ⟨⟨roles, byDefault, site⟩, version, sorted, known, validNames, validSite, range⟩ := catalog
    simp only at hsorted hsite' hdefault' hversion'
    subst hsorted
    rw [hlength', ok_bind, catalogRows_iff.mpr hrows, ok_bind, hsite', ok_bind, hdefault', ok_bind,
      hversion', ok_bind]

/-- The catalog of a payload does not depend on the order in which its roles are sent. -/
theorem normalizeRoleCatalog_order {members members' : List (JsString × Json)}
    {items items' : List Json} {catalog : RoleCatalog}
    (hroles : Json.member? members (js "roles") = some (.arr items))
    (hroles' : Json.member? members' (js "roles") = some (.arr items'))
    (hperm : items.Perm items')
    (hothers : ∀ key, key ≠ js "roles" → Json.member? members' key = Json.member? members key)
    (h : normalizeRoleCatalog (some (.obj members)) = .ok catalog) :
    normalizeRoleCatalog (some (.obj members')) = .ok catalog := by
  have hversion : catalogVersion members' = catalogVersion members := by
    unfold catalogVersion
    rw [hothers _ (by decide), hothers _ (by decide)]
  rw [normalizeRoleCatalog_iff hroles] at h
  rw [normalizeRoleCatalog_iff hroles', hothers _ (by decide), hothers _ (by decide), hversion,
    ← hperm.length_eq]
  obtain ⟨hlength, ⟨rows, hrows, hsorted⟩, hparts⟩ := h
  obtain ⟨others, hothers, hperm'⟩ := List.perm_comp_forall₂ hperm.symm hrows
  have hids : (others.map CatalogRole.roleId).Nodup :=
    (hperm'.map CatalogRole.roleId).nodup_iff.mpr rows.distinct
  have hvalid : ∀ role ∈ others, validText role.name = true := fun role hrole =>
    rows.valid role (hperm'.mem_iff.mp hrole)
  refine ⟨hlength, ⟨⟨others, hids, by simp, hvalid⟩, hothers, ?_⟩, hparts⟩
  rw [hsorted]
  exact (sortRoles_perm hperm' hids).symm

theorem normalizeRoleCatalog_obj {payload : Option Json} {catalog : RoleCatalog}
    (h : normalizeRoleCatalog payload = .ok catalog) : ∃ members items,
      payload = some (.obj members) ∧ Json.member? members (js "roles") = some (.arr items) := by
  unfold normalizeRoleCatalog at h
  split at h
  · split at h
    · next members _ items hitems => exact ⟨members, items, rfl, hitems⟩
    · cases h
  · cases h

/-- The numbers of a catalog are the identifiers and levels a role can have. -/
structure InRange (content : CatalogContent) : Prop where
  roles : ∀ role ∈ content.roles, InInt32 role.roleId ∧ InInt32 role.level
  byDefault : ∀ id ∈ content.defaultRole, InInt32 id

theorem normalizeRoleCatalog_inRange {payload : Option Json} {catalog : RoleCatalog}
    (h : normalizeRoleCatalog payload = .ok catalog) : InRange catalog.toCatalogContent := by
  obtain ⟨members, items, rfl, hroles⟩ := normalizeRoleCatalog_obj h
  obtain ⟨-, ⟨rows, hrows, hsorted⟩, -⟩ := (normalizeRoleCatalog_iff hroles).mp h
  have hrange : ∀ role ∈ catalog.roles, InInt32 role.roleId ∧ InInt32 role.level := by
    intro role hrole
    rw [hsorted, mem_sortRoles] at hrole
    obtain ⟨value, -, hvalid, hrow⟩ := forall₂_mem_right hrows hrole
    exact catalogRow_range hrow
  refine ⟨hrange, fun id hid => ?_⟩
  obtain ⟨role, hrole, rfl⟩ := List.mem_map.mp (catalog.known id hid)
  exact (hrange role hrole).1

end Catalogs

section Contents

theorem readable_ofObject {members : List (String × Json)} (hnames : (members.map Prod.fst).Nodup)
    (h : ∀ m ∈ members, Readable m.2) : Readable (Json.ofObject members) := by
  rw [Json.ofObject, readable_obj]
  refine ⟨?_, ?_⟩
  · have hmap : (members.map fun m => (js m.1, m.2)).map Prod.fst =
        (members.map Prod.fst).map js := by
      rw [List.map_map, List.map_map]
      rfl
    rw [hmap]
    exact hnames.map js_injective
  · rw [List.forall_mem_map]
    exact h

theorem finite_ofObject {members : List (String × Json)} (h : ∀ m ∈ members, finite m.2 = true) :
    finite (Json.ofObject members) = true := by
  rw [Json.ofObject, finite, finiteMembers_iff, List.forall_mem_map]
  exact h

theorem finite_json (role : CatalogRole) : finite role.json = true :=
  finite_ofObject (by simp [finite, Json.int])

theorem finite_members (content : CatalogContent) :
    ∀ m ∈ content.members, finite m.2 = true := by
  have hroles : finite (.arr (content.roles.map CatalogRole.json)) = true := by
    rw [finite, finiteItems_iff, List.forall_mem_map]
    exact fun role _ => finite_json role
  have hdefault : finite (Json.ofOption Json.int content.defaultRole) = true := by
    cases content.defaultRole <;> rfl
  have hsite : finite (Json.ofOption Json.str content.siteName) = true := by
    cases content.siteName <;> rfl
  simp [CatalogContent.members, hroles, hdefault, hsite]

theorem readable_json {role : CatalogRole} (h : InInt32 role.roleId ∧ InInt32 role.level) :
    Readable role.json :=
  readable_ofObject (by simp) (by
    simp only [List.mem_cons, List.not_mem_nil, or_false, forall_eq_or_imp, forall_eq]
    exact ⟨readable_int h.1, readable_int h.2, rfl, rfl⟩)

theorem readable_members {content : CatalogContent} (h : InRange content) :
    ∀ m ∈ content.members, Readable m.2 := by
  have hroles : Readable (.arr (content.roles.map CatalogRole.json)) := by
    rw [readable_arr, List.forall_mem_map]
    exact fun role hrole => readable_json (h.roles role hrole)
  have hdefault : Readable (Json.ofOption Json.int content.defaultRole) := by
    cases hid : content.defaultRole with
    | none => rfl
    | some id => exact readable_int (h.byDefault id hid)
  have hsite : Readable (Json.ofOption Json.str content.siteName) := by
    cases content.siteName <;> rfl
  simp only [CatalogContent.members, List.mem_cons, List.not_mem_nil, or_false, forall_eq_or_imp,
    forall_eq]
  exact ⟨hroles, hdefault, hsite⟩

theorem readable_content {content : CatalogContent} (h : InRange content) :
    Readable (Json.ofObject content.members) :=
  readable_ofObject (by simp [CatalogContent.members]) (readable_members h)

theorem readable_catalog {catalog : RoleCatalog} (h : InRange catalog.toCatalogContent) :
    Readable catalog.json := by
  refine readable_ofObject ?_ fun m hm => ?_
  · cases catalog.version <;> simp [CatalogContent.members, versionMembers]
  · rcases List.mem_append.mp hm with hm | hm
    · exact readable_members h m hm
    · cases hversion : catalog.version with
      | none => simp [hversion, versionMembers] at hm
      | some version =>
        simp only [hversion, versionMembers, List.mem_cons, List.not_mem_nil, or_false] at hm
        rcases hm with rfl | rfl <;> rfl

theorem role_injective {a b : CatalogRole} (h : SameContent a.json b.json) : a = b := by
  have hvalues := sameContent_values h rfl (by simp)
  simp only [List.map_cons, List.map_nil, List.forall₂_cons, List.Forall₂.nil, and_true, Json.int,
    sameContent_num, sameContent_str, sameContent_bool, Json.num.injEq, JsNumber.int.injEq,
    Json.str.injEq, Json.bool.injEq] at hvalues
  obtain ⟨hid, hlevel, hname, hsystem⟩ := hvalues
  cases a
  cases b
  simp_all

theorem roles_injective {a b : List CatalogRole}
    (h : SameContent (.arr (a.map CatalogRole.json)) (.arr (b.map CatalogRole.json))) : a = b := by
  obtain ⟨others, hothers, hsame⟩ := sameContent_arr h
  rw [Json.arr.injEq] at hothers
  rw [← hothers, SameItems, List.forall₂_map_left_iff, List.forall₂_map_right_iff] at hsame
  rw [← List.forall₂_eq_eq_eq]
  exact hsame.imp fun _ _ => role_injective

theorem content_injective {c d : CatalogContent}
    (hroles : SameContent (.arr (c.roles.map CatalogRole.json)) (.arr (d.roles.map CatalogRole.json)))
    (hdefault : SameContent (Json.ofOption Json.int c.defaultRole)
      (Json.ofOption Json.int d.defaultRole))
    (hsite : SameContent (Json.ofOption Json.str c.siteName) (Json.ofOption Json.str d.siteName)) :
    c = d := by
  have hdefault' : c.defaultRole = d.defaultRole := by
    cases hc : c.defaultRole <;> cases hd : d.defaultRole <;>
      simp [hc, hd, Json.ofOption, Json.int] at hdefault ⊢
    exact hdefault
  have hsite' : c.siteName = d.siteName := by
    cases hc : c.siteName <;> cases hd : d.siteName <;>
      simp [hc, hd, Json.ofOption] at hsite ⊢
    exact hsite
  have hroles' := roles_injective hroles
  cases c
  cases d
  simp_all

theorem sameContent_catalogContent {c d : CatalogContent} :
    SameContent (Json.ofObject c.members) (Json.ofObject d.members) ↔ c = d := by
  constructor
  · intro h
    have hvalues := sameContent_values h rfl (by simp [CatalogContent.members])
    simp only [CatalogContent.members, List.map_cons, List.map_nil, List.forall₂_cons,
      List.Forall₂.nil, and_true] at hvalues
    exact content_injective hvalues.1 hvalues.2.1 hvalues.2.2
  · rintro rfl
    exact .refl

/-- A versioned and an unversioned catalog do not list the same names. -/
theorem versioned_ne {c d : RoleCatalog} {v : Uuid × ℕ} (hc : c.version = some v)
    (hd : d.version = none) : ¬ SameContent c.json d.json := by
  intro h
  have hmem : ("catalog_epoch", Json.str v.1.text) ∈
      c.toCatalogContent.members ++ versionMembers c.version := by
    simp [hc, versionMembers]
  obtain ⟨w, hw, -⟩ := sameContent_ofObject h hmem
  simp [hd, versionMembers, CatalogContent.members] at hw

theorem sameContent_roleCatalog {c d : RoleCatalog} : SameContent c.json d.json ↔ c = d := by
  constructor
  · intro h
    cases hc : c.version with
    | none =>
      cases hd : d.version with
      | some v => exact (versioned_ne hd hc h.symm).elim
      | none =>
        rw [RoleCatalog.json, RoleCatalog.json, hc, hd, versionMembers, List.append_nil,
          List.append_nil, sameContent_catalogContent] at h
        exact catalog_ext h (hc.trans hd.symm)
    | some v =>
      cases hd : d.version with
      | none => exact (versioned_ne hc hd h).elim
      | some w =>
        rw [RoleCatalog.json, RoleCatalog.json, hc, hd] at h
        have hvalues := sameContent_values h rfl (by simp [CatalogContent.members, versionMembers])
        simp only [CatalogContent.members, versionMembers, List.cons_append, List.nil_append,
          List.map_cons, List.map_nil, List.forall₂_cons, List.Forall₂.nil, and_true] at hvalues
        obtain ⟨hroles, hdefault, hsite, hepoch, hrevision⟩ := hvalues
        refine catalog_ext (content_injective hroles hdefault hsite) ?_
        rw [sameContent_str, Json.str.injEq] at hepoch hrevision
        have hnumber := congrArg digitsValue hrevision
        rw [digitsValue_decimal, digitsValue_decimal] at hnumber
        rw [hc, hd, Prod.ext (Uuid.text_injective hepoch) hnumber]
  · rintro rfl
    exact .refl

end Contents

section Digests

/-- What an event carries: the catalog it was normalized to, or its payload. -/
def IncomingEvent.content (event : IncomingEvent) : Json := event.catalog.elim event.payload
  RoleCatalog.json

/-- Two events carry one catalog, or payloads equal up to the order of keys. -/
def SamePayload (e f : IncomingEvent) : Prop :=
  match e.catalog, f.catalog with
  | some c, some d => c = d
  | none, none => SameContent e.payload f.payload
  | _, _ => False

/-- Different canonical texts have different digests. -/
def CollisionFree (sha256 : JsString → Digest) : Prop :=
  ∀ v w : Json, sha256 (canonicalText v) = sha256 (canonicalText w) →
    canonicalText v = canonicalText w

/-- What an accepted event is known to be. -/
structure Accepted (sha256 : JsString → Digest) (event : IncomingEvent) : Prop where
  readable : Readable event.content
  carries : event.catalog.isSome ↔ event.type = ROLES_SYNC
  digestible : inboxDigest sha256 event = .ok (sha256 (canonicalText event.json))

theorem member?_mem {members : List (JsString × Json)} {key : JsString} {v : Json}
    (h : Json.member? members key = some v) : (key, v) ∈ members := by
  rw [Json.member?, List.lookup_eq_some_iff] at h
  obtain ⟨before, after, rfl, -⟩ := h
  exact List.mem_append_right _ List.mem_cons_self

/-- How an event is put together from what was sent. -/
theorem incomingEvent_built {sha256 : JsString → Digest} {raw : Json} {event : IncomingEvent}
    (h : incomingEvent sha256 raw = .ok event) : ∃ members, raw = .obj members ∧
      (event.payload = .obj [] ∨ Json.member? members (js "payload") = some event.payload) ∧
      (if event.type = ROLES_SYNC then
        (normalizeRoleCatalog (Json.member? members (js "payload"))).map some else .ok none) =
          .ok event.catalog ∧
      ∃ digest, inboxDigest sha256 event = .ok digest := by
  cases raw with
  | obj members =>
    refine ⟨members, rfl, ?_⟩
    unfold incomingEvent at h
    simp only at h
    split at h
    · split at h
      · simp only [ok_bind] at h
        split at h
        · split_ifs at h with hempty hsync
          · simp [error_bind] at h
          · obtain ⟨catalog, hcatalog, h⟩ := bind_eq_ok.mp h
            obtain ⟨digest, hdigest, h⟩ := bind_eq_ok.mp h
            rw [← Except.ok.inj h]
            refine ⟨?_, ?_, digest, hdigest⟩
            · split
              · exact .inl rfl
              · exact .inl rfl
              · exact .inr ‹_›
            · rw [if_pos hsync]
              exact hcatalog
          · obtain ⟨digest, hdigest, h⟩ := bind_eq_ok.mp h
            rw [← Except.ok.inj h]
            refine ⟨?_, ?_, digest, hdigest⟩
            · split
              · exact .inl rfl
              · exact .inl rfl
              · exact .inr ‹_›
            · rw [if_neg hsync]
        · simp [error_bind] at h
      · simp [error_bind] at h
    · simp [error_bind] at h
  | null => cases h
  | bool b => cases h
  | num n => cases h
  | str text => cases h
  | arr items => cases h

theorem incomingEvent_accepted {sha256 : JsString → Digest} {raw : Json} {event : IncomingEvent}
    (hraw : Readable raw) (h : incomingEvent sha256 raw = .ok event) : Accepted sha256 event := by
  obtain ⟨members, rfl, hpayload, hcatalog, digest, hdigest⟩ := incomingEvent_built h
  have hreadable : Readable event.payload := by
    rcases hpayload with hpayload | hpayload
    · rw [hpayload]
      rfl
    · exact (readable_obj.mp hraw).2 _ (member?_mem hpayload)
  have hdigest' : inboxDigest sha256 event = .ok (sha256 (canonicalText event.json)) := by
    rw [hdigest, inboxDigest_ok hdigest]
  by_cases hsync : event.type = ROLES_SYNC
  · rw [if_pos hsync] at hcatalog
    cases hnormal : normalizeRoleCatalog (Json.member? members (js "payload")) with
    | error e =>
      rw [hnormal] at hcatalog
      cases hcatalog
    | ok catalog =>
      rw [hnormal] at hcatalog
      have hcontent : event.content = catalog.json := by
        rw [IncomingEvent.content, ← Except.ok.inj hcatalog, Option.elim_some]
      refine ⟨?_, ?_, hdigest'⟩
      · rw [hcontent]
        exact readable_catalog (normalizeRoleCatalog_inRange hnormal)
      · rw [← Except.ok.inj hcatalog]
        simp [hsync]
  · rw [if_neg hsync] at hcatalog
    refine ⟨?_, ?_, hdigest'⟩
    · rw [IncomingEvent.content, ← Except.ok.inj hcatalog]
      exact hreadable
    · rw [← Except.ok.inj hcatalog]
      simp [hsync]

/-- The events of a request whose body was read from a text. -/
theorem validated_accepted {sha256 : JsString → Digest} {raw : Json}
    {events : List IncomingEvent} (hbody : Readable raw)
    (h : validateIncomingEvents sha256 raw = .ok events) {event : IncomingEvent}
    (hevent : event ∈ events) : Accepted sha256 event := by
  unfold validateIncomingEvents at h
  split at h
  · next items =>
    obtain ⟨_, -, h⟩ := bind_eq_ok.mp h
    obtain ⟨item, hitem, hevent⟩ := forall₂_mem_right (mapM_eq_ok.mp h) hevent
    exact incomingEvent_accepted (readable_arr.mp hbody item hitem) hevent
  · cases h

/-- The event came in a request whose body was read from a text. -/
def Received (sha256 : JsString → Digest) (event : IncomingEvent) : Prop :=
  ∃ body raw events, parse body = some raw ∧ validateIncomingEvents sha256 raw = .ok events ∧
    event ∈ events

theorem Received.accepted {sha256 : JsString → Digest} {event : IncomingEvent}
    (h : Received sha256 event) : Accepted sha256 event := by
  obtain ⟨body, raw, events, hparse, hevents, hevent⟩ := h
  exact validated_accepted (parse_readable hparse) hevents hevent

theorem digest_eq_iff {sha256 : JsString → Digest} (hcollision : CollisionFree sha256) (v w : Json) :
    sha256 (canonicalText v) = sha256 (canonicalText w) ↔ canonicalText v = canonicalText w :=
  ⟨hcollision v w, fun h => by rw [h]⟩

theorem json_eq (event : IncomingEvent) :
    event.json = Json.ofObject [("type", .str event.type), ("payload", event.content)] := rfl

theorem content_nests {event : IncomingEvent} {sha256 : JsString → Digest} {digest : Digest}
    (h : inboxDigest sha256 event = .ok digest) : event.content.nests ≤ 64 := by
  have hnests : event.json.nests ≤ 64 := by
    by_contra hdeep
    rw [inboxDigest, canonicalJson, if_neg hdeep] at h
    cases h
  rw [json_eq] at hnests
  simp only [Json.ofObject, List.map_cons, List.map_nil, Json.nests, Json.nestsMembers] at hnests
  omega

theorem readable_event {event : IncomingEvent} (h : Readable event.content) :
    Readable event.json :=
  readable_ofObject (by simp) (by
    simp only [List.mem_cons, List.not_mem_nil, or_false, forall_eq_or_imp, forall_eq]
    exact ⟨rfl, h⟩)

theorem finite_event {event : IncomingEvent} (h : finite event.content = true) :
    finite event.json = true :=
  finite_ofObject (by
    simp only [List.mem_cons, List.not_mem_nil, or_false, forall_eq_or_imp, forall_eq]
    exact ⟨rfl, h⟩)

theorem sameContent_event {e f : IncomingEvent} :
    SameContent e.json f.json ↔ e.type = f.type ∧ SameContent e.content f.content := by
  constructor
  · intro h
    have hvalues := sameContent_values h rfl (by simp)
    simp only [List.map_cons, List.map_nil, List.forall₂_cons, List.Forall₂.nil, and_true,
      sameContent_str, Json.str.injEq] at hvalues
    exact hvalues
  · rintro ⟨htype, hcontent⟩
    rw [json_eq, json_eq, htype]
    exact sameContent_member (js "payload") [(js "type", .str f.type)] [] hcontent

theorem sameContent_payload {sha256 : JsString → Digest} {e f : IncomingEvent}
    (he : Accepted sha256 e) (hf : Accepted sha256 f) (htype : e.type = f.type) :
    SameContent e.content f.content ↔ SamePayload e f := by
  have hcarries : e.catalog.isSome ↔ f.catalog.isSome := by rw [he.carries, hf.carries, htype]
  unfold IncomingEvent.content SamePayload
  cases hc : e.catalog with
  | none =>
    cases hd : f.catalog with
    | none => exact Iff.rfl
    | some d => simp [hc, hd] at hcarries
  | some c =>
    cases hd : f.catalog with
    | none => simp [hc, hd] at hcarries
    | some d => exact sameContent_roleCatalog

/-- Without infinite numbers, events have one digest when they are of one type and carry the same. -/
theorem inboxDigest_eq_iff {sha256 : JsString → Digest} (hcollision : CollisionFree sha256)
    {e f : IncomingEvent} (he : Accepted sha256 e) (hf : Accepted sha256 f)
    (hfinite : finite e.content = true) (hfinite' : finite f.content = true) :
    inboxDigest sha256 e = inboxDigest sha256 f ↔ e.type = f.type ∧ SamePayload e f := by
  rw [he.digestible, hf.digestible, Except.ok.injEq, digest_eq_iff hcollision,
    canonicalText_finite (readable_event he.readable) (readable_event hf.readable)
      (finite_event hfinite) (finite_event hfinite'), sameContent_event]
  exact and_congr_right fun htype => sameContent_payload he hf htype

theorem catalogDigest_eq_iff {sha256 : JsString → Digest} (hcollision : CollisionFree sha256)
    {c d : CatalogContent} (hc : InRange c) (hd : InRange d) :
    catalogDigest sha256 c = catalogDigest sha256 d ↔ c = d := by
  rw [catalogDigest, catalogDigest, digest_eq_iff hcollision,
    canonicalText_finite (readable_content hc) (readable_content hd)
      (finite_ofObject (finite_members c)) (finite_ofObject (finite_members d)),
    sameContent_catalogContent]

/-- Canonical JSON identifies what it is of exactly when it has no infinite number; so do the
digests of events, and those of catalogs always do, whatever order their roles came in. -/
theorem canonical_json_identifies (sha256 : JsString → Digest) (hcollision : CollisionFree sha256) :
    (∀ s t v w, parse s = some v → parse t = some w → v.nests ≤ 64 → w.nests ≤ 64 →
      (SameContent v w → canonicalJson v = canonicalJson w) ∧
        (Identified v w ↔ finite v = true ∧ finite w = true)) ∧
    (∀ e f, Received sha256 e → Received sha256 f →
      (Identified e.content f.content ∧
        (inboxDigest sha256 e = inboxDigest sha256 f ↔ e.type = f.type ∧ SamePayload e f) ↔
          finite e.content = true ∧ finite f.content = true)) ∧
    (∀ p q (c d : RoleCatalog), normalizeRoleCatalog p = .ok c → normalizeRoleCatalog q = .ok d →
      (catalogDigest sha256 c.toCatalogContent = catalogDigest sha256 d.toCatalogContent ↔
        c.toCatalogContent = d.toCatalogContent)) ∧
    ∀ members members' items items' catalog,
      Json.member? members (js "roles") = some (.arr items) →
      Json.member? members' (js "roles") = some (.arr items') → items.Perm items' →
      (∀ key, key ≠ js "roles" → Json.member? members' key = Json.member? members key) →
      normalizeRoleCatalog (some (.obj members)) = .ok catalog →
        normalizeRoleCatalog (some (.obj members')) = .ok catalog := by
  refine ⟨?_, ?_, ?_, ?_⟩
  · intro s t v w hv hw hdepth hdepth'
    have hv' := parse_readable hv
    have hw' := parse_readable hw
    exact ⟨canonicalJson_reordered hv', identified_iff hv' hw' hdepth hdepth'⟩
  · intro e f he hf
    have he' := he.accepted
    have hf' := hf.accepted
    rw [identified_iff he'.readable hf'.readable (content_nests he'.digestible)
      (content_nests hf'.digestible)]
    constructor
    · rintro ⟨hfinite, -⟩
      exact hfinite
    · intro hfinite
      exact ⟨hfinite, inboxDigest_eq_iff hcollision he' hf' hfinite.1 hfinite.2⟩
  · intro p q c d hc hd
    exact catalogDigest_eq_iff hcollision (normalizeRoleCatalog_inRange hc)
      (normalizeRoleCatalog_inRange hd)
  · intro members members' items items' catalog hroles hroles' hperm hothers h
    exact normalizeRoleCatalog_order hroles hroles' hperm hothers h

theorem canonical_json_identifies_reordered :
    Identified (Json.ofObject [("b", Json.int 1), ("a", .arr [.null])])
      (Json.ofObject [("a", .arr [.null]), ("b", Json.int 1)]) := by
  have hread : parse (js "\x7b\"b\":1,\"a\":[null]\x7d") =
      some (Json.ofObject [("b", Json.int 1), ("a", .arr [.null])]) := by decide +kernel
  have hread' : parse (js "\x7b\"a\":[null],\"b\":1\x7d") =
      some (Json.ofObject [("a", .arr [.null]), ("b", Json.int 1)]) := by decide +kernel
  have hpair := (canonical_json_identifies id fun _ _ h => h).1 _ _ _ _ hread hread'
    (by decide) (by decide)
  exact hpair.2.mpr ⟨rfl, rfl⟩

/-- Payloads that are written alike have one digest. -/
theorem inboxDigest_blind (sha256 : JsString → Digest) (id : Uuid) (type : JsString) {v w : Json}
    (hv : Readable v) (hw : Readable w) (hprinted : v.printed = w.printed)
    (hdepth : v.nests = w.nests) :
    inboxDigest sha256 ⟨id, type, v, none⟩ = inboxDigest sha256 ⟨id, type, w, none⟩ := by
  have hwritten : ∀ u, (IncomingEvent.mk id type u none).json.printed =
      Json.ofObject [("type", .str type), ("payload", u.printed)] := fun _ => rfl
  have hnests : (IncomingEvent.mk id type v none).json.nests =
      (IncomingEvent.mk id type w none).json.nests := by
    simp only [json_eq, IncomingEvent.content, Option.elim_none, Json.ofObject, List.map_cons,
      List.map_nil, Json.nests, Json.nestsMembers, hdepth]
  have htext : canonicalText (IncomingEvent.mk id type v none).json =
      canonicalText (IncomingEvent.mk id type w none).json := by
    have hv' : Readable (IncomingEvent.mk id type v none).json := readable_event hv
    have hw' : Readable (IncomingEvent.mk id type w none).json := readable_event hw
    rw [canonicalText_eq_iff hv' hw', hwritten, hwritten, hprinted]
    exact .refl
  rw [inboxDigest, inboxDigest, canonicalJson, canonicalJson, hnests, htext]

/-- A numeral beyond the largest double has the canonical text, and the digest, of null. -/
theorem infinite_payload_collides :
    ∃ v w, parse (js "\x7b\"a\":1e400\x7d") = some v ∧ parse (js "\x7b\"a\":null\x7d") = some w ∧
      v.nests ≤ 64 ∧ w.nests ≤ 64 ∧ canonicalJson v = canonicalJson w ∧ ¬ SameContent v w ∧
      ¬ ReadsBackAs v ∧
      ∀ sha256 id type, inboxDigest sha256 ⟨id, type, v, none⟩ =
        inboxDigest sha256 ⟨id, type, w, none⟩ := by
  have hread : parse (js "\x7b\"a\":1e400\x7d") =
      some (Json.ofObject [("a", .num (.infinite false))]) := by decide +kernel
  have hread' : parse (js "\x7b\"a\":null\x7d") = some (Json.ofObject [("a", .null)]) := by
    decide +kernel
  refine ⟨_, _, hread, hread', by decide, by decide, by decide +kernel, ?_, ?_, ?_⟩
  · intro h
    exact absurd h.finite_eq (by decide)
  · rw [readsBackAs_iff (parse_readable hread) (by decide)]
    decide
  · intro sha256 id type
    exact inboxDigest_blind sha256 id type (parse_readable hread) (parse_readable hread') rfl rfl

end Digests

end DreamSso
