import DreamSso.ClientDrafts
import Mathlib.Algebra.Order.Ring.Rat

/-!
What a tab recovers of a client form. A sanitized form is its own sanitized form, so a draft
that was written passes every check of the reader while it lives.
-/
namespace DreamSso.ClientDrafts

open JsStrings JsonValues JsonValues.Json JsConversions JsonText PrettyJson CanonicalJson
  ThrowingStore NumberValues

variable {parseUrl : UrlParser}

section Entries

theorem key_injective : Function.Injective fun key : Field => js key.key := by
  intro a b h
  have hkeys : a.key = b.key := js_injective h
  cases a <;> cases b <;> first | rfl | (exfalso; revert hkeys; decide)

theorem mem_fields (key : Field) : key ∈ fields := by
  cases key <;> decide

theorem fields_nodup : fields.Nodup := by decide

theorem lookup_filterMap (l : List Field) (value : Field → Option Json) (key : Field) :
    member? (l.filterMap fun k => (value k).map fun v => (js k.key, v)) (js key.key) =
      if key ∈ l then value key else none := by
  induction l with
  | nil => rfl
  | cons first l ih =>
    rw [member?] at ih ⊢
    rw [List.filterMap_cons]
    cases hfirst : value first with
    | none =>
      rw [Option.map_none]
      by_cases hkey : key = first
      · subst hkey
        rw [ih, if_pos List.mem_cons_self, hfirst]
        split_ifs <;> rfl
      · rw [ih]
        simp only [List.mem_cons, hkey, false_or]
    | some v =>
      rw [Option.map_some, List.lookup_cons]
      by_cases hkey : key = first
      · subst hkey
        rw [beq_self_eq_true, if_pos List.mem_cons_self, hfirst]
      · have hne : js key.key ≠ js first.key := fun h => hkey (key_injective h)
        rw [beq_eq_false_iff_ne.mpr hne, ih]
        simp only [List.mem_cons, hkey, false_or]

theorem get_entries (value : Field → Option Json) (key : Field) :
    get (entries value) key = value key := by
  rw [get, entries, lookup_filterMap, if_pos (mem_fields key)]

theorem mem_entries {value : Field → Option Json} {m : JsString × Json} (h : m ∈ entries value) :
    ∃ key, m.1 = js key.key ∧ value key = some m.2 := by
  obtain ⟨key, -, hkey⟩ := List.mem_filterMap.mp h
  obtain ⟨v, hv, rfl⟩ := Option.map_eq_some_iff.mp hkey
  exact ⟨key, rfl, hv⟩

theorem entries_keys_sublist (value : Field → Option Json) :
    List.Sublist ((entries value).map Prod.fst) fieldKeys := by
  rw [entries, fieldKeys]
  induction fields with
  | nil => exact List.Sublist.refl _
  | cons key l ih =>
    rw [List.filterMap_cons, List.map_cons]
    cases value key with
    | none => exact ih.cons _
    | some v => exact ih.cons_cons _

theorem entries_keys_nodup (value : Field → Option Json) :
    ((entries value).map Prod.fst).Nodup :=
  (entries_keys_sublist value).nodup (fields_nodup.map key_injective)

theorem entries_readsBack {value : Field → Option Json}
    (h : ∀ key v, value key = some v → readsBack v = true) :
    readsBack (.obj (entries value)) = true := by
  refine readsBack_obj_iff.mpr ⟨entries_keys_nodup value, fun m hm => ?_⟩
  obtain ⟨key, -, hv⟩ := mem_entries hm
  exact h key m.2 hv

/-- Members whose values are kept as they are stay as they are. -/
theorem sanitize_entries {value : Field → Option Json}
    (h : ∀ key v, value key = some v → sanitizeField parseUrl key v = some v) :
    sanitize parseUrl (entries value) = entries value := by
  rw [sanitize]
  congr 1
  funext key
  rw [get_entries]
  cases hv : value key with
  | none => rfl
  | some v => exact h key v hv

end Entries

section PublicKeys

/-- The members a public key may have. -/
def publicMembers : List JsString :=
  ["kty", "kid", "use", "alg", "key_ops", "n", "e", "x", "y", "crv"].map js

/-- A set of keys each of which has public members only. -/
def IsPublicSet (j : Json) : Prop :=
  ∃ keys, j = .obj [(js "keys", .arr keys)] ∧
    ∀ key ∈ keys, ∃ members, key = .obj members ∧ ∀ m ∈ members, m.1 ∈ publicMembers

theorem oneOf_finite {texts : List String} {v : Json} (h : oneOf texts v = true) :
    finite v = true := by
  obtain ⟨s, -, rfl⟩ := List.mem_map.mp (of_decide_eq_true h)
  rfl

theorem member?_of_mem {members : Members} (hnames : (members.map Prod.fst).Nodup)
    {m : JsString × Json} (h : m ∈ members) : member? members m.1 = some m.2 := by
  rw [member?]
  induction members with
  | nil => cases h
  | cons first members ih =>
    rw [List.map_cons, List.nodup_cons] at hnames
    rw [List.lookup_cons]
    rcases List.mem_cons.mp h with rfl | hrest
    · rw [beq_self_eq_true]
    · have hne : m.1 ≠ first.1 := fun heq => hnames.1 (heq ▸ List.mem_map_of_mem hrest)
      rw [beq_eq_false_iff_ne.mpr hne]
      exact ih hnames.2 hrest

theorem keyParts_cases {kty : Option Json} {parts : List String} (h : keyParts kty = some parts) :
    (kty = some (text "RSA") ∧ parts = ["n", "e"]) ∨ (kty = some (text "EC") ∧ parts = ["x", "y"]) ∨
      (kty = some (text "OKP") ∧ parts = ["x"]) := by
  unfold keyParts at h
  split_ifs at h with hrsa hec hokp
  · exact .inl ⟨hrsa, (Option.some.inj h).symm⟩
  · exact .inr (.inl ⟨hec, (Option.some.inj h).symm⟩)
  · exact .inr (.inr ⟨hokp, (Option.some.inj h).symm⟩)

theorem allowed_public {kty : Option Json} {parts : List String} (h : keyParts kty = some parts) :
    ∀ p ∈ allowedMembers kty parts, p ∈ publicMembers := by
  rcases keyParts_cases h with ⟨rfl, rfl⟩ | ⟨rfl, rfl⟩ | ⟨rfl, rfl⟩
  all_goals decide

theorem passes_some {check : Json → Bool} {o : Option Json} {v : Json} (h : passes check o = true)
    (ho : o = some v) : check v = true := by
  rw [ho] at h
  exact h

theorem publicPart_finite {o : Option Json} {v : Json} (h : publicPart o = true)
    (ho : o = some v) : finite v = true := by
  subst ho
  cases v <;> first | rfl | cases h

/-- A public key has public members only, and none of them is a number. -/
theorem publicKey_members {key : Json} (h : publicKey key = true) (hread : Readable key) :
    ∃ members, key = .obj members ∧ ∀ m ∈ members, m.1 ∈ publicMembers ∧ finite m.2 = true := by
  unfold publicKey at h
  split at h
  case h_2 => cases h
  next members =>
    refine ⟨members, rfl, fun m hm => ?_⟩
    have hvalue := member?_of_mem (readable_obj.mp hread).1 hm
    dsimp only at h
    split at h
    · cases h
    · next parts hparts =>
      simp only [Bool.and_eq_true, List.all_eq_true, decide_eq_true_eq] at h
      obtain ⟨⟨⟨⟨⟨⟨⟨hpart, hnames⟩, hkid⟩, huse⟩, halg⟩, hops⟩, hec⟩, hokp⟩ := h
      have hname := hnames m hm
      refine ⟨allowed_public hparts _ hname, ?_⟩
      rw [allowedMembers, List.map_append, List.map_append, List.mem_append, List.mem_append]
        at hname
      rcases hname with (hcommon | hname) | hcrv
      · simp only [List.map_cons, List.map_nil, List.mem_cons, List.not_mem_nil, or_false]
          at hcommon
        rcases hcommon with hm1 | hm1 | hm1 | hm1 | hm1
        all_goals rw [hm1] at hvalue
        · rcases keyParts_cases hparts with ⟨hkty, -⟩ | ⟨hkty, -⟩ | ⟨hkty, -⟩
          all_goals
            rw [hvalue] at hkty
            rw [Option.some.inj hkty]
            rfl
        · have hk := passes_some hkid hvalue
          cases hv : m.2 <;> rw [hv] at hk <;> first | rfl | cases hk
        · exact oneOf_finite (passes_some huse hvalue)
        · exact oneOf_finite (passes_some halg hvalue)
        · rw [of_decide_eq_true (passes_some hops hvalue)]
          rfl
      · obtain ⟨p, hp, hm1⟩ := List.mem_map.mp hname
        rw [← hm1] at hvalue
        exact publicPart_finite (hpart p hp) hvalue
      · rcases keyParts_cases hparts with ⟨hkty, -⟩ | ⟨hkty, -⟩ | ⟨hkty, -⟩
        · rw [if_pos hkty] at hcrv
          cases hcrv
        all_goals
          have hm1 : m.1 = js "crv" := by
            rw [hkty] at hcrv
            exact List.mem_singleton.mp hcrv
          rw [hm1] at hvalue
        · simp only [hkty, hvalue, ne_eq, not_true_eq_false, decide_false, Bool.false_or,
            Option.any_some] at hec
          exact oneOf_finite hec
        · simp only [hkty, hvalue, ne_eq, not_true_eq_false, decide_false, Bool.false_or,
            decide_eq_true_eq, Option.some.injEq] at hokp
          rw [hokp]
          rfl

/-- A public set, and nothing else that is accepted for one. -/
theorem publicSet_members {j : Json} (h : publicSet j = true) (hread : Readable j) :
    IsPublicSet j ∧ readsBack j = true := by
  unfold publicSet at h
  split at h
  case h_2 => cases h
  next members =>
    rw [Bool.and_eq_true, List.all_eq_true] at h
    obtain ⟨hnames, h⟩ := h
    split at h
    case h_2 => cases h
    next keys hkeys =>
      simp only [Bool.and_eq_true, List.all_eq_true] at h
      have hmembers := readable_obj.mp hread
      -- Every name is `keys`, and no name comes twice.
      have honly : members = [(js "keys", .arr keys)] := by
        cases members with
        | nil => cases hkeys
        | cons m rest =>
          have hm : m.1 = js "keys" := of_decide_eq_true (hnames m List.mem_cons_self)
          have hvalue := member?_of_mem hmembers.1 (List.mem_cons_self : m ∈ m :: rest)
          have hrest : rest = [] := by
            refine List.eq_nil_iff_forall_not_mem.mpr fun m' hm' => ?_
            have hnodup := hmembers.1
            rw [List.map_cons, List.nodup_cons] at hnodup
            have hm1 := of_decide_eq_true (hnames m' (List.mem_cons_of_mem m hm'))
            exact hnodup.1 (hm.trans hm1.symm ▸ List.mem_map_of_mem hm')
          rw [hm, hkeys] at hvalue
          rw [hrest, ← hm, Option.some.inj hvalue]
      subst honly
      have hpublic : ∀ key ∈ keys, ∃ members, key = .obj members ∧
          ∀ m ∈ members, m.1 ∈ publicMembers ∧ finite m.2 = true := by
        intro key hkey
        refine publicKey_members (h.2 key hkey) ?_
        exact readable_arr.mp (hmembers.2 _ List.mem_cons_self) key hkey
      have hfinite : finite (.obj [(js "keys", .arr keys)]) = true := by
        rw [finite, finiteMembers, finiteMembers, Bool.and_true, finite, finiteItems_iff]
        intro key hkey
        obtain ⟨members, rfl, hall⟩ := hpublic key hkey
        exact finiteMembers_iff.mpr fun m hm => (hall m hm).2
      refine ⟨⟨keys, rfl, fun key hkey => ?_⟩, ?_⟩
      · obtain ⟨members, heq, hall⟩ := hpublic key hkey
        exact ⟨members, heq, fun m hm => (hall m hm).1⟩
      · rw [Readable, printed_finite _ hfinite] at hread
        exact hread

/-- The text of a public set is empty or tells public members only. -/
def IsPublicText (s : JsString) : Prop := s = [] ∨ ∃ j, parse s = some j ∧ IsPublicSet j

theorem publicJwks_cases {s t : JsString} (h : publicJwks s = some t) :
    (s = [] ∧ t = []) ∨ ∃ j, publicSet j = true ∧ Readable j ∧ t = pretty 0 j := by
  unfold publicJwks at h
  split_ifs at h with hempty hlong
  · exact .inl ⟨hempty, (Option.some.inj h).symm⟩
  · split at h
    · cases h
    · next j hj =>
      split_ifs at h with hset
      exact .inr ⟨j, hset, parse_readable hj, (Option.some.inj h).symm⟩

theorem publicJwks_public {s t : JsString} (h : publicJwks s = some t) : IsPublicText t := by
  rcases publicJwks_cases h with ⟨-, rfl⟩ | ⟨j, hset, hread, rfl⟩
  · exact .inl rfl
  · obtain ⟨hpublic, hback⟩ := publicSet_members hset hread
    exact .inr ⟨j, parse_pretty hback 0, hpublic⟩

/-- The text of a public set is kept as it is unless it grew too long. -/
theorem publicJwks_again {s t : JsString} (h : publicJwks s = some t) (hshort : t.length ≤ draftMax) :
    publicJwks t = some t := by
  rcases publicJwks_cases h with ⟨-, rfl⟩ | ⟨j, hset, hread, rfl⟩
  · rfl
  · have hparse := parse_pretty (publicSet_members hset hread).2 0
    have hne : pretty 0 j ≠ [] := by
      intro hnil
      rw [hnil] at hparse
      cases hparse
    rw [publicJwks, if_neg hne, if_neg (by omega), hparse]
    simp only [hset, if_true]

end PublicKeys

section Fields

theorem keep_eq_some {check : Json → Bool} {v w : Json} :
    keep check v = some w ↔ check v = true ∧ v = w := by
  rw [keep]
  split_ifs with h
  · simp [h]
  · simp [h]

/-- The check of a field whose value is kept as it is. -/
def fieldCheck (parseUrl : UrlParser) : Field → Json → Bool
  | .jwksText => fun _ => false
  | .hostname => safeUrlPart parseUrl true
  | .eventsPath | .jwksPath => safeUrlPart parseUrl false
  | .redirectPaths => isList 50 (safeUrlPart parseUrl false)
  | .allowedScopes => isList 3 (oneOf ["openid", "profile", "email"])
  | .isFirstParty => isBool
  | .keyMode => oneOf ["uri", "inline"]
  | .entryPolicy => oneOf ["opt_in", "baseline"]
  | .clientId | .name => short

theorem sanitizeField_keep {key : Field} (h : key ≠ .jwksText) (v : Json) :
    sanitizeField parseUrl key v = keep (fieldCheck parseUrl key) v := by
  cases key <;> first | rfl | exact absurd rfl h

theorem sanitizeField_jwks {v w : Json} (h : sanitizeField parseUrl .jwksText v = some w) :
    ∃ s t, v = .str s ∧ w = .str t ∧ publicJwks s = some t := by
  cases v with
  | str s =>
    obtain ⟨t, ht, rfl⟩ := Option.map_eq_some_iff.mp h
    exact ⟨s, t, rfl, rfl, ht⟩
  | _ => cases h

theorem isList_items {limit : ℕ} {check : Json → Bool} {v : Json} (h : isList limit check v = true) :
    ∃ items, v = .arr items ∧ ∀ item ∈ items, check item = true := by
  cases v with
  | arr items =>
    simp only [isList, Bool.and_eq_true, List.all_eq_true] at h
    exact ⟨items, rfl, h.2⟩
  | _ => cases h

theorem safeUrlPart_text {isHost : Bool} {v : Json} (h : safeUrlPart parseUrl isHost v = true) :
    ∃ s, v = .str s ∧ s.any isUnsafeUnit = false := by
  cases v with
  | str s =>
    rw [safeUrlPart] at h
    split_ifs at h with hunsafe
    all_goals
      simp only [not_or, Bool.not_eq_true] at hunsafe
      exact ⟨s, rfl, hunsafe.2.1⟩
  | _ => cases h

theorem oneOf_text {texts : List String} {v : Json} (h : oneOf texts v = true) :
    ∃ s, v = .str s := by
  obtain ⟨s, -, rfl⟩ := List.mem_map.mp (of_decide_eq_true h)
  exact ⟨_, rfl⟩

theorem texts_readsBack {items : List Json} (h : ∀ item ∈ items, ∃ s, item = .str s) :
    readsBack (.arr items) = true := by
  refine readsBack_arr fun v hv => ?_
  obtain ⟨s, rfl⟩ := h v hv
  rfl

theorem fieldCheck_readsBack {key : Field} {v : Json} (h : fieldCheck parseUrl key v = true) :
    readsBack v = true := by
  cases key with
  | jwksText => cases h
  | hostname | eventsPath | jwksPath =>
    obtain ⟨s, rfl, -⟩ := safeUrlPart_text h
    rfl
  | redirectPaths =>
    obtain ⟨items, rfl, hitems⟩ := isList_items h
    refine texts_readsBack fun item hitem => ?_
    obtain ⟨s, hs, -⟩ := safeUrlPart_text (hitems item hitem)
    exact ⟨s, hs⟩
  | allowedScopes =>
    obtain ⟨items, rfl, hitems⟩ := isList_items h
    exact texts_readsBack fun item hitem => oneOf_text (hitems item hitem)
  | isFirstParty => cases v <;> first | rfl | cases h
  | keyMode | entryPolicy =>
    obtain ⟨s, rfl⟩ := oneOf_text h
    rfl
  | clientId | name => cases v <;> first | rfl | cases h

theorem sanitizeField_readsBack {key : Field} {v w : Json}
    (h : sanitizeField parseUrl key v = some w) : readsBack w = true := by
  by_cases hkey : key = .jwksText
  · subst hkey
    obtain ⟨s, t, -, rfl, -⟩ := sanitizeField_jwks h
    rfl
  · rw [sanitizeField_keep hkey, keep_eq_some] at h
    exact h.2 ▸ fieldCheck_readsBack h.1

/-- What was kept of a field is kept as it is, unless a key set grew too long. -/
theorem sanitizeField_again {key : Field} {v w : Json} (h : sanitizeField parseUrl key v = some w)
    (hlength : (stringify w).length ≤ draftMax) : sanitizeField parseUrl key w = some w := by
  by_cases hkey : key = .jwksText
  · subst hkey
    obtain ⟨s, t, -, rfl, ht⟩ := sanitizeField_jwks h
    rw [stringify] at hlength
    have hquote := length_le_quote t
    change (publicJwks t).map Json.str = _
    rw [publicJwks_again ht (by omega)]
    rfl
  · rw [sanitizeField_keep hkey, keep_eq_some] at h ⊢
    rw [← h.2]
    exact ⟨h.1, rfl⟩

/-- A text without a query, a fragment and user info. -/
def IsBarePart (s : JsString) : Prop := 0x3f ∉ s ∧ 0x23 ∉ s ∧ 0x40 ∉ s

theorem bare_of_safe {s : JsString} (h : s.any isUnsafeUnit = false) : IsBarePart s := by
  have hnot : ∀ u, isUnsafeUnit u = true → u ∉ s := by
    intro u hu hmem
    rw [List.any_eq_false] at h
    exact h u hmem hu
  exact ⟨hnot _ rfl, hnot _ rfl, hnot _ rfl⟩

/-- What may be kept of a field: key sets are public and the parts of URLs are bare. -/
def IsPublicValue : Field → Json → Prop
  | .jwksText => fun v => ∃ s, v = .str s ∧ IsPublicText s
  | .hostname | .eventsPath | .jwksPath => fun v => ∃ s, v = .str s ∧ IsBarePart s
  | .redirectPaths => fun v => ∃ items, v = .arr items ∧
      ∀ item ∈ items, ∃ s, item = .str s ∧ IsBarePart s
  | _ => fun _ => True

theorem sanitizeField_public {key : Field} {v w : Json}
    (h : sanitizeField parseUrl key v = some w) : IsPublicValue key w := by
  have hbare : ∀ {isHost v}, safeUrlPart parseUrl isHost v = true →
      ∃ s, v = .str s ∧ IsBarePart s := by
    intro isHost v hv
    obtain ⟨s, hs, hsafe⟩ := safeUrlPart_text hv
    exact ⟨s, hs, bare_of_safe hsafe⟩
  by_cases hkey : key = .jwksText
  · subst hkey
    obtain ⟨s, t, -, rfl, ht⟩ := sanitizeField_jwks h
    exact ⟨t, rfl, publicJwks_public ht⟩
  · rw [sanitizeField_keep hkey, keep_eq_some] at h
    obtain ⟨hcheck, rfl⟩ := h
    cases key with
    | jwksText => exact absurd rfl hkey
    | hostname | eventsPath | jwksPath => exact hbare hcheck
    | redirectPaths =>
      obtain ⟨items, hitems, hall⟩ := isList_items hcheck
      exact ⟨items, hitems, fun item hitem => hbare (hall item hitem)⟩
    | _ => trivial

end Fields

section Drafts

/-- Members that the sanitizer keeps as they are. -/
def Sanitized (parseUrl : UrlParser) (members : Members) : Prop :=
  sanitize parseUrl members = members

theorem Sanitized.readsBack {members : Members} (h : Sanitized parseUrl members) :
    readsBack (.obj members) = true := by
  rw [← h, sanitize]
  refine entries_readsBack fun key v hv => ?_
  obtain ⟨w, -, hw⟩ := Option.bind_eq_some_iff.mp hv
  exact sanitizeField_readsBack hw

theorem Sanitized.public {members : Members} (h : Sanitized parseUrl members) {m : JsString × Json}
    (hm : m ∈ members) : ∃ key, m.1 = js key.key ∧ IsPublicValue key m.2 := by
  rw [← h, sanitize] at hm
  obtain ⟨key, hkey, hv⟩ := mem_entries hm
  obtain ⟨w, -, hw⟩ := Option.bind_eq_some_iff.mp hv
  exact ⟨key, hkey, sanitizeField_public hw⟩

/-- Sanitized entries stay as they are when their text is not too long. -/
theorem sanitized_entries {value : Field → Option Json}
    (h : ∀ key w, value key = some w → ∃ v, sanitizeField parseUrl key v = some w)
    (hlength : (stringify (.obj (entries value))).length ≤ draftMax) :
    Sanitized parseUrl (entries value) := by
  refine sanitize_entries fun key w hw => ?_
  obtain ⟨v, hv⟩ := h key w hw
  have hmem : (js key.key, w) ∈ entries value := by
    refine List.mem_filterMap.mpr ⟨key, mem_fields key, ?_⟩
    rw [hw, Option.map_some]
  exact sanitizeField_again hv ((length_le_obj hmem).trans hlength)

/-- A draft that passes the reader's checks of what it holds. -/
structure Kept (parseUrl : UrlParser) (d : Draft) : Prop where
  route : d.route.length ≤ 4096
  base : Sanitized parseUrl d.base
  changes : Sanitized parseUrl d.changes
  inBase : ∀ m ∈ d.changes, (member? d.base m.1).isSome = true
  omitted : ∀ key ∈ d.omitted, key ∈ fieldKeys
  operation : ∀ id, d.operationId = some id → isOperationId id = true

section Members

variable (d : Draft)

theorem Draft.member (name : String) : member? d.object (js name) = d.members.lookup name :=
  member?_js d.members name

@[simp] theorem Draft.object_version : member? d.object (js "version") = some (int 1) :=
  d.member "version"

@[simp] theorem Draft.object_owner : member? d.object (js "owner") = some (.str d.owner) :=
  d.member "owner"

@[simp] theorem Draft.object_route : member? d.object (js "route") = some (.str d.route) :=
  d.member "route"

@[simp] theorem Draft.object_savedAt : member? d.object (js "savedAt") = some (.num d.savedAt.number) :=
  d.member "savedAt"

@[simp] theorem Draft.object_base : member? d.object (js "base") = some (.obj d.base) :=
  d.member "base"

@[simp] theorem Draft.object_changes : member? d.object (js "changes") = some (.obj d.changes) :=
  d.member "changes"

@[simp] theorem Draft.object_omitted : member? d.object (js "omitted") = some (.arr (d.omitted.map .str)) :=
  d.member "omitted"

@[simp] theorem Draft.object_uncertain : member? d.object (js "uncertain") = some (.bool d.uncertain) :=
  d.member "uncertain"

@[simp] theorem Draft.object_operationId : member? d.object (js "operationId") = some (ofOption .str d.operationId) :=
  d.member "operationId"

@[simp] theorem Draft.object_priorUnknown : member? d.object (js "priorUnknown") = some (.bool d.priorUnknown) :=
  d.member "priorUnknown"

end Members

theorem Kept.readsBack {d : Draft} (h : Kept parseUrl d) : readsBack (.obj d.object) = true := by
  have hnames : (d.members.map Prod.fst).Nodup := by
    change ["version", "owner", "route", "savedAt", "base", "changes", "omitted", "uncertain",
      "operationId", "priorUnknown"].Nodup
    decide
  refine readsBack_ofObject hnames ?_
  · intro m hm
    simp only [Draft.members, List.mem_cons, List.not_mem_nil, or_false] at hm
    rcases hm with rfl | rfl | rfl | rfl | rfl | rfl | rfl | rfl | rfl | rfl
    · decide +kernel
    · rfl
    · rfl
    · exact d.savedAt.reads
    · exact h.base.readsBack
    · exact h.changes.readsBack
    · refine texts_readsBack fun item hitem => ?_
      obtain ⟨s, -, rfl⟩ := List.mem_map.mp hitem
      exact ⟨s, rfl⟩
    · rfl
    · exact readsBack_ofOption (fun _ => rfl) d.operationId
    · rfl

theorem Kept.parse {d : Draft} (h : Kept parseUrl d) : parse d.text = some (.obj d.object) := by
  have hread := @parse_stringify _ h.readsBack [] (by simp)
  rwa [List.append_nil] at hread

theorem Draft.text_cons (d : Draft) : ∃ u rest, d.text = u :: rest := by
  rw [Draft.text, stringify]
  exact ⟨_, _, rfl⟩

/-- The checks of the reader come down to the owner and the time. -/
theorem Kept.accepted {d : Draft} (h : Kept parseUrl d) (owner : JsString) (now : Instant) :
    accepted parseUrl owner now d.object =
      (decide (d.owner = owner) && !isOver now d.savedAt.value) := by
  have hroute : (some (.str d.route) : Option Json).any short = true := by
    simp [short, h.route]
  have hops : operationPasses (some (ofOption .str d.operationId)) = true := by
    cases hid : d.operationId with
    | none => rfl
    | some id => exact h.operation id hid
  have homitted : omittedPasses (some (.arr (d.omitted.map .str))) = true := by
    simp only [omittedPasses, List.all_eq_true, decide_eq_true_eq]
    intro item hitem
    obtain ⟨key, hkey, rfl⟩ := List.mem_map.mp hitem
    exact List.mem_map_of_mem (h.omitted key hkey)
  have hcontent : contentPasses parseUrl (some (.obj d.base)) (some (.obj d.changes)) = true := by
    simp only [contentPasses, Bool.and_eq_true, decide_eq_true_eq, List.all_eq_true]
    exact ⟨⟨by rw [h.base], by rw [h.changes]⟩, h.inBase⟩
  have htime : timePasses now (some (.num d.savedAt.number)) = !isOver now d.savedAt.value := by
    have hreads := d.savedAt.reads
    rw [timePasses.eq_def, Instant.value]
    cases hn : d.savedAt.number with
    | infinite negative =>
      rw [hn] at hreads
      cases negative <;> exact absurd hreads (by decide)
    | _ => rfl
  by_cases howner : d.owner = owner
  · simp [ClientDrafts.accepted, howner, hroute, htime, isBool, hops, homitted, hcontent]
  · simp [ClientDrafts.accepted, howner]

end Drafts

section Composed

variable {args : WriteArgs}

theorem mem_omittedKeys {key : JsString} (h : key ∈ omittedKeys parseUrl args) :
    key ∈ fieldKeys := by
  rw [omittedKeys, List.mem_eraseDups, List.mem_append] at h
  rcases h with h | h
  · exact List.contains_iff_mem.mp (List.mem_filter.mp h).2
  · obtain ⟨field, -, rfl⟩ := List.mem_map.mp h
    exact List.mem_map_of_mem (mem_fields field)

/-- A changed field that is not named as omitted is in both sanitized forms. -/
theorem kept_inBase {key : Field} (hdirty : key ∈ dirty args)
    (h : js key.key ∉ omittedKeys parseUrl args) :
    (get (sanitize parseUrl args.base) key).isSome = true := by
  by_contra hnone
  apply h
  rw [omittedKeys, List.mem_eraseDups, List.mem_append]
  refine .inr (List.mem_map_of_mem (List.mem_filter.mpr ⟨hdirty, ?_⟩))
  rw [Bool.not_eq_true, Option.isSome_eq_false_iff] at hnone
  simp only [withheld, hnone, Bool.or_true, Bool.true_or]

/-- The changes are the entries of the changed fields that are not omitted. -/
theorem changes_eq : changes parseUrl args = entries fun key =>
    if key ∈ dirty args ∧ js key.key ∉ omittedKeys parseUrl args then
      get (sanitize parseUrl args.form) key else none := by
  rw [changes, entries, dirty, List.filterMap_filter, List.filterMap_filter]
  refine List.filterMap_congr fun key hkey => ?_
  simp only [List.mem_filter, hkey, true_and, List.contains_eq_mem, Bool.not_eq_true',
    decide_eq_false_iff_not]
  split_ifs <;> simp_all

theorem composed_kept {savedAt : Instant} (hroute : args.route.length ≤ 4096)
    (hops : ∀ id, args.operationId = some id → isOperationId id = true)
    (hsize : oversized (composed parseUrl args savedAt).text = false) :
    Kept parseUrl (composed parseUrl args savedAt) := by
  have hlength : (composed parseUrl args savedAt).text.length ≤ draftMax := by
    simp only [oversized, Bool.or_eq_false_iff, decide_eq_false_iff_not, not_lt] at hsize
    exact hsize.1
  have hmember : ∀ m ∈ (composed parseUrl args savedAt).members,
      (stringify m.2).length ≤ draftMax := by
    intro m hm
    have hle := length_le_obj (List.mem_map_of_mem (f := fun m => (js m.1, m.2)) hm)
    exact hle.trans hlength
  have hvalue : ∀ (form : Members) (key : Field) (w : Json),
      get (sanitize parseUrl form) key = some w → ∃ v, sanitizeField parseUrl key v = some w := by
    intro form key w hw
    rw [sanitize, get_entries] at hw
    obtain ⟨v, -, hv⟩ := Option.bind_eq_some_iff.mp hw
    exact ⟨v, hv⟩
  refine ⟨hroute, ?_, ?_, ?_, fun key hkey => mem_omittedKeys hkey, hops⟩
  · have hbase := hmember ("base", .obj (sanitize parseUrl args.base)) (by simp [Draft.members, composed])
    refine sanitized_entries (fun key w hw => ?_) hbase
    obtain ⟨v, -, hv⟩ := Option.bind_eq_some_iff.mp hw
    exact ⟨v, hv⟩
  · have hchanges := hmember ("changes", .obj (changes parseUrl args)) (by simp [Draft.members, composed])
    change Sanitized parseUrl (changes parseUrl args)
    rw [changes_eq] at hchanges ⊢
    refine sanitized_entries (fun key w hw => ?_) hchanges
    split_ifs at hw
    exact hvalue _ key w hw
  · intro m hm
    change m ∈ changes parseUrl args at hm
    rw [changes_eq] at hm
    obtain ⟨key, hkey, hv⟩ := mem_entries hm
    split_ifs at hv with hin
    rw [hkey]
    exact kept_inBase hin.1 hin.2

end Composed

section Reading

/-- What the reader gives for a stored draft while the storage works. -/
theorem read_draft {d : Draft} (h : Kept parseUrl d) (hsize : oversized d.text = false)
    (held : Bool) (now : Instant) :
    readClientDraft parseUrl held d.owner d.route now ⟨some d.text, []⟩ =
      if isOver now d.savedAt.value then .ok none ⟨none, []⟩
      else .ok (some d.object) ⟨some d.text, []⟩ := by
  have haccess : atHand held ⟨some d.text, []⟩ = .ok () ⟨some d.text, []⟩ := by
    cases held <;> rfl
  rw [readClientDraft, tryCatch_run, bind_run, haccess]
  dsimp only
  rw [tryCatch_run, bind_run, getItem_working]
  dsimp only
  obtain ⟨u, rest, htext⟩ := d.text_cons
  have hparse := h.parse
  rw [htext] at hparse hsize ⊢
  dsimp only
  rw [hsize, hparse]
  simp only [Bool.false_eq_true, if_false, h.accepted, decide_true, Bool.true_and,
    Draft.object_route, if_true]
  cases isOver now d.savedAt.value with
  | true => rfl
  | false => rfl

end Reading

end DreamSso.ClientDrafts
