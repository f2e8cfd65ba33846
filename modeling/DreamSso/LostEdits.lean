import DreamSso.ClientEdits
import DreamSso.Library.GuardedRuns

/-!
Edits of one client that set different fields. A PATCH writes every column, so it keeps
what another edit has set only if it has read the row after that was written, if the
URLs are taken apart as they were put together, and if it fetches no keys in the place
of keys that were set.
-/
namespace DreamSso.ClientForm

open Interleaving JsConversions JsStrings JsonValues Transitions

inductive EditCall
  | patch (body : Body)
  | siteName (name : JsString)

def EditCall.request (P : Primitives) (clientId : JsString) : EditCall → Handler Response
  | .patch body => patchClient P clientId body
  | .siteName name => applySiteName clientId name

/-- The fields it sets. -/
def EditCall.sets : EditCall → Field → Bool
  | .patch body, f => body.sets f
  | .siteName _, f => decide (f = .name)

/-- The value it sets a field to: that of its body, as the validation leaves it. -/
def EditCall.SetsTo (P : Primitives) : EditCall → (f : Field) → f.Value → Prop
  | .patch body, f, value => ∃ v hostname, body.field f = some v ∧ errorsOf P hostname f v = [] ∧
      valueOf P hostname f v = value
  | .siteName text, .name, value => text = value
  | .siteName _, _, _ => False

section Forms

/-- The hostname a PATCH validates the paths under. -/
def hostnameOf (P : Primitives) (body : Body) (row : ClientColumns) : JsString :=
  valueOf P [] .hostname (merge P row body .hostname)

/-- The form it validates, from the row it has read. -/
def asked (P : Primitives) (body : Body) (row : ClientColumns) : ClientInput :=
  (validateClientInput P (merge P row body)).2

def Accepts (P : Primitives) (body : Body) (row : ClientColumns) : Prop :=
  (validateClientInput P (merge P row body)).1 = []

theorem asked_get (P : Primitives) (body : Body) (row : ClientColumns) (f : Field) :
    (asked P body row).get f = valueOf P (hostnameOf P body row) f (merge P row body f) := by
  cases f <;> rfl

theorem accepts_errors {P : Primitives} {body : Body} {row : ClientColumns}
    (h : Accepts P body row) (f : Field) :
    errorsOf P (hostnameOf P body row) f (merge P row body f) = [] := by
  have hall := List.flatMap_eq_nil_iff.mp h f (by cases f <;> decide)
  exact (List.append_eq_nil_iff.mp hall).1

/-- What is behind the scheme of a stored URL, up to the first slash and from there on. -/
def hostOf (url : JsString) : JsString := (url.drop 8).takeWhile fun u => decide (u ≠ slash)

def pathOf (url : JsString) : JsString := (url.drop 8).dropWhile fun u => decide (u ≠ slash)

/-- The value the row has for a field. -/
def ClientColumns.get (row : ClientColumns) : (f : Field) → f.Value
  | .name => row.name
  | .hostname => (row.redirectUris.head?.map hostOf).getD []
  | .redirectPaths => row.redirectUris.map pathOf
  | .eventsPath => row.eventsUri.map pathOf
  | .jwksUri => row.jwksUri
  | .jwks => row.jwks
  | .allowedScopes => row.allowedScopes
  | .isFirstParty => row.isFirstParty
  | .entryPolicy => row.entryPolicy

/-- All URLs of a row are under the hostname it has. -/
def ClientColumns.Has (row : ClientColumns) (f : Field) (value : f.Value) : Prop :=
  row.get f = value ∧
    (f = .hostname → ∀ url ∈ row.redirectUris ++ row.eventsUri.toList, hostOf url = row.get .hostname)

/-- A hostname without a slash and paths that start with one. -/
structure WellFormed (v : ClientInput) : Prop where
  hostname : slash ∉ v.hostname
  redirects : v.redirectPaths ≠ []
  redirectPaths : ∀ path ∈ v.redirectPaths, path.head? = some slash
  eventsPath : ∀ path ∈ v.eventsPath, path.head? = some slash

theorem drop_composeUrl (h p : JsString) : (composeUrl h p).drop 8 = h ++ p := by
  rw [composeUrl, List.append_assoc]
  exact List.drop_left' rfl

theorem not_slash {h : JsString} (hh : slash ∉ h) : ∀ u ∈ h, decide (u ≠ slash) = true := by
  intro u hu
  rw [decide_eq_true_eq]
  rintro rfl
  exact hh hu

theorem hostOf_composeUrl {h p : JsString} (hh : slash ∉ h) (hp : p.head? = some slash) :
    hostOf (composeUrl h p) = h := by
  rw [hostOf, drop_composeUrl, List.takeWhile_append_of_pos (not_slash hh)]
  cases p with
  | nil => cases hp
  | cons u rest =>
    rw [List.head?_cons, Option.some.injEq] at hp
    simp [hp]

theorem pathOf_composeUrl {h p : JsString} (hh : slash ∉ h) (hp : p.head? = some slash) :
    pathOf (composeUrl h p) = p := by
  rw [pathOf, drop_composeUrl, List.dropWhile_append_of_pos (not_slash hh)]
  cases p with
  | nil => cases hp
  | cons u rest =>
    rw [List.head?_cons, Option.some.injEq] at hp
    simp [hp]

/-- Every URL that is composed is under the hostname. -/
theorem columns_hosts {v : ClientInput} (hv : WellFormed v) :
    ∀ url ∈ v.columns.redirectUris ++ v.columns.eventsUri.toList, hostOf url = v.hostname := by
  intro url hurl
  rcases List.mem_append.mp hurl with hurl | hurl
  · obtain ⟨path, hpath, rfl⟩ := List.mem_map.mp hurl
    exact hostOf_composeUrl hv.hostname (hv.redirectPaths path hpath)
  · obtain ⟨path, hpath, rfl⟩ := Option.map_eq_some_iff.mp (Option.mem_toList.mp hurl)
    exact hostOf_composeUrl hv.hostname (hv.eventsPath path hpath)

theorem columns_hostname {v : ClientInput} (hv : WellFormed v) :
    v.columns.get .hostname = v.hostname := by
  obtain ⟨path, rest, hpaths⟩ := List.exists_cons_of_ne_nil hv.redirects
  have hcolumn : v.columns.redirectUris = composeUrl v.hostname path ::
      rest.map (composeUrl v.hostname) := by
    rw [ClientInput.columns, hpaths, List.map_cons]
  rw [ClientColumns.get, hcolumn]
  exact hostOf_composeUrl hv.hostname (hv.redirectPaths path (hpaths ▸ List.mem_cons_self))

theorem columns_get {v : ClientInput} (hv : WellFormed v) (f : Field) :
    v.columns.get f = v.get f := by
  cases f with
  | hostname => exact columns_hostname hv
  | redirectPaths =>
    show (v.redirectPaths.map (composeUrl v.hostname)).map pathOf = v.redirectPaths
    rw [List.map_map]
    refine List.map_congr_left (fun path hpath => ?_) |>.trans (List.map_id _)
    exact pathOf_composeUrl hv.hostname (hv.redirectPaths path hpath)
  | eventsPath =>
    show (v.eventsPath.map (composeUrl v.hostname)).map pathOf = v.eventsPath
    cases hpath : v.eventsPath with
    | none => rfl
    | some path =>
      exact congrArg some (pathOf_composeUrl hv.hostname (hv.eventsPath path hpath))
  | _ => rfl

/-- The row a form is written as has the values of the form. -/
theorem columns_has {v : ClientInput} (hv : WellFormed v) (f : Field) :
    v.columns.Has f (v.get f) := by
  refine ⟨columns_get hv f, fun _ url hurl => ?_⟩
  rw [columns_hostname hv, columns_hosts hv url hurl]

/-- What is not a separator is in one of the parts. -/
theorem mem_splitOnP {p : ℕ → Bool} {u : ℕ} {s : JsString} (hu : u ∈ s) (hp : p u = false) :
    ∃ label ∈ s.splitOnP p, u ∈ label := by
  induction s with
  | nil => cases hu
  | cons v rest ih =>
    rw [List.splitOnP_cons_eq_if_modifyHead]
    obtain ⟨first, labels, hsplit⟩ := List.exists_cons_of_ne_nil (List.splitOnP_ne_nil p rest)
    rcases List.mem_cons.mp hu with rfl | hu
    · rw [if_neg (by simp [hp]), hsplit]
      exact ⟨u :: first, List.mem_cons_self, List.mem_cons_self⟩
    · obtain ⟨label, hlabel, hmem⟩ := ih hu
      split_ifs
      · exact ⟨label, List.mem_cons_of_mem _ hlabel, hmem⟩
      · rw [hsplit] at hlabel ⊢
        rcases List.mem_cons.mp hlabel with rfl | hlabel
        · exact ⟨v :: label, List.mem_cons_self, List.mem_cons_of_mem _ hmem⟩
        · exact ⟨label, List.mem_cons_of_mem _ hlabel, hmem⟩

theorem isHostname_slash {s : JsString} (h : isHostname s = true) : slash ∉ s := by
  intro hmem
  obtain ⟨label, hlabel, hu⟩ := mem_splitOnP (p := fun u => u == 0x2e) hmem (by decide)
  have hall := List.all_eq_true.mp h label hlabel
  rw [isHostLabel, Bool.and_eq_true, List.all_eq_true] at hall
  exact absurd (hall.2 slash hu) (by decide)

theorem checkHostname_slash {v : JsString} (h : (checkHostname v).error = none) :
    slash ∉ (checkHostname v).value := by
  unfold checkHostname at h ⊢
  split_ifs at h ⊢ with _ _ _ hname
  exact isHostname_slash (by simpa using hname)

theorem collapseSlashes_head {s : JsString} (h : s.head? = some slash) :
    (collapseSlashes s).head? = some slash := by
  induction s with
  | nil => cases h
  | cons u rest ih =>
    rw [List.head?_cons, Option.some.injEq] at h
    rw [collapseSlashes]
    split_ifs with hboth
    · exact ih hboth.2
    · rw [List.head?_cons, h]

theorem normalizeRelative_head {v : JsString} : (normalizeRelative v).value.head? = some slash := by
  have hhead : (rooted v).head? = some slash := by
    apply collapseSlashes_head
    split_ifs with h
    · exact h
    · rfl
  unfold normalizeRelative
  split_ifs <;> exact hhead

theorem pathOfUrl_head {P : Primitives} {v hostname : JsString}
    (h : (pathOfUrl P v hostname).error = none) :
    (pathOfUrl P v hostname).value.head? = some slash := by
  unfold pathOfUrl at h ⊢
  split at h
  · cases h
  · split_ifs at h ⊢
    exact normalizeRelative_head

theorem normalizePath_head {P : Primitives} {input hostname : JsString} {required : Bool}
    (h : (normalizePath P input hostname required).error = none) :
    (normalizePath P input hostname required).value = [] ∧ required = false ∨
      (normalizePath P input hostname required).value.head? = some slash := by
  unfold normalizePath at h ⊢
  split_ifs at h ⊢ with hempty hrequired hfull
  · exact .inl ⟨rfl, by simpa using hrequired⟩
  · exact .inr (pathOfUrl_head h)
  · exact .inr normalizeRelative_head

theorem normError_eq_nil {key : String} {n : Norm} (h : normError (js key) n = []) :
    n.error = none := by
  cases herror : n.error with
  | none => rfl
  | some text => simp [normError, herror] at h

theorem pathErrors_eq_nil {P : Primitives} {hostname : JsString} {items : List Json}
    (h : pathErrors P hostname items = []) {item : Json} (hitem : item ∈ items) :
    (normalizePath P (stringOr item) hostname true).error = none := by
  obtain ⟨n, hn, hget⟩ := List.mem_iff_getElem.mp hitem
  have hmem : (item, n) ∈ items.zipIdx :=
    List.mk_mem_zipIdx_iff_getElem?.mpr (List.getElem?_eq_some_iff.mpr ⟨hn, hget⟩)
  have herror := List.flatMap_eq_nil_iff.mp h (item, n) hmem
  cases hcase : (normalizePath P (stringOr item) hostname true).error with
  | none => rfl
  | some text => simp [normError, hcase] at herror

/-- Redirect paths without an error are the paths of a list with something in it. -/
theorem redirectPaths_cases {P : Primitives} {hostname : JsString} {v : Json}
    (h : errorsOf P hostname .redirectPaths v = []) :
    ∃ items, v = .arr items ∧ items ≠ [] ∧ ∀ item ∈ items,
      (normalizePath P (stringOr item) hostname true).error = none := by
  cases v with
  | arr items =>
    cases items with
    | nil => cases h
    | cons item items => exact ⟨_, rfl, List.cons_ne_nil _ _, fun _ => pathErrors_eq_nil h⟩
  | _ => cases h

theorem accepts_wellFormed {P : Primitives} {body : Body} {row : ClientColumns}
    (h : Accepts P body row) : WellFormed (asked P body row) := by
  have hpaths : (asked P body row).redirectPaths = valueOf P (hostnameOf P body row)
    .redirectPaths (merge P row body .redirectPaths) := rfl
  obtain ⟨items, hitems, hne, hall⟩ := redirectPaths_cases (accepts_errors h .redirectPaths)
  rw [hitems] at hpaths
  refine ⟨?_, ?_, ?_, ?_⟩
  · exact checkHostname_slash (normError_eq_nil (accepts_errors h .hostname))
  · rw [hpaths]
    exact fun hnil => hne (List.map_eq_nil_iff.mp hnil)
  · intro path hpath
    rw [hpaths] at hpath
    obtain ⟨item, hitem, rfl⟩ := List.mem_map.mp hpath
    rcases normalizePath_head (hall item hitem) with ⟨-, hrequired⟩ | hhead
    · cases hrequired
    · exact hhead
  · intro path hpath
    have hvalue : (asked P body row).eventsPath = valueOf P (hostnameOf P body row) .eventsPath
      (merge P row body .eventsPath) := rfl
    have herror := normError_eq_nil (accepts_errors h .eventsPath)
    rw [hvalue, valueOf, Option.mem_def, Option.ite_none_left_eq_some, Option.some.injEq] at hpath
    obtain ⟨hne, rfl⟩ := hpath
    rcases normalizePath_head herror with ⟨hempty, -⟩ | hhead
    · exact (hne hempty).elim
    · exact hhead

/-- The path of a full URL that is allowed depends on the URL only. -/
theorem pathOfUrl_value {P : Primitives} {v h : JsString} (hok : (pathOfUrl P v h).error = none) :
    (P.parseUrl (if (js "//").isPrefixOf v then js "https:" ++ v else v)).map
        (fun u => (normalizeRelative (u.pathname ++ u.search)).value) =
      some (pathOfUrl P v h).value := by
  unfold pathOfUrl at hok ⊢
  split at hok
  · cases hok
  · next u hparse =>
    rw [hparse]
    split_ifs at hok ⊢
    rfl

theorem normalizePath_hostname {P : Primitives} {input h h' : JsString} {required : Bool}
    (hok : (normalizePath P input h required).error = none)
    (hok' : (normalizePath P input h' required).error = none) :
    (normalizePath P input h required).value = (normalizePath P input h' required).value := by
  unfold normalizePath at hok hok' ⊢
  by_cases hempty : strip input = []
  · rw [if_pos hempty, if_pos hempty]
  · rw [if_neg hempty] at hok hok' ⊢
    rw [if_neg hempty]
    by_cases hfull : isFullUrl (strip input) = true
    · rw [if_pos hfull] at hok hok' ⊢
      rw [if_pos hfull]
      exact Option.some.inj ((pathOfUrl_value hok).symm.trans (pathOfUrl_value hok'))
    · rw [if_neg hfull, if_neg hfull]

/-- A value that two hostnames allow is the same under both. -/
theorem valueOf_hostname {P : Primitives} {h h' : JsString} {f : Field} {v : Json}
    (hok : errorsOf P h f v = []) (hok' : errorsOf P h' f v = []) :
    valueOf P h f v = valueOf P h' f v := by
  cases f with
  | redirectPaths =>
    obtain ⟨items, rfl, -, hall⟩ := redirectPaths_cases hok
    obtain ⟨items', heq, -, hall'⟩ := redirectPaths_cases hok'
    cases heq
    exact List.map_congr_left fun item hitem =>
      normalizePath_hostname (hall item hitem) (hall' item hitem)
  | eventsPath =>
    have hsame := normalizePath_hostname (normError_eq_nil hok) (normError_eq_nil hok')
    simp only [valueOf, hsame]
  | jwksUri => cases v <;> rfl
  | _ => rfl

end Forms

section Values

variable {P : Primitives}

theorem EditCall.SetsTo.sets {call : EditCall} {f : Field} {value : f.Value}
    (h : call.SetsTo P f value) : call.sets f = true := by
  cases call with
  | patch body =>
    obtain ⟨v, hostname, hfield, -, -⟩ := h
    rw [EditCall.sets, Body.sets, hfield]
    rfl
  | siteName name =>
    cases f with
    | name => rfl
    | _ => exact h.elim

/-- A field a PATCH sets has the value it sets it to in the form it validates. -/
theorem asked_of_set {body : Body} {row : ClientColumns} {f : Field} {value : f.Value}
    (haccepts : Accepts P body row) (h : (EditCall.patch body).SetsTo P f value) :
    (asked P body row).get f = value := by
  obtain ⟨v, hostname, hfield, herrors, rfl⟩ := h
  have hmerge : merge P row body f = v := by rw [merge, hfield, Option.getD_some]
  have hallowed := accepts_errors haccepts f
  rw [hmerge] at hallowed
  rw [asked_get, hmerge, valueOf_hostname hallowed herrors]

/-- Any other field has the value the row is shown with. -/
theorem asked_of_unset {body : Body} (row : ClientColumns) {f : Field} (h : body.sets f = false) :
    (asked P body row).get f = valueOf P (hostnameOf P body row) f (decomposeRow P row f) := by
  have hfield : body.field f = none := Option.isSome_eq_false_iff.mp h |> Option.isNone_iff_eq_none.mp
  rw [asked_get, merge, hfield, Option.getD_none]

/-- The fields that are shown as texts taken from the row and validated as such. -/
def TEXTS : List Field := [.name, .hostname, .redirectPaths, .eventsPath]

theorem scopeTexts_map {scopes : List JsString} (h : ∀ s ∈ scopes, s ∈ SCOPES) :
    scopeTexts (.arr (scopes.map .str)) = some scopes := by
  induction scopes with
  | nil => rfl
  | cons s rest ih =>
    have hs : s ∈ SCOPES := h s List.mem_cons_self
    have hrest := ih fun t ht => h t (List.mem_cons_of_mem _ ht)
    simp only [scopeTexts, List.map_cons, List.mapM_cons, if_pos hs, Option.pure_def,
      Option.bind_eq_bind, Option.bind_some] at hrest ⊢
    rw [hrest]
    rfl

theorem scopeTexts_mem {v : Json} {scopes : List JsString} (h : scopeTexts v = some scopes) :
    ∀ s ∈ scopes, s ∈ SCOPES := by
  cases v with
  | arr items =>
    induction items generalizing scopes with
    | nil =>
      cases h
      exact fun s hs => by cases hs
    | cons item items ih =>
      simp only [scopeTexts, List.mapM_cons, Option.pure_def, Option.bind_eq_bind,
        Option.bind_eq_some_iff, Option.some.injEq] at h
      obtain ⟨text, htext, rest, hrest, rfl⟩ := h
      intro s hs
      rcases List.mem_cons.mp hs with rfl | hs
      · cases item with
        | str t =>
          rw [Option.ite_none_right_eq_some, Option.some.injEq] at htext
          exact htext.2 ▸ htext.1
        | _ => cases htext
      · exact ih hrest s hs
  | _ => cases h

theorem notNull_getD (v : Json) : notNull ((notNull v).getD .null) = notNull v := by
  by_cases hnull : v = .null
  · rw [hnull]
    rfl
  · have hv : notNull v = some v := if_neg hnull
    rw [hv, Option.getD_some, hv]

/-- The other fields are read back as they were set. -/
theorem reread_of_set {call : EditCall} {hostname : JsString} {row : ClientColumns} {f : Field}
    {value : f.Value} (hf : f ∉ TEXTS) (hset : call.SetsTo P f value) (hrow : row.get f = value) :
    valueOf P hostname f (decomposeRow P row f) = value := by
  subst hrow
  cases call with
  | siteName name =>
    cases f with
    | name => exact (hf (by decide)).elim
    | _ => exact hset.elim
  | patch body =>
    obtain ⟨v, h, -, herrors, hvalue⟩ := hset
    cases f with
    | name => exact (hf (by decide)).elim
    | hostname => exact (hf (by decide)).elim
    | redirectPaths => exact (hf (by decide)).elim
    | eventsPath => exact (hf (by decide)).elim
    | jwksUri =>
      rw [decomposeRow, ClientColumns.get]
      cases row.jwksUri <;> rfl
    | jwks =>
      rw [ClientColumns.get] at hvalue ⊢
      rw [decomposeRow, valueOf, ← hvalue, valueOf, notNull_getD]
    | allowedScopes =>
      rw [ClientColumns.get] at hvalue ⊢
      have hmem : ∀ s ∈ row.allowedScopes, s ∈ SCOPES := by
        rw [← hvalue, valueOf]
        cases hscopes : scopeTexts v with
        | none => exact fun s hs => hs
        | some scopes => exact scopeTexts_mem hscopes
      rw [decomposeRow, valueOf, scopeTexts_map hmem, Option.getD_some]
    | isFirstParty =>
      rw [ClientColumns.get, decomposeRow, valueOf]
      cases row.isFirstParty <;> rfl
    | entryPolicy =>
      rw [ClientColumns.get, decomposeRow, valueOf]
      cases row.entryPolicy <;> rfl

end Values

section Protocol

/-- Where an edit stands: a PATCH between its read and its write has the row it read. -/
inductive EditPhase
  | waiting
  | read (row : ClientColumns)
  | fetched (row : ClientColumns) (keys : Json)
  | written
  | refused
  deriving DecidableEq

/-- The row behind an edit that has read and not written. -/
def EditPhase.row? : EditPhase → Option ClientColumns
  | .read row => some row
  | .fetched row _ => some row
  | _ => none

/-- The form a PATCH writes once it has fetched keys. -/
def fetchedForm (P : Primitives) (body : Body) (row : ClientColumns) (keys : Json) : ClientInput :=
  { asked P body row with jwks := some keys }

def editOk (P : Primitives) (clientId : JsString) : EditCall → EditPhase → Command → Prop
  | .patch _, .waiting, .selectClient id => id = clientId
  | .patch body, .read row, .verifyJwksUri url =>
    refetches row body (asked P body row) = some url
  | .patch body, .read row, .updateClient id value => id = clientId ∧ value = asked P body row
  | .patch body, .fetched row keys, .updateClient id value =>
    id = clientId ∧ value = fetchedForm P body row keys
  | .siteName name, .waiting, .syncName id siteName => id = clientId ∧ siteName = name
  | _, _, _ => False

instance (P : Primitives) (body : Body) (row : ClientColumns) : Decidable (Accepts P body row) :=
  inferInstanceAs (Decidable (_ = _))

def editNext (P : Primitives) : EditCall → EditPhase → (c : Command) → Option c.Reply → EditPhase
  | .patch body, .waiting, .selectClient _, some (some row) =>
    if Accepts P body row then .read row else .refused
  | _, .read row, .verifyJwksUri _, some (.ok keys) => .fetched row keys
  | _, _, .updateClient _ _, some _ => .written
  | _, _, .syncName _ _, some _ => .written
  | _, _, _, _ => .refused

def editProtocol (P : Primitives) (clientId : JsString) (call : EditCall) :
    Protocol Command Command.Reply EditPhase where
  next := editNext P call
  ok := editOk P clientId call

/-- A request that has succeeded has written. -/
def editPost (g : EditPhase) (response : Option Response) : Prop :=
  response = some .noContent → g = .written

/-- What each command says about the edit that issues it. -/
theorem editOk_cases {P : Primitives} {clientId : JsString} {call : EditCall} {g : EditPhase}
    {c : Command} (h : editOk P clientId call g c) :
    (∃ body, call = .patch body ∧ g = .waiting ∧ c = .selectClient clientId) ∨
    (∃ body row url, call = .patch body ∧ g = .read row ∧ c = .verifyJwksUri url) ∨
    (∃ body row, call = .patch body ∧ g = .read row ∧
      c = .updateClient clientId (asked P body row)) ∨
    (∃ body row keys, call = .patch body ∧ g = .fetched row keys ∧
      c = .updateClient clientId (fetchedForm P body row keys)) ∨
    (∃ name, call = .siteName name ∧ g = .waiting ∧ c = .syncName clientId name) := by
  cases call with
  | patch body =>
    cases g <;> cases c <;> first | exact h.elim | skip
    case waiting.selectClient id => exact .inl ⟨body, rfl, rfl, congrArg _ h⟩
    case read.verifyJwksUri row url => exact .inr (.inl ⟨body, row, url, rfl, rfl, rfl⟩)
    case read.updateClient row id value =>
      obtain ⟨rfl, rfl⟩ := h
      exact .inr (.inr (.inl ⟨body, row, rfl, rfl, rfl⟩))
    case fetched.updateClient row keys id value =>
      obtain ⟨rfl, rfl⟩ := h
      exact .inr (.inr (.inr (.inl ⟨body, row, keys, rfl, rfl, rfl⟩)))
  | siteName name =>
    cases g <;> cases c <;> first | exact h.elim | skip
    case waiting.syncName id siteName =>
      obtain ⟨rfl, rfl⟩ := h
      exact .inr (.inr (.inr (.inr ⟨_, rfl, rfl, rfl⟩)))

theorem editPost_of {g : EditPhase} {response : Option Response}
    (h : response ≠ some .noContent) : editPost g response := fun heq => (h heq).elim

theorem update_obeys {P : Primitives} {clientId : JsString} {call : EditCall} {g : EditPhase}
    {value : ClientInput} (hok : editOk P clientId call g (.updateClient clientId value)) :
    (editProtocol P clientId call).Obeys editPost g (updateClient clientId value) := by
  rw [updateClient, await, Protocol.obeys_await_bind]
  refine ⟨hok, editPost_of (by decide), fun r _ => ?_⟩
  cases call <;> cases g <;> rfl

/-- Keys that could not be fetched refuse the request. -/
theorem fetch_obeys {P : Primitives} {clientId url : JsString} {body : Body} {row : ClientColumns}
    (hurl : refetches row body (asked P body row) = some url) :
    (editProtocol P clientId (.patch body)).Obeys editPost (.read row)
      (fetchAndUpdate clientId url (asked P body row)) := by
  rw [fetchAndUpdate, await, Protocol.obeys_await_bind]
  refine ⟨hurl, editPost_of (by decide), fun fetched => ?_⟩
  cases fetched with
  | error text => exact editPost_of (by simp)
  | ok keys => exact update_obeys ⟨rfl, rfl⟩

theorem patch_obeys (P : Primitives) (clientId : JsString) (body : Body) :
    (editProtocol P clientId (.patch body)).Obeys editPost .waiting (patchClient P clientId body) := by
  rw [patchClient, await, Protocol.obeys_await_bind]
  refine ⟨rfl, editPost_of (by decide), fun row => ?_⟩
  cases row with
  | none => exact editPost_of (by simp)
  | some row =>
    have hnext : (editProtocol P clientId (.patch body)).next .waiting (.selectClient clientId)
        (some (some row)) = if Accepts P body row then .read row else .refused := rfl
    rw [hnext]
    by_cases haccepts : Accepts P body row
    · have herrors : ¬ (validateClientInput P (merge P row body)).1 ≠ [] := not_not.mpr haccepts
      simp only [if_pos haccepts, if_neg herrors]
      rw [writeClient]
      split
      · exact update_obeys ⟨rfl, rfl⟩
      · next url hurl => exact fetch_obeys hurl
    · have herrors : (validateClientInput P (merge P row body)).1 ≠ [] := haccepts
      simp only [if_pos herrors]
      exact editPost_of (by simp)

theorem request_obeys (P : Primitives) (clientId : JsString) (call : EditCall) :
    (editProtocol P clientId call).Obeys editPost .waiting (call.request P clientId) := by
  cases call with
  | patch body => exact patch_obeys P clientId body
  | siteName name =>
    rw [EditCall.request, applySiteName, await, Protocol.obeys_await_bind]
    exact ⟨⟨rfl, rfl⟩, editPost_of (by decide), fun r _ => rfl⟩

end Protocol

section Edits

variable {ι : Type} [DecidableEq ι]

/-- The PATCH leaves a field of the row as it is, or sets it. -/
def Keeps (P : Primitives) (call : EditCall) (row : ClientColumns) (f : Field) : Prop :=
  match call with
  | .patch body => body.sets f = true ∨
      valueOf P (hostnameOf P body row) f (decomposeRow P row f) = row.get f
  | .siteName _ => True

abbrev editPhases (P : Primitives) (clientId : JsString) (calls : ι → EditCall)
    (log : List (Entry ι Command Command.Reply)) : ι → EditPhase :=
  phases (fun i => editProtocol P clientId (calls i)) (fun _ => .waiting) log

/-- An edit begins when no other one has read the row and is still to write it. What the
earlier ones have set comes back from the row as it was set, and keys are fetched only
where no edit has set keys. -/
def undisturbed (P : Primitives) (clientId : JsString) (calls : ι → EditCall) :
    Condition ι Command Command.Reply Clients Unit where
  act s log i c :=
    let phase := editPhases P clientId calls log
    match c with
    | .selectClient _ => (∀ j, j ≠ i → (phase j).row? = none) ∧
        ∀ j, phase j = .written → ∀ f ∈ TEXTS, (calls j).sets f = true →
          ∀ row ∈ s clientId, Keeps P (calls i) row f
    | .syncName _ _ => ∀ j, j ≠ i → (phase j).row? = none
    | .verifyJwksUri _ => (calls i).sets .jwks = false ∧
        ∀ j, phase j = .written → (calls j).sets .jwks = false
    | .updateClient _ _ => True
  drift _ _ _ := True

variable {P : Primitives} {clientId : JsString} {calls : ι → EditCall}

/-- A PATCH that has read the row and is to write it: nothing has changed since, and what
others have set is in its form. -/
structure Reader (P : Primitives) (clientId : JsString) (calls : ι → EditCall) (s : Clients)
    (phase : ι → EditPhase) (i : ι) (row : ClientColumns) : Prop where
  unchanged : s clientId = some row
  alone : ∀ j, j ≠ i → (phase j).row? = none
  accepted : ∀ body, calls i = .patch body → Accepts P body row
  carries : ∀ body, calls i = .patch body → ∀ j, phase j = .written → j ≠ i → ∀ f value,
    (calls j).SetsTo P f value → (asked P body row).get f = value

structure EditState (P : Primitives) (clientId : JsString) (calls : ι → EditCall) (s : Clients)
    (phase : ι → EditPhase) : Prop where
  registered : ∃ row, s clientId = some row
  reader : ∀ i row, (phase i).row? = some row → Reader P clientId calls s phase i row
  keys : ∀ i row keys, phase i = .fetched row keys → (calls i).sets .jwks = false ∧
    ∀ j, phase j = .written → (calls j).sets .jwks = false
  has : ∀ i, phase i = .written → ∀ f value, (calls i).SetsTo P f value →
    ∃ row, s clientId = some row ∧ row.Has f value

theorem update_written {phase : ι → EditPhase} {i j : ι} {g : EditPhase} (hg : g ≠ .written)
    (h : Function.update phase i g j = .written) : phase j = .written := by
  by_cases hij : j = i
  · rw [hij, Function.update_self] at h
    exact (hg h).elim
  · rwa [Function.update_of_ne hij] at h

/-- A step that leaves the row alone. -/
theorem EditState.move {s : Clients} {phase : ι → EditPhase} {i : ι} {g : EditPhase}
    (h : EditState P clientId calls s phase) (hg : g ≠ .written)
    (hreader : ∀ row, g.row? = some row → Reader P clientId calls s phase i row)
    (hkeys : ∀ row keys, g = .fetched row keys → (calls i).sets .jwks = false ∧
      ∀ j, phase j = .written → (calls j).sets .jwks = false) :
    EditState P clientId calls s (Function.update phase i g) where
  registered := h.registered
  reader := by
    intro j row hrow
    by_cases hij : j = i
    · subst hij
      rw [Function.update_self] at hrow
      have hnew := hreader row hrow
      refine ⟨hnew.unchanged, fun k hk => ?_, hnew.accepted, fun body hbody k hk => ?_⟩
      · rw [Function.update_of_ne hk]
        exact hnew.alone k hk
      · exact hnew.carries body hbody k (update_written hg hk)
    · rw [Function.update_of_ne hij] at hrow
      have hold := h.reader j row hrow
      refine ⟨hold.unchanged, fun k hk => ?_, hold.accepted, fun body hbody k hk => ?_⟩
      · by_cases hki : k = i
        · -- two readers at a time are excluded
          rw [hki, Function.update_self]
          cases hnone : g.row? with
          | none => rfl
          | some row' =>
            rw [(hreader row' hnone).alone j hij] at hrow
            cases hrow
        · rw [Function.update_of_ne hki]
          exact hold.alone k hk
      · exact hold.carries body hbody k (update_written hg hk)
  keys := by
    intro j row keys hfetched
    by_cases hij : j = i
    · subst hij
      rw [Function.update_self] at hfetched
      obtain ⟨hown, hothers⟩ := hkeys row keys hfetched
      exact ⟨hown, fun k hk => hothers k (update_written hg hk)⟩
    · rw [Function.update_of_ne hij] at hfetched
      obtain ⟨hown, hothers⟩ := h.keys j row keys hfetched
      exact ⟨hown, fun k hk => hothers k (update_written hg hk)⟩
  has j hj := h.has j (update_written hg hj)

/-- A write after which the row has what its edit and the earlier ones have set. -/
theorem EditState.of_write {s : Clients} {phase : ι → EditPhase} {i : ι} {row : ClientColumns}
    (hquiet : ∀ j, j ≠ i → (phase j).row? = none)
    (hhas : ∀ j, j = i ∨ phase j = .written → ∀ f value, (calls j).SetsTo P f value →
      row.Has f value) :
    EditState P clientId calls (Function.update s clientId (some row))
      (Function.update phase i .written) where
  registered := ⟨row, Function.update_self ..⟩
  reader := by
    intro j row' hrow
    by_cases hij : j = i
    · rw [hij, Function.update_self] at hrow
      cases hrow
    · rw [Function.update_of_ne hij, hquiet j hij] at hrow
      cases hrow
  keys := by
    intro j row' keys hfetched
    by_cases hij : j = i
    · rw [hij, Function.update_self] at hfetched
      cases hfetched
    · rw [Function.update_of_ne hij] at hfetched
      have hnone := hquiet j hij
      rw [hfetched] at hnone
      cases hnone
  has := by
    intro j hj f value hset
    refine ⟨row, Function.update_self .., hhas j ?_ f value hset⟩
    by_cases hij : j = i
    · exact .inl hij
    · rw [Function.update_of_ne hij] at hj
      exact .inr hj

omit [DecidableEq ι] in
/-- What an earlier edit has set is in the form of a PATCH that does not set it. -/
theorem carried {s : Clients} {phase : ι → EditPhase} (h : EditState P clientId calls s phase)
    {row : ClientColumns} (hrow : s clientId = some row) {i j : ι} {body : Body}
    (hbody : calls i = .patch body) (hj : phase j = .written) {f : Field} {value : f.Value}
    (hset : (calls j).SetsTo P f value) (hunset : body.sets f = false)
    (hkeeps : ∀ f ∈ TEXTS, (calls j).sets f = true → Keeps P (calls i) row f) :
    (asked P body row).get f = value := by
  obtain ⟨row', hrow', hhas⟩ := h.has j hj f value hset
  rw [hrow, Option.some.injEq] at hrow'
  subst hrow'
  rw [asked_of_unset row hunset]
  by_cases hf : f ∈ TEXTS
  · have hkeep := hkeeps f hf hset.sets
    rw [hbody] at hkeep
    rcases hkeep with hsets | hsame
    · rw [hunset] at hsets
      cases hsets
    · rw [hsame, hhas.1]
  · exact reread_of_set hf hset hhas.1

theorem form_has {v : ClientInput} (hv : WellFormed v) {f : Field} {value : f.Value}
    (h : v.get f = value) : v.columns.Has f value := h ▸ columns_has hv f

theorem fetched_wellFormed {body : Body} {row : ClientColumns} {keys : Json}
    (h : Accepts P body row) : WellFormed (fetchedForm P body row keys) :=
  ⟨(accepts_wellFormed h).hostname, (accepts_wellFormed h).redirects,
    (accepts_wellFormed h).redirectPaths, (accepts_wellFormed h).eventsPath⟩

/-- The keys replace nothing but keys. -/
theorem fetched_get {body : Body} {row : ClientColumns} {keys : Json} {f : Field}
    (hf : f ≠ .jwks) : (fetchedForm P body row keys).get f = (asked P body row).get f := by
  cases f with
  | jwks => exact (hf rfl).elim
  | _ => rfl

theorem name_has {row : ClientColumns} {name : JsString} {f : Field} {value : f.Value}
    (hf : f ≠ .name) (h : row.Has f value) : { row with name := name }.Has f value := by
  cases f with
  | name => exact (hf rfl).elim
  | _ => exact h

/-- Each field is set by one edit only. -/
def Disjoint (calls : ι → EditCall) : Prop :=
  ∀ i j, i ≠ j → ∀ f, (calls i).sets f = true → (calls j).sets f = false

/-- What a PATCH writes has all that it and the earlier edits have set. -/
theorem written_has {s : Clients} {phase : ι → EditPhase} {i : ι} {row : ClientColumns}
    (hreader : Reader P clientId calls s phase i row) {body : Body} (hbody : calls i = .patch body)
    {v : ClientInput} (hv : WellFormed v)
    (hget : ∀ j, j = i ∨ phase j = .written → ∀ f, (calls j).sets f = true →
      v.get f = (asked P body row).get f) (j : ι) (hj : j = i ∨ phase j = .written) (f : Field)
    (value : f.Value) (hset : (calls j).SetsTo P f value) : v.columns.Has f value := by
  apply form_has hv
  rw [hget j hj f hset.sets]
  by_cases hij : j = i
  · subst hij
    rw [hbody] at hset
    exact asked_of_set (hreader.accepted body hbody) hset
  · exact hreader.carries body hbody j (hj.resolve_left hij) hij f value hset

theorem editPhases_append (log : List (Entry ι Command Command.Reply)) (i : ι) (c : Command)
    (r : Option c.Reply) : editPhases P clientId calls (log ++ [⟨i, c, r⟩]) =
      Function.update (editPhases P clientId calls log) i
        (editNext P (calls i) (editPhases P clientId calls log i) c r) := phases_append log i c r

theorem update_some {s : Clients} {clientId : JsString} {row : ClientColumns}
    (hrow : s clientId = some row) (f : ClientColumns → ClientColumns) :
    s.update clientId f = Function.update s clientId (some (f row)) := by
  rw [Clients.update, hrow]
  rfl

/-- The step that reads the row. -/
theorem select_step (hdisjoint : Disjoint calls) {s : Clients} {phase : ι → EditPhase} {i : ι}
    {body : Body} {row : ClientColumns} (h : EditState P clientId calls s phase)
    (hbody : calls i = .patch body) (hrow : s clientId = some row)
    (hquiet : ∀ j, j ≠ i → (phase j).row? = none)
    (hkeeps : ∀ j, phase j = .written → ∀ f ∈ TEXTS, (calls j).sets f = true →
      ∀ row ∈ s clientId, Keeps P (calls i) row f) :
    EditState P clientId calls s
      (Function.update phase i (if Accepts P body row then .read row else .refused)) := by
  by_cases haccepts : Accepts P body row
  · rw [if_pos haccepts]
    apply h.move (by simp)
    · intro row' hrow'
      obtain rfl : row = row' := Option.some.inj hrow'
      refine ⟨hrow, hquiet, fun body' hbody' => ?_, fun body' hbody' j hj hij f value hset => ?_⟩
      · rw [hbody] at hbody'
        cases hbody'
        exact haccepts
      · have hunset : (calls i).sets f = false := hdisjoint j i hij f hset.sets
        rw [hbody'] at hunset
        exact carried h hrow hbody' hj hset hunset fun f hf hsets =>
          hkeeps j hj f hf hsets row hrow
    · intro _ _ heq
      cases heq
  · rw [if_neg haccepts]
    exact h.move (by simp) (fun _ hrow' => by cases hrow') (fun _ _ heq => by cases heq)

/-- The step that fetches keys. -/
theorem fetch_step {s : Clients} {phase : ι → EditPhase} {i : ι} {row : ClientColumns}
    (h : EditState P clientId calls s phase) (hphase : phase i = .read row)
    (hquiet : (calls i).sets .jwks = false ∧ ∀ j, phase j = .written → (calls j).sets .jwks = false)
    (fetched : Fetched) :
    EditState P clientId calls s (Function.update phase i
      (match fetched with | .ok keys => .fetched row keys | .error _ => .refused)) := by
  have hreader := h.reader i row (by rw [hphase, EditPhase.row?])
  cases fetched with
  | error text => exact h.move (by simp) (fun _ hrow => by cases hrow) (fun _ _ heq => by cases heq)
  | ok keys =>
    apply h.move (by simp)
    · intro row' hrow
      obtain rfl : row = row' := Option.some.inj hrow
      exact hreader
    · exact fun _ _ _ => hquiet

theorem edit_step (hdisjoint : Disjoint calls) {s : Clients}
    {log : List (Entry ι Command Command.Reply)} {i : ι} {c : Command} (w : Fetched)
    (h : EditState P clientId calls s (editPhases P clientId calls log))
    (hok : editOk P clientId (calls i) (editPhases P clientId calls log i) c)
    (hquiet : (undisturbed P clientId calls).act s log i c) :
    EditState P clientId calls (perform w c s).2
      (editPhases P clientId calls (log ++ [⟨i, c, (perform w c s).1⟩])) := by
  rw [editPhases_append]
  rcases editOk_cases hok with ⟨body, hbody, hphase, rfl⟩ | ⟨body, row, url, hbody, hphase, rfl⟩ |
    ⟨body, row, hbody, hphase, rfl⟩ | ⟨body, row, keys, hbody, hphase, rfl⟩ |
    ⟨name, hname, hphase, rfl⟩
  · obtain ⟨row, hrow⟩ := h.registered
    have hnext : editNext P (calls i) (editPhases P clientId calls log i) (.selectClient clientId)
        (perform w (.selectClient clientId) s).1 = if Accepts P body row then .read row else .refused := by
      rw [hbody, hphase, perform, hrow]
      rfl
    rw [hnext]
    exact select_step hdisjoint h hbody hrow hquiet.1 hquiet.2
  · have hnext : editNext P (calls i) (editPhases P clientId calls log i) (.verifyJwksUri url)
        (perform w (.verifyJwksUri url) s).1 =
          match w with | .ok keys => .fetched row keys | .error _ => .refused := by
      rw [hbody, hphase, perform]
      cases w <;> rfl
    rw [hnext]
    exact fetch_step h hphase hquiet w
  · have hreader := h.reader i row (by rw [hphase, EditPhase.row?])
    have hnext : editNext P (calls i) (editPhases P clientId calls log i)
        (.updateClient clientId (asked P body row))
        (perform w (.updateClient clientId (asked P body row)) s).1 = .written := by
      rw [hbody, hphase]
      rfl
    rw [hnext, perform, update_some hreader.unchanged]
    exact EditState.of_write hreader.alone (written_has hreader hbody
      (accepts_wellFormed (hreader.accepted body hbody)) fun _ _ _ _ => rfl)
  · have hreader := h.reader i row (by rw [hphase, EditPhase.row?])
    have hkeys := h.keys i row keys hphase
    have hnext : editNext P (calls i) (editPhases P clientId calls log i)
        (.updateClient clientId (fetchedForm P body row keys))
        (perform w (.updateClient clientId (fetchedForm P body row keys)) s).1 = .written := by
      rw [hbody, hphase]
      rfl
    rw [hnext, perform, update_some hreader.unchanged]
    refine EditState.of_write hreader.alone (written_has hreader hbody
      (fetched_wellFormed (hreader.accepted body hbody)) fun j hj f hsets => fetched_get ?_)
    rintro rfl
    rcases hj with rfl | hj
    · rw [hkeys.1] at hsets
      cases hsets
    · rw [hkeys.2 j hj] at hsets
      cases hsets
  · obtain ⟨row, hrow⟩ := h.registered
    have hnext : editNext P (calls i) (editPhases P clientId calls log i) (.syncName clientId name)
        (perform w (.syncName clientId name) s).1 = .written := by
      rw [hname, hphase]
      rfl
    rw [hnext, perform, update_some hrow]
    refine EditState.of_write hquiet fun j hj f value hset => ?_
    by_cases hij : j = i
    · subst hij
      rw [hname] at hset
      cases f with
      | name => exact ⟨hset, fun hf => by cases hf⟩
      | _ => exact hset.elim
    · obtain ⟨row', hrow', hhas⟩ := h.has j (hj.resolve_left hij) f value hset
      rw [hrow, Option.some.injEq] at hrow'
      subst hrow'
      refine name_has ?_ hhas
      rintro rfl
      have hunset := hdisjoint j i hij .name hset.sets
      rw [hname] at hunset
      cases hunset

/-- Edits of one registered client. -/
def editRuns (P : Primitives) (clientId : JsString) (calls : ι → EditCall) :
    System (Config ι Command Command.Reply Clients Response) (Move ι Fetched Unit) :=
  clientServer.system (fun s => (s clientId).isSome = true) fun i => (calls i).request P clientId

/-- In a run whose steps meet the condition, all that the edits that have succeeded have set
is in the row. -/
theorem edits_kept (P : Primitives) (clientId : JsString) (calls : ι → EditCall)
    (hdisjoint : Disjoint calls)
    {cfg cfg' : Config ι Command Command.Reply Clients Response}
    {trace : List (Event (Config ι Command Command.Reply Clients Response) (Move ι Fetched Unit))}
    (hinit : (editRuns P clientId calls).initial cfg)
    (hrun : Exec (editRuns P clientId calls) cfg trace cfg')
    (hquiet : ∀ e ∈ trace, (undisturbed P clientId calls).Meets e.before e.label) :
    ∀ i, cfg'.requests i = .done .noContent → ∀ f value, (calls i).SetsTo P f value →
      ∃ row, cfg'.store clientId = some row ∧ row.Has f value := by
  obtain ⟨hregistered, hlog, hprograms⟩ := hinit
  have hinvariant := Server.run_meeting (P := fun i => editProtocol P clientId (calls i))
    (I := fun s log => EditState P clientId calls s (editPhases P clientId calls log))
    (fun s log i c w h hok hmeets => edit_step hdisjoint w h hok hmeets)
    (fun s s' log e h _ hs => by cases hs; exact h) hrun hquiet
    (fun i => by rw [hlog, hprograms]; exact request_obeys P clientId (calls i)) ?_
  · intro i hdone f value hset
    have hobeys := hinvariant.2 i
    rw [hdone] at hobeys
    exact hinvariant.1.has i (hobeys rfl) f value hset
  · rw [hlog]
    exact ⟨Option.isSome_iff_exists.mp hregistered, fun _ _ hrow => (by cases hrow),
      fun _ _ _ hrow => (by cases hrow), fun _ hrow => by cases hrow⟩

end Edits

section Runs

instance : (f : Field) → DecidableEq f.Value
  | .name => inferInstanceAs (DecidableEq JsString)
  | .hostname => inferInstanceAs (DecidableEq JsString)
  | .redirectPaths => inferInstanceAs (DecidableEq (List JsString))
  | .eventsPath => inferInstanceAs (DecidableEq (Option JsString))
  | .jwksUri => inferInstanceAs (DecidableEq (Option JsString))
  | .jwks => inferInstanceAs (DecidableEq (Option Json))
  | .allowedScopes => inferInstanceAs (DecidableEq (List JsString))
  | .isFirstParty => inferInstanceAs (DecidableEq Bool)
  | .entryPolicy => inferInstanceAs (DecidableEq EntryPolicy)

instance (P : Primitives) (call : EditCall) (row : ClientColumns) (f : Field) :
    Decidable (Keeps P call row f) :=
  match call with
  | .patch _ => inferInstanceAs (Decidable (_ ∨ _))
  | .siteName _ => inferInstanceAs (Decidable True)

instance (P : Primitives) (clientId : JsString) (calls : Bool → EditCall) (s : Clients)
    (log : List (Entry Bool Command Command.Reply)) (i : Bool) (c : Command) :
    Decidable ((undisturbed P clientId calls).act s log i c) :=
  match c with
  | .selectClient _ => inferInstanceAs (Decidable (_ ∧ ∀ _, _ → ∀ f ∈ TEXTS, _ → ∀ row ∈ s clientId, _))
  | .verifyJwksUri _ => inferInstanceAs (Decidable (_ ∧ _))
  | .updateClient _ _ => inferInstanceAs (Decidable True)
  | .syncName _ _ => inferInstanceAs (Decidable (∀ _, _))

instance (P : Primitives) (clientId : JsString) (calls : Bool → EditCall) (s : Clients)
    (log : List (Entry Bool Command Command.Reply)) (e : Unit) :
    Decidable ((undisturbed P clientId calls).drift s log e) := inferInstanceAs (Decidable True)

/-- URLs of lower-case hosts without a port or a query. -/
def plainUrls : Primitives where
  parseUrl url := if (js "https://").isPrefixOf url then
    some ⟨js "https:", hostOf url, [], pathOf url, []⟩ else none
  toLowerCase s := s.map fun u => if 0x41 ≤ u ∧ u ≤ 0x5a then u + 0x20 else u

def portalRow : ClientColumns where
  name := js "Portal"
  isFirstParty := false
  entryPolicy := .optIn
  redirectUris := [js "https://portal.example.com/callback"]
  eventsUri := none
  jwksUri := none
  jwks := some (.obj [(js "keys", .arr [.obj []])])
  allowedScopes := [js "openid"]

def portal : JsString := js "portal"

def portalOnly : Clients := fun clientId => if clientId = portal then some portalRow else none

def setsName : EditCall := .patch [(js "name", .str (js "Console"))]

def setsPolicy : EditCall := .patch [(js "entry_policy", .str (js "baseline"))]

/-- Two edits, the first of which is the one of `false`. -/
def pair (first second : EditCall) (i : Bool) : EditCall := bif i then second else first

def editStart (calls : Bool → EditCall) : Config Bool Command Command.Reply Clients Response :=
  ⟨portalOnly, [], fun i => (calls i).request plainUrls portal⟩

def editSteps (schedule : List Bool) : List (Move Bool Fetched Unit) :=
  schedule.map fun i => .act i (.error [])

theorem disjoint_pair {first second : EditCall}
    (h : ∀ f, first.sets f = true → second.sets f = false) : Disjoint (pair first second) := by
  intro i j hij f hf
  cases i <;> cases j
  · exact (hij rfl).elim
  · exact h f hf
  · show first.sets f = false
    cases hfirst : first.sets f with
    | false => rfl
    | true => exact absurd hf (ne_true_of_eq_false (h f hfirst))
  · exact (hij rfl).elim

theorem portal_initial (calls : Bool → EditCall) :
    (editRuns plainUrls portal calls).initial (editStart calls) := ⟨rfl, rfl, rfl⟩

/-- The name is set before the row is read for the entry policy. -/
theorem edits_oneAfterAnother :
    ∃ start trace cfg row, (editRuns plainUrls portal (pair setsName setsPolicy)).initial start ∧
      Exec (editRuns plainUrls portal (pair setsName setsPolicy)) start trace cfg ∧
      cfg.store portal = some row ∧ row.Has .name (js "Console") ∧ row.Has .entryPolicy .baseline := by
  have hrun : (((editSteps [false, false, true, true]).foldlM (clientServer.stepMeeting
      (undisturbed plainUrls portal (pair setsName setsPolicy)))
        (editStart (pair setsName setsPolicy))).any fun cfg =>
      decide (∀ i, (cfg.requests i).result? = some .noContent)) = true := by
    decide +kernel
  obtain ⟨cfg, hcfg, hdone⟩ := (Option.any_eq_true ..).mp hrun
  obtain ⟨trace, hexec, hquiet⟩ := Server.exec_of_moves_meeting hcfg
    (fun s => (s portal).isSome = true)
    fun i => (pair setsName setsPolicy i).request plainUrls portal
  have hdisjoint : Disjoint (pair setsName setsPolicy) :=
    disjoint_pair (by intro f; cases f <;> decide +kernel)
  have hkept := edits_kept plainUrls portal (pair setsName setsPolicy) hdisjoint
    (portal_initial _) hexec hquiet
  obtain ⟨row, hrow, hname⟩ := hkept false (Prog.eq_done (of_decide_eq_true hdone false)) .name
    (js "Console") ⟨.str (js "Console"), [], by decide +kernel⟩
  obtain ⟨row', hrow', hpolicy⟩ := hkept true (Prog.eq_done (of_decide_eq_true hdone true))
    .entryPolicy .baseline ⟨.str (js "baseline"), [], by decide +kernel⟩
  rw [hrow, Option.some.injEq] at hrow'
  exact ⟨_, trace, cfg, row, portal_initial _, hexec, hrow, hname, hrow' ▸ hpolicy⟩

/-- Both edits succeed, and a value that one of them has set is not in the row. -/
def Loses (calls : Bool → EditCall) : Prop :=
  ∃ start trace cfg, (editRuns plainUrls portal calls).initial start ∧
    Exec (editRuns plainUrls portal calls) start trace cfg ∧
    (∀ i, cfg.requests i = .done .noContent) ∧
    ∃ i f value, (calls i).SetsTo plainUrls f value ∧
      ∀ row, cfg.store portal = some row → ¬ row.Has f value

theorem loses_of_steps {calls : Bool → EditCall} (schedule : List Bool) {i : Bool} {f : Field}
    {value : f.Value} (hset : (calls i).SetsTo plainUrls f value)
    (hrun : (((editSteps schedule).foldlM clientServer.step (editStart calls)).any fun cfg =>
      decide ((∀ i, (cfg.requests i).result? = some .noContent) ∧
        ∀ row ∈ cfg.store portal, row.get f ≠ value)) = true) : Loses calls := by
  obtain ⟨cfg, hcfg, hend⟩ := (Option.any_eq_true ..).mp hrun
  obtain ⟨hdone, hlost⟩ := of_decide_eq_true hend
  obtain ⟨trace, hexec⟩ := Server.exec_of_moves hcfg (fun s => (s portal).isSome = true)
    fun i => (calls i).request plainUrls portal
  exact ⟨editStart calls, trace, cfg, portal_initial _, hexec, fun i => Prog.eq_done (hdone i), i, f,
    value, hset, fun row hrow hhas => hlost row hrow hhas.1⟩

/-- Two PATCHes that read the row before either writes it, and a PATCH that reads it before a
sync writes the name. -/
theorem edit_overwritten :
    (Disjoint (pair setsName setsPolicy) ∧ Loses (pair setsName setsPolicy)) ∧
      Disjoint (pair setsPolicy (.siteName (js "Console"))) ∧
      Loses (pair setsPolicy (.siteName (js "Console"))) := by
  refine ⟨⟨disjoint_pair (by intro f; cases f <;> decide +kernel), ?_⟩,
    disjoint_pair (by intro f; cases f <;> decide +kernel), ?_⟩
  · have hset : setsName.SetsTo plainUrls .name (js "Console") :=
      ⟨.str (js "Console"), [], by decide +kernel⟩
    exact loses_of_steps [false, true, false, true] (i := false) hset (by decide +kernel)
  · have hset : (EditCall.siteName (js "Console")).SetsTo plainUrls .name (js "Console") := rfl
    exact loses_of_steps [false, true, false] (i := true) hset (by decide +kernel)

end Runs

end DreamSso.ClientForm
