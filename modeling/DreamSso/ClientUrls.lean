import DreamSso.LostEdits
import DreamSso.Library.SoloRuns
import DreamSso.Library.UrlNormalForms

/-!
The URLs of a client through an edit that sets none of them. They are composed of the
hostname and the paths of the form, taken apart when the row is shown, and composed again.
-/
namespace DreamSso.ClientForm

open Interleaving JsConversions JsStrings JsonValues

-- clientNormalize.ts

/-- `^[a-z0-9](?:[a-z0-9_-]{0,62}[a-z0-9])?$` -/
def isSlug (s : JsString) : Bool :=
  let plain u := isDigitUnit u || decide (0x61 ≤ u ∧ u ≤ 0x7a)
  (s.head?.any plain) && (s.getLast?.any plain) &&
    (s.all fun u => plain u || [0x2d, 0x5f].contains u) && decide (s.length ≤ 64)

def normalizeSlug (P : Primitives) (input : JsString) : Norm :=
  let v := P.toLowerCase (strip input)
  if v = [] then ⟨v, some (js "Required")⟩
  else if isSlug v then ⟨v, none⟩
  else ⟨v, some (js "Lowercase letters, digits, - or _ (2–64 chars, alphanumeric ends)")⟩

-- routes/admin.ts

def posted (body : Body) (f : Field) : Json := (body.field f).getD .null

/-- The row POST /admin/api/clients inserts, when it does not refuse the form. -/
def insertedRow (P : Primitives) (body : Body) (fetched : Fetched) : Option ClientColumns :=
  let validated := validateClientInput P (posted body)
  let slug := normalizeSlug P (stringOr ((Json.member? body (js "client_id")).getD .null))
  if validated.1 ≠ [] ∨ slug.error ≠ none then none
  else match validated.2.jwksUri, fetched with
    | none, _ => some validated.2.columns
    | some _, .ok keys => some { validated.2 with jwks := some keys }.columns
    | some _, .error _ => none

/-- What JavaScript shows of a URL. -/
def view (u : WebUrls.Url) : Url where
  protocol := u.origin.scheme ++ js ":"
  hostname := u.origin.host
  port := u.origin.port.elim [] decimal
  pathname := u.pathname
  search := u.search

/-- `new URL` is the URL parser, the host of a hostname is one, and ASCII is lower-cased as
usual. -/
structure Parses (std : WebUrls.Standard) (P : Primitives) : Prop where
  https : ∀ s, (∀ u ∈ s, 0x21 ≤ u ∧ u ≤ 0x7e) → P.parseUrl (js "https://" ++ s) =
    (WebUrls.readAbsolute std (js "https") 443 s).map view
  forward : ∀ s u, 0x5c ∉ s → P.parseUrl s = some u → 0x5c ∉ u.pathname ++ u.search
  host : ∀ s h, isHostname s = true → std.host s = some h → isHostname h = true
  lower : ∀ s, (∀ u ∈ s, u < 0x80) → P.toLowerCase s = s.map WebUrls.lowerUnit

section Hostnames

/-- A unit of a hostname. -/
def isHostUnit (u : ℕ) : Bool :=
  isDigitUnit u || decide (0x61 ≤ u ∧ u ≤ 0x7a) || decide (u = 0x2d) || decide (u = 0x2e)

theorem isHostname_units {h : JsString} (hname : isHostname h = true) :
    h ≠ [] ∧ ∀ u ∈ h, isHostUnit u = true := by
  refine ⟨?_, fun u hu => ?_⟩
  · rintro rfl
    exact absurd hname (by decide)
  · by_cases hdot : u = 0x2e
    · simp [isHostUnit, hdot]
    · obtain ⟨label, hlabel, hmem⟩ :=
        mem_splitOnP (p := fun u => u == 0x2e) hu (by simpa using hdot)
      have hall := List.all_eq_true.mp hname label hlabel
      rw [isHostLabel, Bool.and_eq_true, List.all_eq_true] at hall
      have hunit := hall.2 u hmem
      unfold isHostUnit
      rw [hunit, Bool.true_or]

/-- The units that mean something in front of, inside or behind a host. -/
def marks : List ℕ := [0x23, 0x2f, 0x3a, 0x3f, 0x40, 0x5b, 0x5c]

theorem isHostUnit_spec {u : ℕ} (h : isHostUnit u = true) :
    (0x2d ≤ u ∧ u < 0x80 ∧ u ∉ marks) ∧ isSpaceUnit u = false ∧ WebUrls.lowerUnit u = u ∧
      WebUrls.isPathEnd u = false := by
  have hlt : u < 0x80 := by
    simp only [isHostUnit, isDigitUnit, Bool.or_eq_true, Bool.and_eq_true, decide_eq_true_eq] at h
    omega
  have hunits : ∀ u < 0x80, isHostUnit u = true →
      (0x2d ≤ u ∧ u < 0x80 ∧ u ∉ marks) ∧ isSpaceUnit u = false ∧ WebUrls.lowerUnit u = u ∧
        WebUrls.isPathEnd u = false := by
    decide
  exact hunits u hlt h

theorem isHostUnit_printable {u : ℕ} (h : isHostUnit u = true) : 0x21 ≤ u ∧ u ≤ 0x7e := by
  simp only [isHostUnit, isDigitUnit, Bool.or_eq_true, Bool.and_eq_true, decide_eq_true_eq] at h
  omega

/-- None of the marks is in a hostname. -/
theorem not_mem_hostname {h : JsString} (hname : isHostname h = true) {u : ℕ} (hu : u ∈ marks) :
    u ∉ h := fun hmem =>
  (isHostUnit_spec ((isHostname_units hname).2 u hmem)).1.2.2 hu

theorem strip_eq_self {s : JsString} (h : ∀ u ∈ s, isSpaceUnit u = false ∧ u ≠ 0x5c) :
    strip s = s := by
  have hfilter : s.filter (fun u => !isSpaceUnit u) = s :=
    List.filter_eq_self.mpr fun u hu => by simp [(h u hu).1]
  have hmap : s.map (fun u => if u = 0x5c then slash else u) = s.map id := by
    apply List.map_congr_left
    intro u hu
    exact if_neg (h u hu).2
  rw [strip, hfilter, hmap, List.map_id]

theorem isPrefixOf_eq_false {front s : JsString} {u : ℕ} (hfront : u ∈ front) (hs : u ∉ s) :
    front.isPrefixOf s = false := by
  rw [Bool.eq_false_iff]
  intro hprefix
  exact hs ((List.isPrefixOf_iff_prefix.mp hprefix).subset hfront)

variable {std : WebUrls.Standard} {P : Primitives}

theorem lower_hostname (hP : Parses std P) {h : JsString} (hname : isHostname h = true) :
    P.toLowerCase h = h := by
  have hunits := (isHostname_units hname).2
  have hmap : h.map WebUrls.lowerUnit = h.map id := by
    apply List.map_congr_left
    intro u hu
    exact (isHostUnit_spec (hunits u hu)).2.2.1
  rw [hP.lower h fun u hu => (isHostUnit_spec (hunits u hu)).1.2.1, hmap, List.map_id]

/-- A hostname is left as it is. -/
theorem normalizeHostname_of_name (hP : Parses std P) {h : JsString} (hname : isHostname h = true) :
    normalizeHostname P h = ⟨h, none⟩ := by
  obtain ⟨hne, hunits⟩ := isHostname_units hname
  have hcolon : 0x3a ∉ h := not_mem_hostname hname (by decide)
  have hslash : 0x2f ∉ h := not_mem_hostname hname (by decide)
  have hstrip : strip h = h := strip_eq_self fun u hu =>
    ⟨(isHostUnit_spec (hunits u hu)).2.1, fun heq =>
      not_mem_hostname hname (by decide : 0x5c ∈ marks) (heq ▸ hu)⟩
  have hscheme : dropScheme h = h := by
    have hbehind : (behindScheme h).filter (fun rest => (js "://").isPrefixOf rest) = none := by
      rw [Option.filter_eq_none_iff]
      intro rest hrest hprefix
      have hsub : ∀ u ∈ rest, u ∈ h := by
        cases h with
        | nil => cases hrest
        | cons u tail =>
          rw [behindScheme, Option.ite_none_right_eq_some, Option.some.injEq] at hrest
          intro v hv
          rw [← hrest.2] at hv
          exact List.mem_cons_of_mem u ((List.dropWhile_suffix _).subset hv)
      have hfalse : (js "://").isPrefixOf rest = false :=
        isPrefixOf_eq_false (u := 0x3a) (by decide) fun hmem => hcolon (hsub _ hmem)
      simp [hfalse] at hprefix
    rw [dropScheme, hbehind]
  have hpart : hostPart h = h := by
    have hdouble : (js "//").isPrefixOf h = false :=
      isPrefixOf_eq_false (u := 0x2f) (by decide) hslash
    simp only [hostPart, hstrip, hscheme, hdouble, Bool.false_eq_true, if_false]
    refine List.takeWhile_eq_self_iff.mpr fun u hu => ?_
    have hends : u ∉ [slash, 0x3f, 0x23] := by
      intro hend
      exact not_mem_hostname hname
        ((by decide : ∀ u ∈ [slash, 0x3f, 0x23], u ∈ marks) u hend) hu
    simpa using hends
  have hport : (h.reverse.dropWhile isDigitUnit).head? ≠ some 0x3a := by
    intro hhead
    have hmem := (List.dropWhile_suffix _).subset (List.mem_of_mem_head? hhead)
    exact hcolon (List.mem_reverse.mp hmem)
  rw [normalizeHostname, hpart, lower_hostname hP hname, checkHostname, if_neg hne, if_neg hport,
    if_neg (by simpa using hcolon), if_neg (by simp [hname])]

theorem isHostname_of_normalize {input : JsString}
    (h : (normalizeHostname P input).error = none) :
    isHostname (normalizeHostname P input).value = true := by
  unfold normalizeHostname checkHostname at h ⊢
  split_ifs at h ⊢ with _ _ _ hname
  simpa using hname

end Hostnames

section Paths

/-- A path without two slashes in a row, of printable ASCII without backslashes. -/
structure IsPath (p : JsString) : Prop where
  rooted : p.head? = some slash
  single : ¬[slash, slash] <:+: p
  printable : ∀ u ∈ p, 0x21 ≤ u ∧ u ≤ 0x7e ∧ u ≠ 0x5c

theorem collapseSlashes_subset {s : JsString} : ∀ u ∈ collapseSlashes s, u ∈ s := by
  induction s with
  | nil => exact fun u hu => hu
  | cons v rest ih =>
    intro u hu
    rw [collapseSlashes] at hu
    split_ifs at hu
    · exact List.mem_cons_of_mem v (ih u hu)
    · rcases List.mem_cons.mp hu with rfl | hu
      · exact List.mem_cons_self
      · exact List.mem_cons_of_mem v (ih u hu)

theorem collapseSlashes_ne_nil {s : JsString} (h : s ≠ []) : collapseSlashes s ≠ [] := by
  induction s with
  | nil => exact h
  | cons u rest ih =>
    rw [collapseSlashes]
    split_ifs with hdouble
    · refine ih ?_
      rintro rfl
      exact absurd hdouble.2 (by simp)
    · simp

theorem collapseSlashes_single (s : JsString) : ¬[slash, slash] <:+: collapseSlashes s := by
  induction s with
  | nil => decide
  | cons u rest ih =>
    rw [collapseSlashes]
    split_ifs with hdouble
    · exact ih
    · rw [List.infix_cons_iff, not_or]
      refine ⟨fun hprefix => hdouble ?_, ih⟩
      obtain ⟨hu, hrest⟩ := List.cons_prefix_cons.mp hprefix
      refine ⟨hu.symm, ?_⟩
      cases rest with
      | nil => exact absurd hrest (by decide)
      | cons v rest =>
        rw [collapseSlashes] at hrest
        split_ifs at hrest with hnext
        · rw [List.head?_cons, hnext.1]
        · rw [List.head?_cons, (List.cons_prefix_cons.mp hrest).1]

theorem collapseSlashes_eq_self {s : JsString} (h : ¬[slash, slash] <:+: s) :
    collapseSlashes s = s := by
  induction s with
  | nil => rfl
  | cons u rest ih =>
    rw [List.infix_cons_iff, not_or] at h
    rw [collapseSlashes, ih h.2, if_neg]
    rintro ⟨rfl, hhead⟩
    obtain ⟨tail, rfl⟩ := List.head?_eq_some_iff.mp hhead
    exact h.1 ⟨tail, rfl⟩

theorem rooted_isPath {v : JsString} (hback : 0x5c ∉ v)
    (hvalid : (normalizeRelative v).error = none) : IsPath (normalizeRelative v).value := by
  have hhead : (if v.head? = some slash then v else slash :: v).head? = some slash := by
    split_ifs with h
    · exact h
    · rfl
  have hrooted : (rooted v).head? = some slash := collapseSlashes_head hhead
  unfold normalizeRelative at hvalid ⊢
  split_ifs at hvalid ⊢ with hprintable
  refine ⟨hrooted, collapseSlashes_single _, fun u hu => ?_⟩
  have hne : u ≠ 0x5c := by
    rintro rfl
    have hmem := collapseSlashes_subset _ hu
    split_ifs at hmem
    · exact hback hmem
    · exact hback ((List.mem_cons.mp hmem).resolve_left (by decide))
  obtain ⟨tail, htail⟩ := List.head?_eq_some_iff.mp hrooted
  rw [htail] at hu hprintable
  rcases List.mem_cons.mp hu with rfl | hu
  · decide
  · have hrange := List.all_eq_true.mp hprintable u hu
    rw [decide_eq_true_eq] at hrange
    exact ⟨hrange.1, hrange.2, hne⟩

variable {std : WebUrls.Standard} {P : Primitives}

theorem strip_forward (input : JsString) : 0x5c ∉ strip input := by
  intro hmem
  obtain ⟨u, -, hu⟩ := List.mem_map.mp hmem
  split_ifs at hu with hback
  · exact absurd hu (by decide)
  · exact hback hu

/-- An accepted path is empty where it may be, or a path. -/
theorem normalizePath_cases (hP : Parses std P) {input hostname : JsString} {required : Bool}
    (h : (normalizePath P input hostname required).error = none) :
    (normalizePath P input hostname required).value = [] ∧ required = false ∨
      IsPath (normalizePath P input hostname required).value := by
  have hback := strip_forward input
  unfold normalizePath at h ⊢
  split_ifs at h ⊢ with hempty hrequired hfull
  · exact .inl ⟨rfl, by simpa using hrequired⟩
  · unfold pathOfUrl at h ⊢
    split at h
    · cases h
    · next u hparse =>
      split_ifs at h ⊢
      refine .inr (rooted_isPath (hP.forward _ u ?_ hparse) h)
      split_ifs
      · intro hmem
        rcases List.mem_append.mp hmem with hmem | hmem
        · exact absurd hmem (by decide)
        · exact hback hmem
      · exact hback
  · exact .inr (rooted_isPath hback h)

theorem IsPath.exists_rest {p : JsString} (h : IsPath p) :
    ∃ rest, p = slash :: rest ∧ rest.head? ≠ some slash := by
  obtain ⟨rest, rfl⟩ := List.head?_eq_some_iff.mp h.rooted
  refine ⟨rest, rfl, fun hhead => ?_⟩
  obtain ⟨tail, rfl⟩ := List.head?_eq_some_iff.mp hhead
  exact h.single ⟨[], tail, rfl⟩

/-- What starts with one slash is a path of its own. -/
theorem normalizePath_rooted {rest : JsString} (hunits : ∀ u ∈ rest, isSpaceUnit u = false ∧ u ≠ 0x5c)
    (hone : rest.head? ≠ some slash) (P : Primitives) (hostname : JsString) (required : Bool) :
    normalizePath P (slash :: rest) hostname required = normalizeRelative (slash :: rest) := by
  have hstrip : strip (slash :: rest) = slash :: rest := by
    refine strip_eq_self fun u hu => ?_
    rcases List.mem_cons.mp hu with rfl | hu
    · decide
    · exact hunits u hu
  have hfull : isFullUrl (slash :: rest) = false := by
    have hdouble : (js "//").isPrefixOf (slash :: rest) = false := by
      rw [Bool.eq_false_iff]
      intro hprefix
      obtain ⟨tail, htail⟩ := List.isPrefixOf_iff_prefix.mp hprefix
      exact hone (by rw [← (List.cons.inj htail).2]; rfl)
    have hscheme : behindScheme (slash :: rest) = none := rfl
    rw [isFullUrl, hdouble, hscheme]
    rfl
  rw [normalizePath, hstrip, if_neg (by simp), if_neg (by simp [hfull])]

theorem isSpaceUnit_printable {u : ℕ} (h : 0x21 ≤ u ∧ u ≤ 0x7e) : isSpaceUnit u = false := by
  have hunits : ∀ u < 0x7f, 0x21 ≤ u → isSpaceUnit u = false := by decide
  exact hunits u (by omega) h.1

/-- A path is left as it is. -/
theorem normalizePath_of_path {p : JsString} (h : IsPath p) (P : Primitives) (hostname : JsString)
    (required : Bool) : normalizePath P p hostname required = ⟨p, none⟩ := by
  obtain ⟨rest, rfl, hone⟩ := h.exists_rest
  have hunits : ∀ u ∈ rest, 0x21 ≤ u ∧ u ≤ 0x7e ∧ u ≠ 0x5c :=
    fun u hu => h.printable u (List.mem_cons_of_mem slash hu)
  have hrooted : rooted (slash :: rest) = slash :: rest := collapseSlashes_eq_self h.single
  rw [normalizePath_rooted (fun u hu => ⟨isSpaceUnit_printable ⟨(hunits u hu).1, (hunits u hu).2.1⟩,
    (hunits u hu).2.2⟩) hone, normalizeRelative, hrooted, if_pos]
  rw [List.tail_cons, List.all_eq_true]
  exact fun u hu => decide_eq_true ⟨(hunits u hu).1, (hunits u hu).2.1⟩

end Paths

section Parsing

open WebUrls (Standard Normal shown readAbsolute readAuthority splitMark)

variable {std : Standard} {P : Primitives}

/-- A path or nothing behind the hostname. -/
def Behind (p : JsString) : Prop := p = [] ∨ IsPath p

theorem Behind.printable {p : JsString} (h : Behind p) :
    ∀ u ∈ p, 0x21 ≤ u ∧ u ≤ 0x7e ∧ u ≠ 0x5c := by
  rcases h with rfl | h
  · simp
  · exact h.printable

theorem Behind.ascii {p : JsString} (h : Behind p) : ∀ u ∈ p, u < 0x80 := by
  intro u hu
  have := h.printable u hu
  omega

theorem readAuthority_hostname (std : Standard) {h : JsString} (hname : isHostname h = true) :
    readAuthority std (js "https") 443 h =
      (std.host h).map fun host => ⟨js "https", host, none⟩ := by
  have huser : h.rtakeWhile (· ≠ 0x40) = h := by
    refine List.rtakeWhile_eq_self_iff.mpr fun u hu => decide_eq_true fun heq : u = 0x40 => ?_
    exact not_mem_hostname hname (by decide : 0x40 ∈ marks) (heq ▸ hu)
  have hbracket : h.head? ≠ some 0x5b := fun hhead =>
    not_mem_hostname hname (by decide : 0x5b ∈ marks) (List.mem_of_mem_head? hhead)
  have hcolon : splitMark 0x3a h = (h, none) := by
    have hsplit := WebUrls.splitMark_of_not_mem
      (not_mem_hostname hname (by decide : 0x3a ∈ marks)) none
    rwa [WebUrls.markText, List.append_nil] at hsplit
  have hport : WebUrls.readPort 443 [] = some none := by decide
  simp only [readAuthority, huser, if_neg hbracket, List.length_nil, List.drop_zero, hcolon,
    List.nil_append, if_neg (isHostname_units hname).1, Option.getD_none, hport]
  cases std.host h <;> rfl

theorem readAbsolute_composed (std : Standard) {h p : JsString} (hname : isHostname h = true)
    (hp : Behind p) : readAbsolute std (js "https") 443 (h ++ p) =
      (std.host h).map fun host =>
        WebUrls.readRest std ⟨js "https", host, none⟩ (WebUrls.absolutePath std) p := by
  obtain ⟨hne, hunits⟩ := isHostname_units hname
  have hends : ∀ u ∈ h, WebUrls.isPathEnd u = false := fun u hu => (isHostUnit_spec (hunits u hu)).2.2.2
  have hpath : p = [] ∨ ∃ rest, p = slash :: rest := by
    rcases hp with rfl | hp
    · exact .inl rfl
    · exact .inr (List.head?_eq_some_iff.mp hp.rooted)
  have hfront : (h ++ p).dropWhile WebUrls.isSlashUnit = h ++ p := by
    obtain ⟨u, rest, rfl⟩ := List.exists_cons_of_ne_nil hne
    have hu : WebUrls.isSlashUnit u = false := by
      have hend := hends u List.mem_cons_self
      simp only [WebUrls.isPathEnd, Bool.or_eq_false_iff] at hend
      exact hend.1.1
    rw [List.cons_append, List.dropWhile_cons_of_neg (by simp [hu])]
  have hall : ∀ u ∈ h, (!WebUrls.isPathEnd u) = true := fun u hu => by simp [hends u hu]
  have htake : (h ++ p).takeWhile (fun u => !WebUrls.isPathEnd u) = h := by
    rw [List.takeWhile_append_of_pos hall]
    rcases hpath with rfl | ⟨rest, rfl⟩
    · simp
    · rw [List.takeWhile_cons_of_neg (by decide), List.append_nil]
  have hdrop : (h ++ p).dropWhile (fun u => !WebUrls.isPathEnd u) = p := by
    rw [List.dropWhile_append_of_pos hall]
    rcases hpath with rfl | ⟨rest, rfl⟩
    · rfl
    · rw [List.dropWhile_cons_of_neg (by decide)]
  simp only [readAbsolute, hfront, htake, hdrop, readAuthority_hostname std hname, Option.map_map]
  rfl

/-- What the parser makes of a composed URL. -/
theorem parseUrl_composeUrl (hP : Parses std P) {h p : JsString} (hname : isHostname h = true)
    (hp : Behind p) :
    (P.parseUrl (composeUrl h p)).map (fun u => (u.hostname, u.pathname ++ u.search)) =
      (std.host h).map fun host => (host, shown std p) := by
  have hunits : ∀ u ∈ h ++ p, 0x21 ≤ u ∧ u ≤ 0x7e := by
    intro u hu
    rcases List.mem_append.mp hu with hu | hu
    · exact isHostUnit_printable ((isHostname_units hname).2 u hu)
    · exact ⟨(hp.printable u hu).1, (hp.printable u hu).2.1⟩
  rw [composeUrl, List.append_assoc, hP.https _ hunits, readAbsolute_composed std hname hp,
    Option.map_map, Option.map_map]
  rfl

theorem decomposeUrl_composeUrl (hP : Parses std P) {h p : JsString} (hname : isHostname h = true)
    (hp : Behind p) (g : JsString) :
    decomposeUrl P (composeUrl h p) g = if std.host h = some g then some (shown std p) else none := by
  have hparsed := parseUrl_composeUrl hP hname hp
  cases hhost : std.host h with
  | none =>
    rw [hhost, Option.map_none, Option.map_eq_none_iff] at hparsed
    rw [decomposeUrl, hparsed, if_neg (by simp)]
  | some host =>
    rw [hhost, Option.map_some, Option.map_eq_some_iff] at hparsed
    obtain ⟨u, hu, heq⟩ := hparsed
    obtain ⟨hhostname, hshown⟩ := Prod.mk.inj heq
    rw [decomposeUrl, hu]
    simp only [hhostname, lower_hostname hP (hP.host h host hname hhost), hshown, Option.some.injEq]

theorem shown_rest (std : Standard) {p : JsString} (hp : Behind p) :
    ∃ rest, shown std p = slash :: rest ∧ rest.head? ≠ some slash := by
  rcases hp with rfl | hp
  · exact ⟨[], rfl, by simp⟩
  · obtain ⟨rest, rfl⟩ := List.head?_eq_some_iff.mp hp.rooted
    exact WebUrls.shown_single (fun u hu => by have := hp.printable u hu; omega)
      (fun hmem => (hp.printable _ hmem).2.2 rfl) hp.single

/-- A path that is shown as it is. -/
structure PlainPath (std : Standard) (p : JsString) : Prop extends Normal std p where
  present : p ≠ []

theorem isPlainUnit_printable {u : ℕ} (h : WebUrls.isPlainUnit u = true) :
    0x21 ≤ u ∧ u ≤ 0x7e ∧ u ≠ 0x5c := by
  simp only [WebUrls.isPlainUnit, WebUrls.isAlphaUnit, isDigitUnit, Bool.or_eq_true,
    Bool.and_eq_true, decide_eq_true_eq, List.contains_eq_mem, List.mem_cons, List.not_mem_nil,
    or_false] at h
  omega

/-- What is shown of an accepted path, normalized again. -/
theorem normalizePath_shown (std : Standard) {p : JsString} (hp : Behind p) (P : Primitives)
    (h : JsString) (required : Bool) :
    normalizePath P (shown std p) h required = ⟨collapseSlashes (shown std p), none⟩ := by
  have hunits : ∀ u ∈ shown std p, 0x21 ≤ u ∧ u ≤ 0x7e ∧ u ≠ 0x5c := by
    intro u hu
    rcases WebUrls.mem_shown hp.ascii u hu with hu | hu
    · exact hp.printable u hu
    · exact isPlainUnit_printable hu
  obtain ⟨rest, hrest, hone⟩ := shown_rest std hp
  rw [hrest] at hunits ⊢
  have htail : ∀ u ∈ rest, 0x21 ≤ u ∧ u ≤ 0x7e ∧ u ≠ 0x5c :=
    fun u hu => hunits u (List.mem_cons_of_mem slash hu)
  have hrooted : rooted (slash :: rest) = collapseSlashes (slash :: rest) := rfl
  rw [normalizePath_rooted (fun u hu => ⟨isSpaceUnit_printable ⟨(htail u hu).1, (htail u hu).2.1⟩,
    (htail u hu).2.2⟩) hone, normalizeRelative, hrooted, if_pos]
  rw [List.all_eq_true]
  intro u hu
  have := hunits u (collapseSlashes_subset u (List.mem_of_mem_tail hu))
  exact decide_eq_true ⟨this.1, this.2.1⟩

theorem head_splitMark {mark u : ℕ} (hu : u ≠ mark) (s : JsString) :
    (splitMark mark s).1.head? = some u ↔ s.head? = some u := by
  cases s with
  | nil => rfl
  | cons v rest =>
    rw [splitMark]
    split_ifs with hv
    · simp only [List.head?_nil, reduceCtorEq, List.head?_cons, Option.some.injEq, false_iff]
      exact fun heq => hu (heq.symm.trans hv)
    · rfl

theorem splitMark_collapse (s : JsString) :
    splitMark WebUrls.question (collapseSlashes s) =
      (collapseSlashes (splitMark WebUrls.question s).1,
        (splitMark WebUrls.question s).2.map collapseSlashes) := by
  induction s with
  | nil => rfl
  | cons u rest ih =>
    have hhead : (splitMark WebUrls.question rest).1.head? = some slash ↔ rest.head? = some slash :=
      head_splitMark (by decide) rest
    rw [collapseSlashes]
    split_ifs with hdouble
    · rw [ih, splitMark, if_neg (by rw [hdouble.1]; decide)]
      dsimp only
      rw [collapseSlashes, if_pos ⟨hdouble.1, hhead.mpr hdouble.2⟩]
    · rw [splitMark, splitMark]
      split_ifs with hu
      · rfl
      · dsimp only
        rw [ih, collapseSlashes, if_neg fun h => hdouble ⟨h.1, hhead.mp h.2⟩]

/-- Collapsing slashes drops segments behind the first one. -/
theorem splitOn_collapse (s : JsString) :
    ∃ first segments kept, s.splitOn slash = first :: segments ∧
      (collapseSlashes s).splitOn slash = first :: kept ∧ ∀ other ∈ kept, other ∈ segments := by
  induction s with
  | nil => exact ⟨[], [], [], rfl, rfl, by simp⟩
  | cons u rest ih =>
    obtain ⟨first, segments, kept, hsplit, hcollapse, hkept⟩ := ih
    rw [collapseSlashes]
    by_cases hu : u = slash
    · subst hu
      have hslash := WebUrls.splitOn_slash_cons rest
      split_ifs with hdouble
      · obtain ⟨tail, rfl⟩ := List.head?_eq_some_iff.mp hdouble.2
        obtain ⟨rfl, -⟩ := List.cons.inj (hsplit.symm.trans (WebUrls.splitOn_slash_cons tail))
        exact ⟨[], [] :: segments, kept, hslash.trans (by rw [← hsplit]; rfl), hcollapse,
          fun other hother => List.mem_cons_of_mem [] (hkept other hother)⟩
      · refine ⟨[], first :: segments, first :: kept, hslash.trans (by rw [← hsplit]; rfl),
          (WebUrls.splitOn_slash_cons (collapseSlashes rest)).trans (by rw [← hcollapse]; rfl),
          fun other hother => ?_⟩
        rcases List.mem_cons.mp hother with rfl | hother
        · exact List.mem_cons_self
        · exact List.mem_cons_of_mem first (hkept other hother)
    · rw [if_neg fun h => hu h.1, List.splitOn_cons_eq_if_modifyHead, if_neg (by simpa using hu),
        List.splitOn_cons_eq_if_modifyHead, if_neg (by simpa using hu), hsplit, hcollapse]
      exact ⟨u :: first, segments, kept, rfl, rfl, hkept⟩

/-- Collapsing slashes keeps a text that is shown as it is. -/
theorem normal_collapseSlashes {std : Standard} {s : JsString} (h : Normal std s) :
    Normal std (collapseSlashes s) := by
  refine ⟨fun hmem => h.whole (collapseSlashes_subset _ hmem), ?_, ?_, ?_⟩
  · rw [splitMark_collapse]
    exact fun hmem => h.forward (collapseSlashes_subset _ hmem)
  · rw [splitMark_collapse]
    obtain ⟨first, segments, kept, hsplit, hcollapse, hkept⟩ :=
      splitOn_collapse (splitMark WebUrls.question s).1
    intro segment hsegment
    apply h.segments
    have hsegment := hcollapse ▸ hsegment
    refine hsplit ▸ ?_
    rcases List.mem_cons.mp hsegment with rfl | hsegment
    · exact List.mem_cons_self
    · exact List.mem_cons_of_mem first (hkept segment hsegment)
  · rw [splitMark_collapse]
    intro query hquery
    obtain ⟨whole, hwhole, rfl⟩ := Option.map_eq_some_iff.mp hquery
    obtain ⟨hne, hescapes⟩ := h.query whole hwhole
    exact ⟨collapseSlashes_ne_nil hne, fun u hu => hescapes u (collapseSlashes_subset u hu)⟩

theorem collapse_shown (std : Standard) {p : JsString} (hp : Behind p) :
    collapseSlashes (shown std p) = p ↔ PlainPath std p := by
  constructor
  · intro hback
    have hshown : Normal std (shown std p) := WebUrls.normal_shown hp.ascii
    refine ⟨hback ▸ normal_collapseSlashes hshown, ?_⟩
    rintro rfl
    have hroot : collapseSlashes (shown std []) = [slash] := rfl
    exact absurd (hroot.symm.trans hback) (by simp)
  · intro hplain
    obtain ⟨hnormal, hpresent⟩ := hplain
    rcases hp with rfl | hp
    · exact absurd rfl hpresent
    · obtain ⟨rest, rfl⟩ := List.head?_eq_some_iff.mp hp.rooted
      have hshown := WebUrls.shown_normal hnormal
      exact (congrArg collapseSlashes hshown).trans (collapseSlashes_eq_self hp.single)

theorem composeUrl_injective {h h' p p' : JsString} (hh : slash ∉ h) (hh' : slash ∉ h')
    (hp : p.head? = some slash) (hp' : p'.head? = some slash)
    (heq : composeUrl h p = composeUrl h' p') : h = h' ∧ p = p' :=
  ⟨by rw [← hostOf_composeUrl hh hp, heq, hostOf_composeUrl hh' hp'],
    by rw [← pathOf_composeUrl hh hp, heq, pathOf_composeUrl hh' hp']⟩

/-- A URL comes back from the form as it was composed. -/
def RoundTrips (P : Primitives) (h p : JsString) : Prop :=
  ∃ q, decomposeUrl P (composeUrl h p) h = some q ∧
    composeUrl h (normalizePath P q h false).value = composeUrl h p

theorem roundTrips_iff (hP : Parses std P) {h p : JsString} (hname : isHostname h = true)
    (hp : Behind p) : RoundTrips P h p ↔ std.host h = some h ∧ PlainPath std p := by
  have hcompose : ∀ q, composeUrl h q = composeUrl h p ↔ q = p := fun q => by
    simp [composeUrl]
  rw [RoundTrips, decomposeUrl_composeUrl hP hname hp, ← collapse_shown std hp]
  by_cases hhost : std.host h = some h
  · simp [hhost, hcompose, normalizePath_shown std hp]
  · simp [hhost]

end Parsing

section Edits

open WebUrls (Standard shown)

variable {std : Standard} {P : Primitives}

/-- What a form without errors is composed of. -/
structure IsForm (v : ClientInput) : Prop where
  hostname : isHostname v.hostname = true
  redirects : v.redirectPaths ≠ []
  redirectPaths : ∀ path ∈ v.redirectPaths, IsPath path
  eventsPath : ∀ path ∈ v.eventsPath, IsPath path

theorem isForm_of_validated (hP : Parses std P) {form : Field → Json}
    (h : (validateClientInput P form).1 = []) : IsForm (validateClientInput P form).2 := by
  have herrors : ∀ f, errorsOf P (valueOf P [] .hostname (form .hostname)) f (form f) = [] := by
    intro f
    have hall := List.flatMap_eq_nil_iff.mp h f (by cases f <;> decide)
    exact (List.append_eq_nil_iff.mp hall).1
  have hpaths : (validateClientInput P form).2.redirectPaths =
      valueOf P (valueOf P [] .hostname (form .hostname)) .redirectPaths (form .redirectPaths) := rfl
  obtain ⟨items, hitems, hne, hall⟩ := redirectPaths_cases (herrors .redirectPaths)
  rw [hitems] at hpaths
  refine ⟨isHostname_of_normalize (normError_eq_nil (herrors .hostname)), ?_, ?_, ?_⟩
  · rw [hpaths]
    exact fun hnil => hne (List.map_eq_nil_iff.mp hnil)
  · intro path hpath
    rw [hpaths] at hpath
    obtain ⟨item, hitem, rfl⟩ := List.mem_map.mp hpath
    rcases normalizePath_cases hP (hall item hitem) with ⟨-, hrequired⟩ | hpath
    · cases hrequired
    · exact hpath
  · intro path hpath
    have hvalue : (validateClientInput P form).2.eventsPath = valueOf P
      (valueOf P [] .hostname (form .hostname)) .eventsPath (form .eventsPath) := rfl
    have herror := normError_eq_nil (herrors .eventsPath)
    generalize valueOf P [] .hostname (form .hostname) = hostname at hvalue herror
    rw [hvalue, valueOf, Option.mem_def, Option.ite_none_left_eq_some, Option.some.injEq] at hpath
    obtain ⟨hne, rfl⟩ := hpath
    rcases normalizePath_cases hP herror with ⟨hempty, -⟩ | hpath
    · exact (hne hempty).elim
    · exact hpath

/-- The URLs of a row are those of a form. -/
structure Composed (row : ClientColumns) (v : ClientInput) : Prop where
  redirectUris : row.redirectUris = v.redirectPaths.map (composeUrl v.hostname)
  eventsUri : row.eventsUri = v.eventsPath.map (composeUrl v.hostname)

theorem composed_inserted {body : Body} {fetched : Fetched} {row : ClientColumns}
    (h : insertedRow P body fetched = some row) :
    (validateClientInput P (posted body)).1 = [] ∧
      Composed row (validateClientInput P (posted body)).2 := by
  unfold insertedRow at h
  rw [Option.ite_none_left_eq_some] at h
  obtain ⟨hvalid, h⟩ := h
  rw [not_or, not_not] at hvalid
  refine ⟨hvalid.1, ?_⟩
  split at h
  · obtain rfl := Option.some.inj h
    exact ⟨rfl, rfl⟩
  · obtain rfl := Option.some.inj h
    exact ⟨rfl, rfl⟩
  · cases h

theorem hostnameOfRow_composed (hP : Parses std P) {row : ClientColumns} {v : ClientInput}
    (hv : IsForm v) (hrow : Composed row v) :
    hostnameOfRow P row = (std.host v.hostname).getD [] := by
  obtain ⟨path, rest, hpaths⟩ := List.exists_cons_of_ne_nil hv.redirects
  have hparsed := parseUrl_composeUrl hP hv.hostname
    (.inr (hv.redirectPaths path (hpaths ▸ List.mem_cons_self)))
  rw [hostnameOfRow, hrow.redirectUris, hpaths, List.map_cons, List.head?_cons, Option.bind_some]
  cases hhost : std.host v.hostname with
  | none =>
    rw [hhost, Option.map_none, Option.map_eq_none_iff] at hparsed
    rw [hparsed]
    rfl
  | some host =>
    rw [hhost, Option.map_some, Option.map_eq_some_iff] at hparsed
    obtain ⟨u, hu, heq⟩ := hparsed
    rw [hu, Option.map_some, Option.getD_some, (Prod.mk.inj heq).1,
      lower_hostname hP (hP.host _ host hv.hostname hhost), Option.getD_some]

/-- The paths as the form shows them and the validation leaves them. -/
def reread (std : Standard) (path : JsString) : JsString := collapseSlashes (shown std path)

theorem reread_head (std : Standard) {path : JsString} (hpath : Behind path) :
    (reread std path).head? = some slash := by
  obtain ⟨rest, hrest, -⟩ := shown_rest std hpath
  exact collapseSlashes_head (by rw [hrest]; rfl)

theorem asked_redirectPaths (hP : Parses std P) {row : ClientColumns} {v : ClientInput}
    (hv : IsForm v) (hrow : Composed row v) {host : JsString} (hhost : std.host v.hostname = some host)
    {body : Body} (hunset : body.sets .redirectPaths = false) :
    (asked P body row).redirectPaths = v.redirectPaths.map (reread std) := by
  have hname : hostnameOfRow P row = host := by
    rw [hostnameOfRow_composed hP hv hrow, hhost, Option.getD_some]
  have hshown : row.redirectUris.filterMap (fun url => decomposeUrl P url host) =
      v.redirectPaths.map (shown std) := by
    rw [hrow.redirectUris, List.filterMap_map, ← List.filterMap_eq_map]
    refine List.filterMap_congr fun path hpath => ?_
    have hdecomposed := decomposeUrl_composeUrl hP hv.hostname
      (.inr (hv.redirectPaths path hpath)) host
    rwa [if_pos hhost] at hdecomposed
  have hasked := asked_of_unset (P := P) row hunset
  rw [decomposeRow, hname, hshown, valueOf, List.map_map, List.map_map] at hasked
  refine Eq.trans hasked (List.map_congr_left fun path hpath => ?_)
  exact congrArg Norm.value
    (normalizePath_shown std (.inr (hv.redirectPaths path hpath)) P _ true)

theorem asked_eventsPath (hP : Parses std P) {row : ClientColumns} {v : ClientInput}
    (hv : IsForm v) (hrow : Composed row v) {host : JsString} (hhost : std.host v.hostname = some host)
    {body : Body} (hunset : body.sets .eventsPath = false) :
    (asked P body row).eventsPath = v.eventsPath.map (reread std) := by
  have hname : hostnameOfRow P row = host := by
    rw [hostnameOfRow_composed hP hv hrow, hhost, Option.getD_some]
  have hasked := asked_of_unset (P := P) row hunset
  rw [decomposeRow, hname, hrow.eventsUri] at hasked
  cases hevents : v.eventsPath with
  | none =>
    rw [hevents] at hasked
    exact hasked
  | some path =>
    have hpath : Behind path := .inr (hv.eventsPath path hevents)
    have hdecomposed := decomposeUrl_composeUrl hP hv.hostname hpath host
    rw [if_pos hhost] at hdecomposed
    have hne : composeUrl v.hostname path ≠ [] := List.cons_ne_nil _ _
    have hreread : reread std path ≠ [] := by
      intro hnil
      simpa [hnil] using reread_head std hpath
    rw [hevents, Option.map_some, Option.filter_some, if_pos (by simp [hne]), Option.bind_some,
      hdecomposed] at hasked
    have hvalue : valueOf P (hostnameOf P body row) .eventsPath (.str (shown std path)) =
        some (reread std path) := by
      simp only [valueOf, stringOr, normalizePath_shown std hpath]
      exact if_neg hreread
    exact hasked.trans hvalue

/-- A form whose hostname and paths come back as they are. -/
structure PlainForm (std : Standard) (v : ClientInput) : Prop where
  host : std.host v.hostname = some v.hostname
  paths : ∀ path ∈ v.redirectPaths ++ v.eventsPath.toList, PlainPath std path

/-- A PATCH that sets neither the hostname nor the paths. -/
def Unrelated (body : Body) : Prop :=
  ∀ f ∈ [Field.hostname, .redirectPaths, .eventsPath], body.sets f = false

theorem asked_hostname (hP : Parses std P) {row : ClientColumns} {v : ClientInput}
    (hv : IsForm v) (hrow : Composed row v) {body : Body} (hunset : body.sets .hostname = false)
    (haccepts : Accepts P body row) :
    std.host v.hostname = some (asked P body row).hostname := by
  have hasked : (asked P body row).hostname = (normalizeHostname P (hostnameOfRow P row)).value :=
    asked_of_unset (P := P) row hunset
  have hname : isHostname (asked P body row).hostname = true := (isForm_of_validated hP haccepts).hostname
  rw [hasked, hostnameOfRow_composed hP hv hrow] at hname ⊢
  cases hhost : std.host v.hostname with
  | none =>
    rw [hhost, Option.getD_none] at hname
    have hempty : normalizeHostname P [] = ⟨[], some (js "Required")⟩ := by
      have hpart : hostPart [] = [] := rfl
      rw [normalizeHostname, hpart, hP.lower [] (by simp)]
      rfl
    rw [hempty] at hname
    exact absurd hname (by decide)
  | some host =>
    rw [Option.getD_some, normalizeHostname_of_name hP (hP.host _ _ hv.hostname hhost)]

/-- What an accepted PATCH writes has the URLs of the row just when they come back as they
are. -/
theorem unchanged_iff (hP : Parses std P) {row : ClientColumns} {v : ClientInput} (hv : IsForm v)
    (hrow : Composed row v) {body : Body} (hunrelated : Unrelated body)
    (haccepts : Accepts P body row) :
    ((asked P body row).columns.redirectUris = row.redirectUris ∧
      (asked P body row).columns.eventsUri = row.eventsUri) ↔ PlainForm std v := by
  have hhost := asked_hostname hP hv hrow (hunrelated .hostname (by simp)) haccepts
  have hredirects := asked_redirectPaths hP hv hrow hhost (hunrelated .redirectPaths (by simp))
  have hevents := asked_eventsPath hP hv hrow hhost (hunrelated .eventsPath (by simp))
  have hname := isHostname_slash (isForm_of_validated hP haccepts).hostname
  have hpaths : ∀ path ∈ v.redirectPaths ++ v.eventsPath.toList, IsPath path := by
    intro path hpath
    rcases List.mem_append.mp hpath with hpath | hpath
    · exact hv.redirectPaths path hpath
    · exact hv.eventsPath path (Option.mem_toList.mp hpath)
  have hredirectUris : (asked P body row).columns.redirectUris =
      v.redirectPaths.map fun path => composeUrl (asked P body row).hostname (reread std path) := by
    rw [ClientInput.columns, hredirects, List.map_map]
    rfl
  have heventsUri : (asked P body row).columns.eventsUri =
      v.eventsPath.map fun path => composeUrl (asked P body row).hostname (reread std path) := by
    rw [ClientInput.columns, hevents, Option.map_map]
    rfl
  have hboth : ((asked P body row).columns.redirectUris = row.redirectUris ∧
      (asked P body row).columns.eventsUri = row.eventsUri) ↔
      ∀ path ∈ v.redirectPaths ++ v.eventsPath.toList,
        composeUrl (asked P body row).hostname (reread std path) = composeUrl v.hostname path := by
    rw [hredirectUris, heventsUri, hrow.redirectUris, hrow.eventsUri, List.map_inj_left]
    cases v.eventsPath with
    | none => simp
    | some path => simp [or_imp, forall_and]
  have hpath : ∀ path ∈ v.redirectPaths ++ v.eventsPath.toList,
      (composeUrl (asked P body row).hostname (reread std path) = composeUrl v.hostname path ↔
        (asked P body row).hostname = v.hostname ∧ PlainPath std path) := by
    intro path hpath
    have hbehind : Behind path := .inr (hpaths path hpath)
    rw [← collapse_shown std hbehind]
    constructor
    · exact composeUrl_injective hname (isHostname_slash hv.hostname) (reread_head std hbehind)
        (hpaths path hpath).rooted
    · rintro ⟨hsame, hreread⟩
      rw [hsame, reread, hreread]
  rw [hboth]
  constructor
  · intro hsame
    obtain ⟨first, rest, hfirst⟩ := List.exists_cons_of_ne_nil hv.redirects
    have hmem : first ∈ v.redirectPaths ++ v.eventsPath.toList :=
      List.mem_append_left _ (hfirst ▸ List.mem_cons_self)
    refine ⟨?_, fun path hmem => ((hpath path hmem).mp (hsame path hmem)).2⟩
    rw [hhost, ((hpath first hmem).mp (hsame first hmem)).1]
  · intro hplain path hmem
    exact (hpath path hmem).mpr
      ⟨Option.some.inj (hhost.symm.trans hplain.host), hplain.paths path hmem⟩

/-- The PATCH writes the row: its form is accepted, and the keys it asks for are fetched. -/
def Writes (P : Primitives) (body : Body) (row : ClientColumns) (fetched : Fetched) : Prop :=
  Accepts P body row ∧
    ∀ url, refetches row body (asked P body row) = some url → ∃ keys, fetched = .ok keys

/-- The row after a PATCH by itself. -/
theorem patch_alone {clientId : JsString} {s : Clients} {row : ClientColumns}
    (hs : s clientId = some row) (body : Body) (fetched : Fetched) :
    ∃ after, ((patchClient P clientId body).alone clientServer fetched s).2 clientId = some after ∧
      (Writes P body row fetched →
        after.redirectUris = (asked P body row).columns.redirectUris ∧
          after.eventsUri = (asked P body row).columns.eventsUri) ∧
      (¬Writes P body row fetched → after = row) := by
  have hselect : (patchClient P clientId body).alone clientServer fetched s =
      (if (validateClientInput P (merge P row body)).1 ≠ [] then
          pure (.errors (validateClientInput P (merge P row body)).1)
        else writeClient clientId row body (asked P body row) :
        Handler Response).alone clientServer fetched s := by
    have hread : clientServer.perform fetched (.selectClient clientId) s = (some (some row), s) := by
      rw [← hs]
      rfl
    rw [patchClient, await, alone_await_bind, hread]
    rfl
  have hupdate : ∀ value : ClientInput,
      ((updateClient clientId value).alone clientServer fetched s).2 clientId =
        some value.columns := by
    intro value
    have hwritten : ((updateClient clientId value).alone clientServer fetched s).2 =
        s.update clientId fun _ => value.columns := rfl
    rw [hwritten, Clients.update, Function.update_self, hs, Option.map_some]
  rw [hselect]
  by_cases haccepts : Accepts P body row
  · have hvalid : ¬(validateClientInput P (merge P row body)).1 ≠ [] := not_not.mpr haccepts
    rw [if_neg hvalid, writeClient]
    cases hfetch : refetches row body (asked P body row) with
    | none =>
      exact ⟨_, hupdate _, fun _ => ⟨rfl, rfl⟩, fun hnot => (hnot ⟨haccepts, by simp [hfetch]⟩).elim⟩
    | some url =>
      dsimp only
      rw [fetchAndUpdate, await, alone_await_bind]
      cases fetched with
      | error text =>
        refine ⟨row, hs, fun hwrites => ?_, fun _ => rfl⟩
        obtain ⟨keys, hkeys⟩ := hwrites.2 url hfetch
        cases hkeys
      | ok keys =>
        exact ⟨_, hupdate { asked P body row with jwks := some keys }, fun _ => ⟨rfl, rfl⟩,
          fun hnot => (hnot ⟨haccepts, fun _ _ => ⟨keys, rfl⟩⟩).elim⟩
  · have hinvalid : (validateClientInput P (merge P row body)).1 ≠ [] := haccepts
    rw [if_pos hinvalid]
    exact ⟨row, hs, fun hwrites => (haccepts hwrites.1).elim, fun _ => rfl⟩

/-- Both normalizations keep what they returned. A URL comes back from the form just when the
parser keeps hostname and path, and an edit that sets neither keeps the URLs of the row just
when it writes nothing or all of them come back. -/
theorem client_urls (hP : Parses std P) :
    (∀ input, (normalizeHostname P input).error = none →
      normalizeHostname P (normalizeHostname P input).value =
        ⟨(normalizeHostname P input).value, none⟩) ∧
    (∀ input hostname required, (normalizePath P input hostname required).error = none →
      normalizePath P (normalizePath P input hostname required).value hostname required =
        ⟨(normalizePath P input hostname required).value, none⟩) ∧
    (∀ name input required, (normalizeHostname P name).error = none →
      let h := (normalizeHostname P name).value
      (normalizePath P input h required).error = none →
      let p := (normalizePath P input h required).value
      (RoundTrips P h p ↔ std.host h = some h ∧ PlainPath std p)) ∧
    ∀ form fetched created, insertedRow P form fetched = some created →
      ∀ row : ClientColumns, row.redirectUris = created.redirectUris →
        row.eventsUri = created.eventsUri →
      ∀ body, Unrelated body → ∀ clientId keys (s : Clients), s clientId = some row →
        ((∃ after, ((patchClient P clientId body).alone clientServer keys s).2 clientId =
            some after ∧ after.redirectUris = row.redirectUris ∧ after.eventsUri = row.eventsUri) ↔
          ¬Writes P body row keys ∨ PlainForm std (validateClientInput P (posted form)).2) := by
  refine ⟨fun input h => normalizeHostname_of_name hP (isHostname_of_normalize h),
    fun input hostname required h => ?_, fun name input required hname h => ?_,
    fun form fetched created hcreated row hredirects hevents body hbody clientId keys s hs => ?_⟩
  · rcases normalizePath_cases hP h with ⟨hempty, hrequired⟩ | hpath
    · rw [hempty, hrequired]
      rfl
    · exact normalizePath_of_path hpath P hostname required
  · refine roundTrips_iff hP (isHostname_of_normalize hname) ?_
    exact (normalizePath_cases hP h).imp_left And.left
  · obtain ⟨hvalid, hcomposed⟩ := composed_inserted hcreated
    have hrow : Composed row (validateClientInput P (posted form)).2 :=
      ⟨hredirects.trans hcomposed.redirectUris, hevents.trans hcomposed.eventsUri⟩
    obtain ⟨after, hafter, hwritten, hleft⟩ := patch_alone (P := P) hs body keys
    have hform := isForm_of_validated hP hvalid
    by_cases hwrites : Writes P body row keys
    · have hiff := unchanged_iff hP hform hrow hbody hwrites.1
      obtain ⟨hafterRedirects, hafterEvents⟩ := hwritten hwrites
      rw [← hafterRedirects, ← hafterEvents] at hiff
      simp only [hwrites, not_true_eq_false, false_or, ← hiff, hafter, Option.some.injEq,
        exists_eq_left']
    · obtain rfl := hleft hwrites
      simp [hwrites, hafter]

end Edits

section Examples

open WebUrls (Standard)

/-- Hosts that are names. -/
def namedHosts : Standard where
  host h := if isHostname h then some h else none
  pathSet := WebUrls.pathEscapes
  querySet := WebUrls.queryEscapes
  fragmentSet := WebUrls.fragmentEscapes

/-- The parser for https URLs of printable ASCII. -/
def httpsParser : Primitives where
  parseUrl s :=
    if (js "https://").isPrefixOf s ∧ ∀ u ∈ s.drop 8, 0x21 ≤ u ∧ u ≤ 0x7e then
      (WebUrls.readAbsolute namedHosts (js "https") 443 (s.drop 8)).map view
    else none
  toLowerCase s := s.map WebUrls.lowerUnit

theorem httpsParser_parses : Parses namedHosts httpsParser where
  https s hs := by
    have hdrop : (js "https://" ++ s).drop 8 = s := rfl
    exact if_pos ⟨List.isPrefixOf_iff_prefix.mpr (List.prefix_append ..), hdrop ▸ hs⟩
  forward s u hback hparse := by
    obtain ⟨⟨-, hprintable⟩, hparse⟩ := Option.ite_none_right_eq_some.mp hparse
    obtain ⟨url, hurl, rfl⟩ := Option.map_eq_some_iff.mp hparse
    obtain ⟨origin, -, rfl⟩ := Option.map_eq_some_iff.mp hurl
    intro hmem
    have hsub : ∀ v ∈ ((s.drop 8).dropWhile WebUrls.isSlashUnit).dropWhile
        (fun u => !WebUrls.isPathEnd u), v ∈ s.drop 8 := fun v hv =>
      (List.dropWhile_suffix _).subset ((List.dropWhile_suffix _).subset hv)
    rcases WebUrls.mem_shown (fun v hv => by have := hprintable v (hsub v hv); omega) 0x5c hmem with
      hin | hplain
    · exact hback (List.mem_of_mem_drop (hsub _ hin))
    · exact absurd hplain (by decide)
  host s h _ hhost := by
    obtain ⟨hname, hsame⟩ := Option.ite_none_right_eq_some.mp hhost
    exact Option.some.inj hsame ▸ hname
  lower _ _ := rfl

/-- A client with one redirect path. -/
def sampleForm (path : String) : Body :=
  [(js "client_id", .str (js "app")), (js "name", .str (js "App")),
    (js "hostname", .str (js "app.example.com")),
    (js "redirect_paths", .arr [.str (js path)]),
    (js "jwks", .obj [(js "keys", .arr [.obj []])]),
    (js "allowed_scopes", .arr [.str (js "openid")]), (js "is_first_party", .bool false),
    (js "entry_policy", .str (js "opt_in"))]

def rename : Body := [(js "name", .str (js "New name"))]

/-- The redirect URLs before and after a new name. -/
def renamed (path : String) : Option (List JsString × Option (List JsString)) :=
  (insertedRow httpsParser (sampleForm path) (.error [])).map fun row =>
    (row.redirectUris,
      (((patchClient httpsParser (js "app") rename).alone clientServer (.error [])
        fun _ => some row).2 (js "app")).map ClientColumns.redirectUris)

/-- A fragment is accepted and lost with the first edit. -/
theorem fragment_lost :
    normalizePath httpsParser (js "/cb#done") (js "app.example.com") true =
        ⟨js "/cb#done", none⟩ ∧
      ¬RoundTrips httpsParser (js "app.example.com") (js "/cb#done") ∧
      renamed "/cb#done" = some ([js "https://app.example.com/cb#done"],
        some [js "https://app.example.com/cb"]) := by
  refine ⟨by decide +kernel, ?_, by decide +kernel⟩
  rintro ⟨q, hq, hcompose⟩
  have hdecomposed : decomposeUrl httpsParser (composeUrl (js "app.example.com") (js "/cb#done"))
      (js "app.example.com") = some (js "/cb") := by decide +kernel
  obtain rfl := Option.some.inj (hdecomposed.symm.trans hq)
  exact absurd hcompose (by decide +kernel)

/-- A path with a query is kept, and with it the URL of its client. -/
theorem client_urls_query :
    PlainPath namedHosts (js "/cb?from=app") ∧
      ∃ created, insertedRow httpsParser (sampleForm "/cb?from=app") (.error []) = some created ∧
        ∃ after, ((patchClient httpsParser (js "app") rename).alone clientServer (.error [])
            fun _ => some created).2 (js "app") = some after ∧
          after.redirectUris = created.redirectUris ∧ after.eventsUri = created.eventsUri := by
  obtain ⟨-, -, hroundTrips, hedits⟩ := client_urls httpsParser_parses
  have hplain : namedHosts.host (js "app.example.com") = some (js "app.example.com") ∧
      PlainPath namedHosts (js "/cb?from=app") := by
    refine (hroundTrips (js "app.example.com") (js "/cb?from=app") true (by decide +kernel)
      (by decide +kernel)).mp ⟨js "/cb?from=app", by decide +kernel, by decide +kernel⟩
  obtain ⟨created, hcreated⟩ := Option.isSome_iff_exists.mp
    (by decide +kernel : (insertedRow httpsParser (sampleForm "/cb?from=app") (.error [])).isSome = true)
  have hunrelated : Unrelated rename := by
    unfold Unrelated
    decide
  refine ⟨hplain.2, created, hcreated, (hedits _ _ created hcreated created rfl rfl rename
    hunrelated (js "app") _ _ rfl).mpr (.inr ⟨hplain.1, ?_⟩)⟩
  have hpaths : (validateClientInput httpsParser (posted (sampleForm "/cb?from=app"))).2.redirectPaths ++
      (validateClientInput httpsParser (posted (sampleForm "/cb?from=app"))).2.eventsPath.toList =
        [js "/cb?from=app"] := by decide +kernel
  intro path hpath
  rw [hpaths, List.mem_singleton] at hpath
  exact hpath ▸ hplain.2

end Examples

end DreamSso.ClientForm
