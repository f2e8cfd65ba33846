import DreamSso.Library.JsonValues
import DreamSso.Library.UriComponents
import Mathlib.Data.List.Infix

/-!
Where a login returns to: the path of the account console that the caller gives, and the
path of the admin console, which is one of its routes.
-/
namespace DreamSso.ReturnPaths

open JsStrings JsonValues UriComponents WebUrls

-- account/server/src/routes/auth.ts

def sanitizeReturnTo : Json → JsString
  | .str rt =>
      if ¬(js "/").isPrefixOf rt ∨ (js "//").isPrefixOf rt ∨ backslash ∈ rt ∨ js "://" <:+: rt ∨
          rt.any (fun u => decide (u ≤ 0x1f)) then js "/"
      else rt
  | _ => js "/"

-- adminReturnPath.ts

def isClientIdStart (u : ℕ) : Bool := decide (0x61 ≤ u ∧ u ≤ 0x7a) || isDigitUnit u

def isClientIdUnit (u : ℕ) : Bool := isClientIdStart u || decide (u = 0x5f) || decide (u = 0x2d)

/-- `[a-z0-9][a-z0-9_-]{0,63}` -/
def isClientId (s : JsString) : Bool :=
  (s.head?.any isClientIdStart) && s.tail.all isClientIdUnit && decide (s.length ≤ 64)

def dropFinalSlash (s : JsString) : JsString := if s.getLast? = some slash then s.dropLast else s

/-- The expression `^\/admin(?:\/(?:clients(?:\/…)?|keys|settings))?\/?$`. -/
def isAdminPath (path : JsString) : Bool :=
  let body := dropFinalSlash path
  decide (body ∈ [js "/admin", js "/admin/clients", js "/admin/keys", js "/admin/settings"]) ||
    ((js "/admin/clients/").isPrefixOf body && isClientId (body.drop (js "/admin/clients/").length))

/-- `[\\\u0000-\u0020\u007f]` -/
def isRefusedUnit (u : ℕ) : Bool := decide (u = backslash) || decide (u ≤ 0x20) || decide (u = 0x7f)

def adminReturnPath : Json → JsString
  | .str value =>
      if 512 < value.length ∨ value.any isRefusedUnit then js "/admin"
      else match decodeURIComponent value with
        | none => js "/admin"
        | some path => if isAdminPath path then path else js "/admin"
  | _ => js "/admin"

/-- What a returned path of the account console is. -/
structure SafePath (rt : JsString) : Prop where
  rooted : (js "/").isPrefixOf rt = true
  single : (js "//").isPrefixOf rt = false
  forward : backslash ∉ rt
  schemeless : ¬js "://" <:+: rt
  printable : ∀ u ∈ rt, 0x20 ≤ u

theorem sanitizeReturnTo_of_safe {rt : JsString} (h : SafePath rt) :
    sanitizeReturnTo (.str rt) = rt := by
  have hcontrol : rt.any (fun u => decide (u ≤ 0x1f)) = false := by
    apply List.any_eq_false.mpr
    intro u hu
    have := h.printable u hu
    simp only [decide_eq_true_eq]
    omega
  exact if_neg (by simp [h.rooted, h.single, h.forward, h.schemeless, hcontrol])

theorem safePath_root : SafePath (js "/") := by
  constructor <;> decide

theorem safePath_sanitizeReturnTo (value : Json) : SafePath (sanitizeReturnTo value) := by
  cases value with
  | str rt =>
    simp only [sanitizeReturnTo]
    split_ifs with hrefused
    · exact safePath_root
    · simp only [not_or, Bool.not_eq_true, Bool.not_eq_false, List.any_eq_true, decide_eq_true_eq,
        not_exists, not_and] at hrefused
      obtain ⟨hrooted, hsingle, hforward, hschemeless, hcontrol⟩ := hrefused
      refine ⟨hrooted, hsingle, hforward, hschemeless, fun u hu => ?_⟩
      have := hcontrol u hu
      omega
  | _ => exact safePath_root

theorem SafePath.exists_rest {rt : JsString} (h : SafePath rt) :
    ∃ rest, rt = slash :: rest ∧ ∀ u ∈ rest.head?, isSlashUnit u = false := by
  obtain ⟨rest, rfl⟩ := List.isPrefixOf_iff_prefix.mp h.rooted
  refine ⟨rest, rfl, fun u hu => ?_⟩
  obtain ⟨behind, rfl⟩ := List.head?_eq_some_iff.mp hu
  have hslash : u ≠ slash := by
    rintro rfl
    exact Bool.false_ne_true (h.single.symm.trans (by simp [js_eq, charUnits, slash]))
  have hback : u ≠ backslash := by
    rintro rfl
    exact h.forward (by simp)
  simp [isSlashUnit, hslash, hback]

/-- The routes of the admin console. -/
inductive ConsoleRoute : JsString → Prop
  | admin : ConsoleRoute (js "/admin")
  | clients : ConsoleRoute (js "/admin/clients")
  | client {id : JsString} (h : isClientId id = true) : ConsoleRoute (js "/admin/clients/" ++ id)
  | keys : ConsoleRoute (js "/admin/keys")
  | settings : ConsoleRoute (js "/admin/settings")

/-- A route as the browser may show it. -/
def IsRoutePath (path : JsString) : Prop :=
  ∃ route, ConsoleRoute route ∧ (path = route ∨ path = route ++ [slash])

theorem isRoutePath_of_isAdminPath {path : JsString} (h : isAdminPath path = true) :
    IsRoutePath path := by
  have hbody : path = dropFinalSlash path ∨ path = dropFinalSlash path ++ [slash] := by
    unfold dropFinalSlash
    split_ifs with hlast
    · exact .inr (List.dropLast_append_getLast? slash hlast).symm
    · exact .inl rfl
  refine ⟨dropFinalSlash path, ?_, hbody⟩
  simp only [isAdminPath, Bool.or_eq_true, decide_eq_true_eq, Bool.and_eq_true, List.mem_cons,
    List.not_mem_nil, or_false] at h
  rcases h with (h | h | h | h) | ⟨hstart, hid⟩
  · exact h ▸ .admin
  · exact h ▸ .clients
  · exact h ▸ .keys
  · exact h ▸ .settings
  · obtain ⟨id, hbody⟩ := List.isPrefixOf_iff_prefix.mp hstart
    rw [← hbody, List.drop_left] at hid
    exact hbody ▸ .client hid

def isRouteUnit (u : ℕ) : Bool := isClientIdUnit u || decide (u = slash)

theorem isClientId_units {id : JsString} (h : isClientId id = true) :
    (∀ u ∈ id, isClientIdUnit u = true) ∧ id.length ≤ 64 := by
  simp only [isClientId, Bool.and_eq_true, decide_eq_true_eq, List.all_eq_true] at h
  obtain ⟨⟨hhead, htail⟩, hlength⟩ := h
  refine ⟨fun u hu => ?_, hlength⟩
  cases id with
  | nil => cases hu
  | cons first rest =>
    rcases List.mem_cons.mp hu with rfl | hu
    · have hstart : isClientIdStart u = true := hhead
      simp [isClientIdUnit, hstart]
    · exact htail u hu

theorem ConsoleRoute.units {route : JsString} (h : ConsoleRoute route) :
    (∀ u ∈ route, isRouteUnit u = true) ∧ route.length ≤ 80 := by
  cases h with
  | client hid =>
    obtain ⟨hunits, hlength⟩ := isClientId_units hid
    refine ⟨fun u hu => ?_, ?_⟩
    · rcases List.mem_append.mp hu with hfront | hback
      · exact (by decide : ∀ u ∈ js "/admin/clients/", isRouteUnit u = true) u hfront
      · simp [isRouteUnit, hunits u hback]
    · have hfront : (js "/admin/clients/").length = 15 := by decide
      rw [List.length_append]
      omega
  | _ => decide

/-- What a path of a route is made of. -/
theorem IsRoutePath.units {path : JsString} (h : IsRoutePath path) :
    (∀ u ∈ path, isRouteUnit u = true) ∧ path.length ≤ 81 := by
  obtain ⟨route, hroute, rfl | rfl⟩ := h
  · exact ⟨hroute.units.1, by have := hroute.units.2; omega⟩
  · refine ⟨fun u hu => ?_, ?_⟩
    · rcases List.mem_append.mp hu with hu | hu
      · exact hroute.units.1 u hu
      · rw [List.mem_singleton.mp hu]
        decide
    · have := hroute.units.2
      rw [List.length_append, List.length_singleton]
      omega

theorem isRouteUnit_spec {u : ℕ} (h : isRouteUnit u = true) :
    isPlainUnit u = true ∧ u ≠ 0x2e ∧ u ≠ 0x25 ∧ 0x21 ≤ u ∧ isRefusedUnit u = false ∧
      u ≠ question ∧ u ≠ numberSign := by
  have hmarks : slash = 0x2f ∧ backslash = 0x5c ∧ question = 0x3f ∧ numberSign = 0x23 :=
    ⟨rfl, rfl, rfl, rfl⟩
  simp only [isRouteUnit, isClientIdUnit, isClientIdStart, isDigitUnit, Bool.or_eq_true,
    Bool.and_eq_true, decide_eq_true_eq] at h
  simp only [isPlainUnit, isAlphaUnit, isDigitUnit, isRefusedUnit,
    Bool.or_eq_true, Bool.and_eq_true, decide_eq_true_eq, List.contains_eq_mem, List.mem_cons,
    List.not_mem_nil, or_false, Bool.or_eq_false_iff, decide_eq_false_iff_not]
  omega

theorem IsRoutePath.exists_rest {path : JsString} (h : IsRoutePath path) :
    ∃ rest, path = slash :: rest ∧ ∀ u ∈ rest.head?, isSlashUnit u = false := by
  obtain ⟨route, hroute, hpath⟩ := h
  have hfront : ∃ rest, route = slash :: 0x61 :: rest := by
    cases hroute with
    | client hid => exact ⟨_, rfl⟩
    | _ => exact ⟨_, rfl⟩
  obtain ⟨rest, rfl⟩ := hfront
  rcases hpath with rfl | rfl
  · exact ⟨_, rfl, by simp [isSlashUnit, slash, backslash]⟩
  · exact ⟨_, rfl, by simp [isSlashUnit, slash, backslash]⟩

theorem adminReturnPath_of_route {path : JsString} (h : IsRoutePath path)
    (hadmin : isAdminPath path = true) : adminReturnPath (.str path) = path := by
  obtain ⟨hunits, hlength⟩ := h.units
  have hrefused : ¬(512 < path.length ∨ path.any isRefusedUnit = true) := by
    rintro (hlong | hany)
    · omega
    · obtain ⟨u, hu, hbad⟩ := List.any_eq_true.mp hany
      simp [(isRouteUnit_spec (hunits u hu)).2.2.2.2.1] at hbad
  have hdecoded : decodeURIComponent path = some path :=
    decodeURIComponent_plain fun hmem => (isRouteUnit_spec (hunits _ hmem)).2.2.1 rfl
  simp only [adminReturnPath, if_neg hrefused, hdecoded, if_pos hadmin]

theorem isAdminPath_adminReturnPath (value : Json) : isAdminPath (adminReturnPath value) = true := by
  have hroot : isAdminPath (js "/admin") = true := by decide
  cases value with
  | str text =>
    simp only [adminReturnPath]
    split_ifs
    · exact hroot
    · cases decodeURIComponent text with
      | none => exact hroot
      | some path =>
        by_cases hpath : isAdminPath path = true
        · simpa only [if_pos hpath] using hpath
        · simpa only [if_neg hpath] using hroot
  | _ => exact hroot

section Resolution

variable (std : Standard) (other : JsString → Option Url)

/-- The root of an https origin. -/
def site (host : JsString) (port : Option ℕ) : Url := ⟨⟨js "https", host, port⟩, [[]], none, none⟩

theorem resolve_safePath {rt : JsString} (h : SafePath rt) (base : Url) :
    ∃ url, resolve std 443 other base rt = some url ∧ url.origin = base.origin := by
  obtain ⟨rest, rfl, hone⟩ := h.exists_rest
  exact ⟨_, resolve_rooted (fun u hu => h.printable u (List.mem_cons_of_mem slash hu)) hone, rfl⟩

theorem resolve_routePath {path : JsString} (h : IsRoutePath path) (base : Url) :
    ∃ url, resolve std 443 other base path = some url ∧ url.origin = base.origin ∧
      url.pathname = path ∧ url.query = none ∧ url.fragment = none := by
  obtain ⟨hunits, -⟩ := h.units
  obtain ⟨rest, rfl, hone⟩ := h.exists_rest
  have hspec : ∀ u ∈ rest, _ := fun u hu =>
    isRouteUnit_spec (hunits u (List.mem_cons_of_mem slash hu))
  have hend : rest.rdropWhile isControlOrSpace = rest := by
    refine List.rdropWhile_eq_self_iff.mpr fun hne => ?_
    have hlast := (hspec _ (List.getLast_mem hne)).2.2.2.1
    simp only [isControlOrSpace, decide_eq_true_eq]
    omega
  have hresolved : resolve std 443 other base (slash :: rest) =
      some (readRest std base.origin (referencePath std base)
        (slash :: rest.rdropWhile isControlOrSpace)) :=
    resolve_rooted (fun u hu => by have := (hspec u hu).2.2.2.1; omega) hone
  rw [hend, readRest_path] at hresolved
  · refine ⟨_, hresolved, rfl, ?_, rfl, rfl⟩
    exact pathText_readPath_plain fun u hu => ⟨(hspec u hu).1, (hspec u hu).2.1, (hspec u hu).2.2.1⟩
  · exact fun hmem => (isRouteUnit_spec (hunits _ hmem)).2.2.2.2.2.1 rfl
  · exact fun hmem => (isRouteUnit_spec (hunits _ hmem)).2.2.2.2.2.2 rfl

/-- For every value and every https origin: both paths resolve to the origin, the one of the
admin console to one of its routes, and both functions leave what they returned. -/
theorem return_paths (host : JsString) (port : Option ℕ) (value : Json) :
    (∃ url, resolve std 443 other (site host port) (sanitizeReturnTo value) = some url ∧
      url.origin = ⟨js "https", host, port⟩) ∧
    (∃ url, resolve std 443 other (site host port) (adminReturnPath value) = some url ∧
      url.origin = ⟨js "https", host, port⟩ ∧ IsRoutePath url.pathname) ∧
    sanitizeReturnTo (.str (sanitizeReturnTo value)) = sanitizeReturnTo value ∧
    adminReturnPath (.str (adminReturnPath value)) = adminReturnPath value := by
  have hsafe := safePath_sanitizeReturnTo value
  have hadmin := isAdminPath_adminReturnPath value
  have hroute := isRoutePath_of_isAdminPath hadmin
  refine ⟨resolve_safePath std other hsafe _, ?_, sanitizeReturnTo_of_safe hsafe,
    adminReturnPath_of_route hroute hadmin⟩
  obtain ⟨url, hurl, horigin, hpath, -⟩ := resolve_routePath std other hroute (site host port)
  exact ⟨url, hurl, horigin, hpath ▸ hroute⟩

end Resolution

end DreamSso.ReturnPaths
