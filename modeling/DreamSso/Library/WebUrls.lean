import DreamSso.Library.JsStrings
import Mathlib.Data.List.DropRight

/-!
The URL parser of browsers and of JavaScript runtimes for schemes with a host: cleaning of
the input, authority, path with its dot segments, query and fragment, and references that
are resolved against a base. Hosts are left to a parameter, and so is the choice of what a
path and a query escape.
-/
namespace WebUrls

open JsStrings

def slash : ℕ := 0x2f

def backslash : ℕ := 0x5c

def question : ℕ := 0x3f

def numberSign : ℕ := 0x23

def isAlphaUnit (u : ℕ) : Bool :=
  decide (0x41 ≤ u ∧ u ≤ 0x5a) || decide (0x61 ≤ u ∧ u ≤ 0x7a)

/-- A letter, a digit or one of `%`, `-`, `.`, `/`, `_` and `~`. -/
def isPlainUnit (u : ℕ) : Bool :=
  isAlphaUnit u || isDigitUnit u || [0x25, 0x2d, 0x2e, 0x2f, 0x5f, 0x7e].contains u

/-- The ASCII characters that are escaped, besides the controls. -/
structure EscapeSet where
  contains : ℕ → Bool
  plain : ∀ u, isPlainUnit u = true → contains u = false

def EscapeSet.escapes (set : EscapeSet) (p : ℕ) : Bool :=
  decide (p < 0x20) || decide (0x7e < p) || set.contains p

/-- The bytes of a code point; a lone surrogate has those of U+FFFD. -/
def utf8 (p : ℕ) : List ℕ :=
  if p < 0x80 then [p]
  else if p < 0x800 then [0xc0 + p / 0x40, 0x80 + p % 0x40]
  else if 0xd800 ≤ p ∧ p < 0xe000 then [0xef, 0xbf, 0xbd]
  else if p < 0x10000 then [0xe0 + p / 0x1000, 0x80 + p / 0x40 % 0x40, 0x80 + p % 0x40]
  else [0xf0 + p / 0x40000, 0x80 + p / 0x1000 % 0x40, 0x80 + p / 0x40 % 0x40, 0x80 + p % 0x40]

def upperHexDigit (n : ℕ) : ℕ := if n < 10 then 0x30 + n else 0x37 + n

def escapeByte (b : ℕ) : JsString := [0x25, upperHexDigit (b / 16), upperHexDigit (b % 16)]

def encodePoint (set : EscapeSet) (p : ℕ) : JsString :=
  if set.escapes p then (utf8 p).flatMap escapeByte else [p]

def percentEncode (set : EscapeSet) (s : JsString) : JsString :=
  (codePoints s).flatMap (encodePoint set)

def lowerUnit (u : ℕ) : ℕ := if 0x41 ≤ u ∧ u ≤ 0x5a then u + 0x20 else u

def isSingleDot (segment : JsString) : Bool :=
  decide (segment.map lowerUnit ∈ [js ".", js "%2e"])

def isDoubleDot (segment : JsString) : Bool :=
  decide (segment.map lowerUnit ∈ [js "..", js ".%2e", js "%2e.", js "%2e%2e"])

/-- What one segment does to the path. A dot segment at the end leaves an empty one. -/
def stepSegment (set : EscapeSet) (path : List JsString) (last : Bool) (segment : JsString) :
    List JsString :=
  let ending := if last then [[]] else []
  if isDoubleDot segment then path.dropLast ++ ending
  else if isSingleDot segment then path ++ ending
  else path ++ [percentEncode set segment]

def walkSegments (set : EscapeSet) (path : List JsString) : List JsString → List JsString
  | [] => path
  | [segment] => stepSegment set path true segment
  | segment :: segments => walkSegments set (stepSegment set path false segment) segments

/-- The path behind its first slash, from a path that is already there. -/
def readPath (set : EscapeSet) (path : List JsString) (s : JsString) : List JsString :=
  walkSegments set path ((s.map fun u => if u = backslash then slash else u).splitOn slash)

structure Origin where
  scheme : JsString
  host : JsString
  port : Option ℕ
  deriving DecidableEq

structure Url where
  origin : Origin
  path : List JsString
  query : Option JsString
  fragment : Option JsString
  deriving DecidableEq

def pathText (path : List JsString) : JsString := path.flatMap fun segment => slash :: segment

def Url.pathname (u : Url) : JsString := pathText u.path

/-- The query with its mark, empty without one or when nothing is behind the mark. -/
def Url.search (u : Url) : JsString :=
  match u.query with
  | none | some [] => []
  | some query => question :: query

/-- What the parser is given: the host parser and what each part escapes. -/
structure Standard where
  host : JsString → Option JsString
  pathSet : EscapeSet
  querySet : EscapeSet
  fragmentSet : EscapeSet

theorem not_contains_of_plain {marks : List ℕ} (h : ∀ u ∈ marks, isPlainUnit u = false) (u : ℕ)
    (hu : isPlainUnit u = true) : marks.contains u = false := by
  rw [Bool.eq_false_iff]
  intro hmem
  rw [h u (List.contains_iff_mem.mp hmem)] at hu
  cases hu

/-- Space and the marks `"#<>?` with the accent and the braces. The caret stays. -/
def pathEscapes : EscapeSet where
  contains := [0x20, 0x22, 0x23, 0x3c, 0x3e, 0x3f, 0x60, 0x7b, 0x7d].contains
  plain := not_contains_of_plain (by decide)

def queryEscapes : EscapeSet where
  contains := [0x20, 0x22, 0x23, 0x27, 0x3c, 0x3e].contains
  plain := not_contains_of_plain (by decide)

def fragmentEscapes : EscapeSet where
  contains := [0x20, 0x22, 0x3c, 0x3e, 0x60].contains
  plain := not_contains_of_plain (by decide)

def isControlOrSpace (u : ℕ) : Bool := decide (u ≤ 0x20)

def isTabOrNewline (u : ℕ) : Bool := [0x09, 0x0a, 0x0d].contains u

/-- The input without controls and spaces at its ends and without tabs and newlines. -/
def cleaned (s : JsString) : JsString :=
  ((s.dropWhile isControlOrSpace).rdropWhile isControlOrSpace).filter fun u => !isTabOrNewline u

/-- The text before the first mark, and what is behind the mark if there is one. -/
def splitMark (mark : ℕ) : JsString → JsString × Option JsString
  | [] => ([], none)
  | u :: rest =>
      if u = mark then ([], some rest)
      else (u :: (splitMark mark rest).1, (splitMark mark rest).2)

/-- Path, query and fragment of an input, at an origin. -/
def readRest (std : Standard) (origin : Origin) (path : JsString → List JsString) (s : JsString) :
    Url :=
  let (front, fragment) := splitMark numberSign s
  let (text, query) := splitMark question front
  { origin := origin
    path := path text
    query := query.map (percentEncode std.querySet)
    fragment := fragment.map (percentEncode std.fragmentSet) }

def isSlashUnit (u : ℕ) : Bool := decide (u = slash) || decide (u = backslash)

def isPathEnd (u : ℕ) : Bool := isSlashUnit u || decide (u = question) || decide (u = numberSign)

/-- The port behind a host; `none` when the text is no port. -/
def readPort (standardPort : ℕ) (text : JsString) : Option (Option ℕ) :=
  if text.all isDigitUnit then
    if text = [] ∨ digitsValue text = standardPort then some none
    else if digitsValue text < 0x10000 then some (some (digitsValue text)) else none
  else none

/-- Host and port of an authority. A colon inside brackets does not end the host. -/
def readAuthority (std : Standard) (scheme : JsString) (standardPort : ℕ) (authority : JsString) :
    Option Origin :=
  let hostPort := authority.rtakeWhile (· ≠ 0x40)
  let bracketed := if hostPort.head? = some 0x5b then hostPort.takeWhile (· ≠ 0x5d) else []
  let rest := hostPort.drop bracketed.length
  let (name, port) := splitMark 0x3a rest
  if bracketed ++ name = [] then none
  else do
    let host ← std.host (bracketed ++ name)
    let port ← readPort standardPort (port.getD [])
    some ⟨scheme, host, port⟩

/-- The path of an absolute URL; an empty one is the root. -/
def absolutePath (std : Standard) : JsString → List JsString
  | [] => [[]]
  | u :: rest => readPath std.pathSet [] (if isSlashUnit u then rest else u :: rest)

/-- What is behind the slashes of a URL with a host. -/
def readAbsolute (std : Standard) (scheme : JsString) (standardPort : ℕ) (s : JsString) :
    Option Url :=
  let s := s.dropWhile isSlashUnit
  (readAuthority std scheme standardPort (s.takeWhile fun u => !isPathEnd u)).map fun origin =>
    readRest std origin (absolutePath std) (s.dropWhile fun u => !isPathEnd u)

/-- The scheme in front of an input, in lower case, and what is behind its colon. -/
def readScheme (s : JsString) : Option (JsString × JsString) :=
  let name := s.takeWhile fun u => isAlphaUnit u || isDigitUnit u || [0x2b, 0x2d, 0x2e].contains u
  if (name.head?.any isAlphaUnit) && decide ((s.drop name.length).head? = some 0x3a) then
    some (name.map lowerUnit, s.drop (name.length + 1))
  else none

/-- The path of a reference that starts with a path of its own. -/
def referencePath (std : Standard) (base : Url) : JsString → List JsString
  | [] => base.path
  | u :: rest =>
      if isSlashUnit u then readPath std.pathSet [] rest
      else readPath std.pathSet base.path.dropLast (u :: rest)

/-- A reference without a scheme of its own. -/
def resolveReference (std : Standard) (standardPort : ℕ) (base : Url) (s : JsString) :
    Option Url :=
  if (s.take 2).all isSlashUnit ∧ 2 ≤ s.length then
    readAbsolute std base.origin.scheme standardPort s
  else
    let url := readRest std base.origin (referencePath std base) s
    if (s.takeWhile fun u => !([question, numberSign].contains u)) = [] ∧ url.query = none then
      some { url with query := base.query }
    else some url

/-- The URL of an input at a base whose scheme has hosts. `other` reads what names a scheme
that is not the one of the base. -/
def resolve (std : Standard) (standardPort : ℕ) (other : JsString → Option Url) (base : Url)
    (input : JsString) : Option Url :=
  match readScheme (cleaned input) with
  | none => resolveReference std standardPort base (cleaned input)
  | some (scheme, rest) =>
      if scheme = base.origin.scheme then resolveReference std standardPort base rest
      else other (cleaned input)

/-- The mark and what is behind it. -/
def markText (mark : ℕ) : Option JsString → JsString
  | none => []
  | some s => mark :: s

theorem splitMark_text (mark : ℕ) (s : JsString) :
    (splitMark mark s).1 ++ markText mark (splitMark mark s).2 = s := by
  induction s with
  | nil => rfl
  | cons u rest ih =>
    rw [splitMark]
    split_ifs with hu
    · rw [hu]
      rfl
    · rw [List.cons_append, ih]

theorem not_mem_splitMark (mark : ℕ) (s : JsString) : mark ∉ (splitMark mark s).1 := by
  induction s with
  | nil => simp [splitMark]
  | cons u rest ih =>
    rw [splitMark]
    split_ifs with hu
    · simp
    · simp only [List.mem_cons, not_or]
      exact ⟨fun heq => hu heq.symm, ih⟩

theorem splitMark_of_not_mem {mark : ℕ} {s : JsString} (h : mark ∉ s) (rest : Option JsString) :
    splitMark mark (s ++ markText mark rest) = (s, rest) := by
  induction s with
  | nil =>
    cases rest with
    | none => rfl
    | some rest => simp [markText, splitMark]
  | cons u s ih =>
    simp only [List.mem_cons, not_or] at h
    rw [List.cons_append, splitMark, if_neg fun heq : u = mark => h.1 heq.symm, ih h.2]

theorem lowerUnit_lt {u : ℕ} (hu : lowerUnit u < 0x41) : lowerUnit u = u := by
  unfold lowerUnit at hu ⊢
  split_ifs with hupper
  · rw [if_pos hupper] at hu
    omega
  · rfl

theorem mem_of_mem_lower {s : JsString} {u : ℕ} (hu : u < 0x41) (h : u ∈ s.map lowerUnit) : u ∈ s := by
  obtain ⟨v, hv, rfl⟩ := List.mem_map.mp h
  rwa [lowerUnit_lt hu]

/-- A segment that moves in the path has a point or an escape in it. -/
theorem dot_or_percent {segment : JsString}
    (h : isSingleDot segment = true ∨ isDoubleDot segment = true) :
    0x2e ∈ segment ∨ 0x25 ∈ segment := by
  have hlower : 0x2e ∈ segment.map lowerUnit ∨ 0x25 ∈ segment.map lowerUnit := by
    rcases h with h | h
    · obtain hdot | hdot := List.mem_pair.mp (of_decide_eq_true h)
      · exact .inl (by rw [hdot]; decide)
      · exact .inr (by rw [hdot]; decide)
    · have hdots := of_decide_eq_true h
      simp only [List.mem_cons, List.not_mem_nil, or_false] at hdots
      rcases hdots with hdots | hdots | hdots | hdots
      · exact .inl (by rw [hdots]; decide)
      · exact .inl (by rw [hdots]; decide)
      · exact .inl (by rw [hdots]; decide)
      · exact .inr (by rw [hdots]; decide)
  exact hlower.imp (mem_of_mem_lower (by omega)) (mem_of_mem_lower (by omega))

theorem codePoints_ascii {s : JsString} (h : ∀ u ∈ s, u < 0x80) : codePoints s = s := by
  induction s using codePoints.induct with
  | case1 => rfl
  | case2 u => rfl
  | case3 u v rest hpair ih =>
    have hu := h u List.mem_cons_self
    simp only [isHighSurrogate, Bool.and_eq_true, decide_eq_true_eq] at hpair
    omega
  | case4 u v rest hpair ih =>
    rw [codePoints, if_neg hpair, ih fun w hw => h w (List.mem_cons_of_mem u hw)]

theorem lt_of_unescaped {set : EscapeSet} {u : ℕ} (h : set.escapes u = false) : u < 0x80 := by
  simp only [EscapeSet.escapes, Bool.or_eq_false_iff, decide_eq_false_iff_not] at h
  omega

/-- A text without a character to escape stays as it is. -/
theorem percentEncode_unescaped {set : EscapeSet} {s : JsString}
    (h : ∀ u ∈ s, set.escapes u = false) : percentEncode set s = s := by
  unfold percentEncode
  rw [codePoints_ascii fun u hu => lt_of_unescaped (h u hu)]
  induction s with
  | nil => rfl
  | cons u rest ih =>
    have hu := h u List.mem_cons_self
    rw [List.flatMap_cons, ih fun v hv => h v (List.mem_cons_of_mem u hv)]
    simp [encodePoint, hu]

theorem EscapeSet.escapes_plain (set : EscapeSet) {u : ℕ} (h : isPlainUnit u = true) :
    set.escapes u = false := by
  have hrange : 0x20 ≤ u ∧ u ≤ 0x7e := by
    simp only [isPlainUnit, isAlphaUnit, isDigitUnit, Bool.or_eq_true, Bool.and_eq_true,
      decide_eq_true_eq, List.contains_eq_mem, List.mem_cons, List.not_mem_nil, or_false] at h
    omega
  simp only [EscapeSet.escapes, set.plain u h, Bool.or_false, Bool.or_eq_false_iff,
    decide_eq_false_iff_not]
  omega

/-- A segment that the path takes as it is. -/
structure Kept (set : EscapeSet) (segment : JsString) : Prop where
  single : isSingleDot segment = false
  double : isDoubleDot segment = false
  unescaped : ∀ u ∈ segment, set.escapes u = false

theorem stepSegment_kept {set : EscapeSet} {segment : JsString} (h : Kept set segment)
    (path : List JsString) (last : Bool) :
    stepSegment set path last segment = path ++ [segment] := by
  simp [stepSegment, h.single, h.double, percentEncode_unescaped h.unescaped]

theorem walkSegments_kept {set : EscapeSet} (segments : List JsString)
    (h : ∀ segment ∈ segments, Kept set segment) (path : List JsString) :
    walkSegments set path segments = path ++ segments := by
  induction path, segments using walkSegments.induct set with
  | case1 path => simp [walkSegments]
  | case2 path segment => exact stepSegment_kept (h segment List.mem_cons_self) path true
  | case3 path segment segments hne ih =>
    rw [walkSegments, ih fun other hother => h other (List.mem_cons_of_mem segment hother),
      stepSegment_kept (h segment List.mem_cons_self), List.append_assoc, List.singleton_append]
    exact hne

theorem pathText_eq (path : List JsString) (h : path ≠ []) :
    pathText path = slash :: [slash].intercalate path := by
  induction path with
  | nil => exact absurd rfl h
  | cons segment rest ih =>
    by_cases hrest : rest = []
    · subst hrest
      simp [pathText]
    · rw [List.intercalate_cons_of_ne_nil hrest]
      have htext : pathText (segment :: rest) = slash :: segment ++ pathText rest := rfl
      rw [htext, ih hrest]
      simp

/-- The segments of a text give the text again. -/
theorem pathText_splitOn (s : JsString) : pathText (s.splitOn slash) = slash :: s := by
  rw [pathText_eq _ (List.splitOn_ne_nil slash s), List.intercalate_splitOn]

theorem mem_of_mem_splitOn {s segment : JsString} {u : ℕ} (hsegment : segment ∈ s.splitOn slash)
    (hu : u ∈ segment) : u ∈ slash :: s := by
  rw [← pathText_splitOn]
  exact List.mem_flatMap.mpr ⟨segment, hsegment, List.mem_cons_of_mem slash hu⟩

theorem readPath_kept {set : EscapeSet} {s : JsString} (hback : backslash ∉ s)
    (h : ∀ segment ∈ s.splitOn slash, Kept set segment) (path : List JsString) :
    readPath set path s = path ++ s.splitOn slash := by
  have hslashes : s.map (fun u => if u = backslash then slash else u) = s.map id := by
    apply List.map_congr_left
    intro u hu
    exact if_neg fun heq : u = backslash => hback (heq ▸ hu)
  unfold readPath
  rw [hslashes, List.map_id]
  exact walkSegments_kept _ h path

/-- A text of plain characters without points and escapes is its own path. -/
theorem pathText_readPath_plain {set : EscapeSet} {s : JsString}
    (h : ∀ u ∈ s, isPlainUnit u = true ∧ u ≠ 0x2e ∧ u ≠ 0x25) :
    pathText (readPath set [] s) = slash :: s := by
  have hback : backslash ∉ s := fun hmem => absurd (h _ hmem).1 (by decide)
  have hplain : ∀ u ∈ slash :: s, isPlainUnit u = true ∧ u ≠ 0x2e ∧ u ≠ 0x25 := by
    intro u hu
    rcases List.mem_cons.mp hu with rfl | hu
    · decide
    · exact h u hu
  have hkept : ∀ segment ∈ s.splitOn slash, Kept set segment := by
    intro segment hsegment
    have hnot : ¬(0x2e ∈ segment ∨ 0x25 ∈ segment) := by
      rintro (hmem | hmem)
      · exact (hplain _ (mem_of_mem_splitOn hsegment hmem)).2.1 rfl
      · exact (hplain _ (mem_of_mem_splitOn hsegment hmem)).2.2 rfl
    refine ⟨?_, ?_, fun u hu => set.escapes_plain (hplain u (mem_of_mem_splitOn hsegment hu)).1⟩
    · by_contra hdot
      exact hnot (dot_or_percent (.inl (by simpa using hdot)))
    · by_contra hdot
      exact hnot (dot_or_percent (.inr (by simpa using hdot)))
  rw [readPath_kept hback hkept, List.nil_append, pathText_splitOn]

section References

variable {std : Standard} {standardPort : ℕ} {other : JsString → Option Url} {base : Url}

theorem rdropWhile_cons {p : ℕ → Bool} {u : ℕ} (hu : p u = false) (s : JsString) :
    (u :: s).rdropWhile p = u :: s.rdropWhile p := by
  induction s using List.reverseRecOn with
  | nil => simp [List.rdropWhile, hu]
  | append_singleton s v ih =>
    by_cases hv : p v = true
    · rw [← List.cons_append, List.rdropWhile_concat_pos _ _ _ hv, ih,
        List.rdropWhile_concat_pos _ _ _ hv]
    · rw [← List.cons_append, List.rdropWhile_concat_neg _ _ _ hv,
        List.rdropWhile_concat_neg _ _ _ hv, List.cons_append]

/-- A text that starts with a slash and has no controls only loses the spaces at its end. -/
theorem cleaned_rooted {rest : JsString} (h : ∀ u ∈ rest, 0x20 ≤ u) :
    cleaned (slash :: rest) = slash :: rest.rdropWhile isControlOrSpace := by
  have hslash : isControlOrSpace slash = false := by decide
  unfold cleaned
  rw [List.dropWhile_cons_of_neg (by simp [hslash]), rdropWhile_cons hslash]
  refine List.filter_eq_self.mpr fun u hu => ?_
  have hlarge : 0x20 ≤ u := by
    rcases List.mem_cons.mp hu with rfl | hu
    · decide
    · exact h u ((List.rdropWhile_prefix _ _).subset hu)
  simp only [isTabOrNewline, Bool.not_eq_true', List.contains_eq_mem, decide_eq_false_iff_not,
    List.mem_cons, List.not_mem_nil, or_false]
  omega

theorem readScheme_slash (rest : JsString) : readScheme (slash :: rest) = none := by
  have hname : (slash :: rest).takeWhile
      (fun u => isAlphaUnit u || isDigitUnit u || [0x2b, 0x2d, 0x2e].contains u) = [] :=
    List.takeWhile_cons_of_neg (by decide)
  simp only [readScheme, hname, List.head?_nil, Option.any_none, Bool.false_and, Bool.false_eq_true,
    if_false]

theorem resolveReference_rooted {rest : JsString} (hone : ∀ u ∈ rest.head?, isSlashUnit u = false) :
    resolveReference std standardPort base (slash :: rest) =
      some (readRest std base.origin (referencePath std base) (slash :: rest)) := by
  have hsingle : ¬(((slash :: rest).take 2).all isSlashUnit ∧ 2 ≤ (slash :: rest).length) := by
    cases rest with
    | nil => simp
    | cons u rest => simp [hone u rfl]
  have hpath : (slash :: rest).takeWhile (fun u => !([question, numberSign].contains u)) ≠ [] := by
    rw [List.takeWhile_cons_of_pos (by decide)]
    simp
  simp only [resolveReference, if_neg hsingle, hpath, false_and, if_false]

/-- A path of its own with one slash in front stays at the origin of the base. -/
theorem resolve_rooted {rest : JsString} (h : ∀ u ∈ rest, 0x20 ≤ u)
    (hone : ∀ u ∈ rest.head?, isSlashUnit u = false) :
    resolve std standardPort other base (slash :: rest) =
      some (readRest std base.origin (referencePath std base)
        (slash :: rest.rdropWhile isControlOrSpace)) := by
  unfold resolve
  rw [cleaned_rooted h, readScheme_slash]
  refine resolveReference_rooted fun u hu => hone u ?_
  obtain ⟨dropped, hdropped⟩ := List.rdropWhile_prefix isControlOrSpace rest
  rw [← hdropped]
  cases hkept : rest.rdropWhile isControlOrSpace with
  | nil => simp [hkept] at hu
  | cons v kept => simpa [hkept] using hu

/-- The path behind the slash when there is neither a query nor a fragment. -/
theorem readRest_path {origin : Origin} {path : JsString → List JsString} {s : JsString}
    (hquery : question ∉ s) (hhash : numberSign ∉ s) :
    readRest std origin path s = ⟨origin, path s, none, none⟩ := by
  have hfront := splitMark_of_not_mem hhash none
  have htext := splitMark_of_not_mem hquery none
  rw [markText, List.append_nil] at hfront htext
  simp [readRest, hfront, htext]

end References

end WebUrls
