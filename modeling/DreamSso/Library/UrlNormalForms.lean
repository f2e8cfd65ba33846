import DreamSso.Library.WebUrls

/-!
Paths with a query that the URL parser gives back as they are. What it gives back is one
of them, so a text comes back only if it is.
-/
namespace WebUrls

open JsStrings

/-- Path and query as they are shown for a text that starts with a path. -/
def shown (std : Standard) (s : JsString) : JsString :=
  let url := readRest std ⟨[], [], none⟩ (absolutePath std) s
  url.pathname ++ url.search

/-- A path with a query, or none, that the parser keeps. -/
structure Normal (std : Standard) (s : JsString) : Prop where
  whole : numberSign ∉ s
  forward : backslash ∉ (splitMark question s).1
  segments : ∀ segment ∈ (splitMark question s).1.splitOn slash, Kept std.pathSet segment
  query : ∀ query, (splitMark question s).2 = some query →
    query ≠ [] ∧ ∀ u ∈ query, std.querySet.escapes u = false

theorem shown_eq (std : Standard) (s : JsString) :
    shown std s =
      pathText (absolutePath std (splitMark question (splitMark numberSign s).1).1) ++
        (match (splitMark question (splitMark numberSign s).1).2.map (percentEncode std.querySet) with
        | none | some [] => []
        | some query => question :: query) := rfl

theorem splitOn_slash_cons (s : JsString) :
    (slash :: s).splitOn slash = [] :: s.splitOn slash := by
  rw [List.splitOn_cons_eq_if_modifyHead, if_pos (by simp)]

theorem shown_normal {std : Standard} {rest : JsString} (h : Normal std (slash :: rest)) :
    shown std (slash :: rest) = slash :: rest := by
  have hwhole := splitMark_of_not_mem h.whole none
  rw [markText, List.append_nil] at hwhole
  have htext := splitMark_text question (slash :: rest)
  have hfront : (splitMark question (slash :: rest)).1 =
      slash :: (splitMark question rest).1 := by
    rw [splitMark, if_neg (by decide)]
  have hpath : pathText (absolutePath std (splitMark question (slash :: rest)).1) =
      (splitMark question (slash :: rest)).1 := by
    have hforward := h.forward
    have hsegments := h.segments
    rw [hfront] at hforward hsegments ⊢
    rw [splitOn_slash_cons] at hsegments
    rw [absolutePath, if_pos (by decide), readPath_kept, List.nil_append, pathText_splitOn]
    · exact fun hmem => hforward (List.mem_cons_of_mem slash hmem)
    · exact fun segment hsegment => hsegments segment (List.mem_cons_of_mem [] hsegment)
  rw [shown_eq, hwhole, hpath]
  cases hquery : (splitMark question (slash :: rest)).2 with
  | none => simpa [hquery, markText] using htext
  | some query =>
    obtain ⟨hne, hescapes⟩ := h.query query hquery
    rw [hquery] at htext
    rw [Option.map_some, percentEncode_unescaped hescapes]
    cases query with
    | nil => exact absurd rfl hne
    | cons u query => exact htext

section Encoding

variable {set : EscapeSet} {s : JsString}

theorem percentEncode_ascii (hs : ∀ u ∈ s, u < 0x80) :
    percentEncode set s = s.flatMap (encodePoint set) := by
  rw [percentEncode, codePoints_ascii hs]

theorem encodePoint_escaped {u : ℕ} (hu : u < 0x80) (h : set.escapes u = true) :
    encodePoint set u = [0x25, upperHexDigit (u / 16), upperHexDigit (u % 16)] := by
  simp [encodePoint, h, utf8, hu, escapeByte]

theorem upperHexDigit_plain {n : ℕ} (h : n < 16) :
    isPlainUnit (upperHexDigit n) = true ∧ upperHexDigit n ≠ slash := by
  have hdigits : ∀ n < 16, isPlainUnit (upperHexDigit n) = true ∧ upperHexDigit n ≠ slash := by
    decide
  exact hdigits n h

/-- What an encoded text is made of. -/
theorem mem_percentEncode (hs : ∀ u ∈ s, u < 0x80) {u : ℕ} (hu : u ∈ percentEncode set s) :
    u ∈ s ∧ set.escapes u = false ∨ isPlainUnit u = true ∧ u ≠ slash := by
  rw [percentEncode_ascii hs] at hu
  obtain ⟨v, hv, hu⟩ := List.mem_flatMap.mp hu
  by_cases hescaped : set.escapes v = true
  · have hlt := hs v hv
    rw [encodePoint_escaped hlt hescaped] at hu
    simp only [List.mem_cons, List.not_mem_nil, or_false] at hu
    rcases hu with rfl | rfl | rfl
    · exact .inr (by decide)
    · exact .inr (upperHexDigit_plain (by omega))
    · exact .inr (upperHexDigit_plain (by omega))
  · rw [encodePoint, if_neg hescaped, List.mem_singleton] at hu
    subst hu
    exact .inl ⟨hv, by simpa using hescaped⟩

theorem unescaped_percentEncode (hs : ∀ u ∈ s, u < 0x80) :
    ∀ u ∈ percentEncode set s, set.escapes u = false := by
  intro u hu
  rcases mem_percentEncode hs hu with ⟨-, hescaped⟩ | ⟨hplain, -⟩
  · exact hescaped
  · exact set.escapes_plain hplain

/-- No escape adds a character that is not plain. -/
theorem not_mem_percentEncode (hs : ∀ u ∈ s, u < 0x80) {u : ℕ} (hu : u ∉ s)
    (hplain : isPlainUnit u = false ∨ u = slash) : u ∉ percentEncode set s := by
  intro hmem
  rcases mem_percentEncode hs hmem with ⟨hin, -⟩ | ⟨hin, hslash⟩
  · exact hu hin
  · rcases hplain with hplain | hplain
    · simp [hin] at hplain
    · exact hslash hplain

theorem percentEncode_ne_nil (hs : ∀ u ∈ s, u < 0x80) (hne : s ≠ []) : percentEncode set s ≠ [] := by
  obtain ⟨u, rest, rfl⟩ := List.exists_cons_of_ne_nil hne
  rw [percentEncode_ascii hs, List.flatMap_cons]
  intro hnil
  have hfront := (List.append_eq_nil_iff.mp hnil).1
  by_cases hescaped : set.escapes u = true
  · rw [encodePoint_escaped (hs u List.mem_cons_self) hescaped] at hfront
    cases hfront
  · rw [encodePoint, if_neg hescaped] at hfront
    cases hfront

/-- The texts of the dot segments, in lower case. -/
def dotTexts : List JsString :=
  [js ".", js "%2e", js "..", js ".%2e", js "%2e.", js "%2e%2e"]

theorem dotTexts_of_dot {segment : JsString}
    (h : isSingleDot segment = true ∨ isDoubleDot segment = true) :
    segment.map lowerUnit ∈ dotTexts := by
  rcases h with h | h
  · exact List.mem_append_left _ (of_decide_eq_true h)
  · exact List.mem_append_right [js ".", js "%2e"] (of_decide_eq_true h)

/-- An escape in the text of a dot segment is that of a point. -/
theorem escape_of_dot {a b : JsString} {x y : ℕ}
    (h : (a ++ 0x25 :: x :: y :: b).map lowerUnit ∈ dotTexts) :
    lowerUnit x = 0x32 ∧ lowerUnit y = 0x65 := by
  have hescapes : ∀ t ∈ dotTexts, t.length ≤ 6 ∧
      ∀ k < 6, t[k]? = some 0x25 → t[k + 1]? = some 0x32 ∧ t[k + 2]? = some 0x65 := by decide
  obtain ⟨hlength, hpoint⟩ := hescapes _ h
  simp only [List.length_map, List.length_append, List.length_cons] at hlength
  have hafter := hpoint a.length (by omega) (by simp [lowerUnit])
  simpa [List.getElem?_append_right] using hafter

theorem percentEncode_dot (hs : ∀ u ∈ s, u < 0x80)
    (hdot : isSingleDot (percentEncode set s) = true ∨ isDoubleDot (percentEncode set s) = true) :
    percentEncode set s = s := by
  apply percentEncode_unescaped
  intro u hu
  by_contra hescaped
  have hescaped : set.escapes u = true := by simpa using hescaped
  have hlt := hs u hu
  obtain ⟨a, b, rfl⟩ := List.append_of_mem hu
  have htext := dotTexts_of_dot hdot
  rw [percentEncode_ascii hs, List.flatMap_append, List.flatMap_cons,
    encodePoint_escaped hlt hescaped] at htext
  obtain ⟨hhigh, hlow⟩ := escape_of_dot htext
  have hpoint : u = 0x2e := by
    unfold lowerUnit upperHexDigit at hhigh hlow
    split_ifs at hhigh hlow <;> omega
  subst hpoint
  simp [set.escapes_plain (by decide : isPlainUnit 0x2e = true)] at hescaped

end Encoding

/-- A segment of a path that has been read. -/
structure Read (set : EscapeSet) (segment : JsString) : Prop extends Kept set segment where
  marks : ∀ u ∈ [slash, question, numberSign, backslash], u ∉ segment

theorem read_nil (set : EscapeSet) : Read set [] where
  single := by decide
  double := by decide
  unescaped := by simp
  marks := by simp

theorem read_percentEncode {set : EscapeSet} {segment : JsString} (hs : ∀ u ∈ segment, u < 0x80)
    (hmarks : ∀ u ∈ [slash, question, numberSign, backslash], u ∉ segment)
    (hdot : ¬(isSingleDot segment = true ∨ isDoubleDot segment = true)) :
    Read set (percentEncode set segment) := by
  have hkept : ¬(isSingleDot (percentEncode set segment) = true ∨
      isDoubleDot (percentEncode set segment) = true) := by
    intro hencoded
    rw [percentEncode_dot hs hencoded] at hencoded
    exact hdot hencoded
  rw [not_or, Bool.not_eq_true, Bool.not_eq_true] at hkept
  refine ⟨⟨hkept.1, hkept.2, unescaped_percentEncode hs⟩, fun u hu => ?_⟩
  refine not_mem_percentEncode hs (hmarks u hu) ?_
  simp only [List.mem_cons, List.not_mem_nil, or_false] at hu
  rcases hu with rfl | rfl | rfl | rfl
  · exact .inr rfl
  · exact .inl (by decide)
  · exact .inl (by decide)
  · exact .inl (by decide)

/-- A dot segment leaves a part of the path, with an empty segment if it is the last one. -/
theorem stepSegment_cases (set : EscapeSet) (path : List JsString) (last : Bool)
    (segment : JsString) :
    (∃ kept, (∀ other ∈ kept, other ∈ path) ∧
      stepSegment set path last segment = kept ++ if last then [[]] else []) ∨
    ¬(isSingleDot segment = true ∨ isDoubleDot segment = true) ∧
      stepSegment set path last segment = path ++ [percentEncode set segment] := by
  unfold stepSegment
  by_cases hdouble : isDoubleDot segment = true
  · exact .inl ⟨path.dropLast, fun _ hother => List.dropLast_subset path hother, by simp [hdouble]⟩
  · by_cases hsingle : isSingleDot segment = true
    · exact .inl ⟨path, fun _ => id, by simp [hdouble, hsingle]⟩
    · exact .inr ⟨by simp [hdouble, hsingle], by simp [hdouble, hsingle]⟩

/-- A segment of the text that is read. -/
def Plain (segment : JsString) : Prop :=
  (∀ u ∈ segment, u < 0x80) ∧ ∀ u ∈ [slash, question, numberSign, backslash], u ∉ segment

/-- What a walk leaves in the path: what was there, an empty segment or an encoded one. -/
theorem mem_walkSegments {set : EscapeSet} {path segments : List JsString} {other : JsString}
    (h : other ∈ walkSegments set path segments) :
    other ∈ path ∨ other = [] ∨ ∃ segment ∈ segments,
      ¬(isSingleDot segment = true ∨ isDoubleDot segment = true) ∧
        other = percentEncode set segment := by
  have hstep : ∀ path last segment, other ∈ stepSegment set path last segment →
      other ∈ path ∨ other = [] ∨ ¬(isSingleDot segment = true ∨ isDoubleDot segment = true) ∧
        other = percentEncode set segment := by
    intro path last segment hother
    rcases stepSegment_cases set path last segment with ⟨kept, hkept, hstep⟩ | ⟨hdot, hstep⟩
    · rw [hstep] at hother
      rcases List.mem_append.mp hother with hother | hother
      · exact .inl (hkept other hother)
      · split_ifs at hother
        · exact .inr (.inl (List.mem_singleton.mp hother))
        · cases hother
    · rw [hstep] at hother
      rcases List.mem_append.mp hother with hother | hother
      · exact .inl hother
      · exact .inr (.inr ⟨hdot, List.mem_singleton.mp hother⟩)
  induction path, segments using walkSegments.induct set with
  | case1 path => exact .inl h
  | case2 path segment =>
    rcases hstep path true segment h with hother | hother | hother
    · exact .inl hother
    · exact .inr (.inl hother)
    · exact .inr (.inr ⟨segment, List.mem_cons_self, hother⟩)
  | case3 path segment segments hne ih =>
    rw [walkSegments] at h
    · rcases ih h with hother | hother | ⟨later, hlater, hother⟩
      · rcases hstep path false segment hother with hother | hother | hother
        · exact .inl hother
        · exact .inr (.inl hother)
        · exact .inr (.inr ⟨segment, List.mem_cons_self, hother⟩)
      · exact .inr (.inl hother)
      · exact .inr (.inr ⟨later, List.mem_cons_of_mem segment hlater, hother⟩)
    · exact hne

/-- Only the last segment of the path is empty when only the last one of the text is. -/
theorem walkSegments_nonempty {set : EscapeSet} {path segments : List JsString}
    (hpath : ∀ other ∈ path, other ≠ []) (hplain : ∀ segment ∈ segments, Plain segment)
    (hsegments : ∀ segment ∈ segments.dropLast, segment ≠ []) :
    ∀ other ∈ (walkSegments set path segments).dropLast, other ≠ [] := by
  induction path, segments using walkSegments.induct set with
  | case1 path => exact fun other hother => hpath other (List.dropLast_subset path hother)
  | case2 path segment =>
    intro other hother
    rw [walkSegments] at hother
    rcases stepSegment_cases set path true segment with ⟨kept, hkept, hstep⟩ | ⟨-, hstep⟩
    · rw [hstep, if_pos rfl, List.dropLast_concat] at hother
      exact hpath other (hkept other hother)
    · rw [hstep, List.dropLast_concat] at hother
      exact hpath other hother
  | case3 path segment segments hne ih =>
    have hrest : segments ≠ [] := fun hnil => hne hnil
    rw [List.dropLast_cons_of_ne_nil hrest] at hsegments
    rw [walkSegments]
    · refine ih (fun other hother => ?_) (fun other hother => hplain other
        (List.mem_cons_of_mem segment hother)) fun other hother =>
          hsegments other (List.mem_cons_of_mem segment hother)
      rcases stepSegment_cases set path false segment with ⟨kept, hkept, hstep⟩ | ⟨-, hstep⟩
      · rw [hstep] at hother
        exact hpath other (hkept other (by simpa using hother))
      · rw [hstep] at hother
        rcases List.mem_append.mp hother with hother | hother
        · exact hpath other hother
        · rw [List.mem_singleton.mp hother]
          exact percentEncode_ne_nil (hplain segment List.mem_cons_self).1
            (hsegments segment List.mem_cons_self)
    · exact hne

theorem not_mem_of_mem_splitOn {mark : ℕ} {s segment : JsString} (h : segment ∈ s.splitOn mark) :
    mark ∉ segment := by
  induction s generalizing segment with
  | nil =>
    rw [List.splitOn_nil, List.mem_singleton] at h
    simp [h]
  | cons u rest ih =>
    rw [List.splitOn_cons_eq_if_modifyHead] at h
    obtain ⟨first, segments, hsplit⟩ := List.exists_cons_of_ne_nil (List.splitOn_ne_nil mark rest)
    split_ifs at h with hu
    · rcases List.mem_cons.mp h with rfl | h
      · simp
      · exact ih h
    · rw [hsplit] at h
      rcases List.mem_cons.mp h with rfl | h
      · have hfirst := ih (hsplit ▸ List.mem_cons_self)
        simp only [List.mem_cons, not_or]
        exact ⟨fun heq => hu (by simp [heq]), hfirst⟩
      · exact ih (hsplit ▸ List.mem_cons_of_mem first h)

theorem splitOn_pathText {path : List JsString} (hpath : path ≠ [])
    (hslash : ∀ segment ∈ path, slash ∉ segment) :
    (pathText path).splitOn slash = [] :: path := by
  rw [pathText_eq path hpath, splitOn_slash_cons, List.splitOn_intercalate slash hslash hpath]

theorem walkSegments_ne_nil {set : EscapeSet} {path segments : List JsString}
    (h : segments ≠ []) : walkSegments set path segments ≠ [] := by
  induction path, segments using walkSegments.induct set with
  | case1 path => exact absurd rfl h
  | case2 path segment =>
    rw [walkSegments]
    rcases stepSegment_cases set path true segment with ⟨kept, -, hstep⟩ | ⟨-, hstep⟩
    · rw [hstep]
      simp
    · rw [hstep]
      simp
  | case3 path segment segments hne ih =>
    rw [walkSegments]
    · exact ih fun hnil => hne hnil
    · exact hne

section Shown

variable {std : Standard} {s : JsString}

/-- A text without its first slash. -/
def unrooted : JsString → JsString
  | [] => []
  | u :: rest => if isSlashUnit u then rest else u :: rest

theorem unrooted_suffix (s : JsString) : unrooted s <:+ s := by
  cases s with
  | nil => exact List.suffix_refl []
  | cons u rest =>
    simp only [unrooted]
    split_ifs
    · exact List.suffix_cons u rest
    · exact List.suffix_refl _

theorem absolutePath_eq (std : Standard) (s : JsString) :
    absolutePath std s = readPath std.pathSet [] (unrooted s) := by
  cases s <;> rfl

/-- A segment is made of units of the text. -/
theorem segment_subset {segment : JsString}
    (hsegment : segment ∈ (s.map fun u => if u = backslash then slash else u).splitOn slash) :
    ∀ u ∈ segment, u ∈ s ∧ u ≠ backslash := by
  intro u hu
  have hne : u ≠ slash := fun heq => not_mem_of_mem_splitOn hsegment (heq ▸ hu)
  obtain ⟨v, hv, rfl⟩ :=
    List.mem_map.mp ((List.mem_cons.mp (mem_of_mem_splitOn hsegment hu)).resolve_left hne)
  split_ifs at hne ⊢ with hback
  · exact absurd rfl hne
  · exact ⟨hv, hback⟩

/-- The segments that are read from a text with no query and no fragment. -/
theorem plain_segments (hs : ∀ u ∈ s, u < 0x80) (hquery : question ∉ s) (hhash : numberSign ∉ s) :
    ∀ segment ∈ (s.map fun u => if u = backslash then slash else u).splitOn slash,
      Plain segment := by
  intro segment hsegment
  have hslash := not_mem_of_mem_splitOn hsegment
  have horigin := segment_subset hsegment
  refine ⟨fun u hu => hs u (horigin u hu).1, fun u hu hmem => ?_⟩
  simp only [List.mem_cons, List.not_mem_nil, or_false] at hu
  rcases hu with rfl | rfl | rfl | rfl
  · exact hslash hmem
  · exact hquery (horigin _ hmem).1
  · exact hhash (horigin _ hmem).1
  · exact (horigin _ hmem).2 rfl

theorem absolutePath_ne_nil (std : Standard) (s : JsString) : absolutePath std s ≠ [] := by
  rw [absolutePath_eq]
  exact walkSegments_ne_nil (List.splitOn_ne_nil _ _)

theorem read_absolutePath (hs : ∀ u ∈ s, u < 0x80) (hquery : question ∉ s)
    (hhash : numberSign ∉ s) : ∀ other ∈ absolutePath std s,
      Read std.pathSet other ∧ ∀ u ∈ other, u ∈ s ∨ isPlainUnit u = true := by
  have hin : ∀ u ∈ unrooted s, u ∈ s := fun u hu => (unrooted_suffix s).subset hu
  have hplain := plain_segments (fun u hu => hs u (hin u hu))
    (fun hmem => hquery (hin _ hmem)) fun hmem => hhash (hin _ hmem)
  rw [absolutePath_eq]
  intro other hother
  rcases mem_walkSegments hother with hother | rfl | ⟨segment, hsegment, hdot, rfl⟩
  · cases hother
  · exact ⟨read_nil std.pathSet, by simp⟩
  · obtain ⟨hascii, hmarks⟩ := hplain segment hsegment
    refine ⟨read_percentEncode hascii hmarks hdot, fun u hu => ?_⟩
    rcases mem_percentEncode hascii hu with ⟨hu, -⟩ | ⟨hu, -⟩
    · exact .inl (hin u (segment_subset hsegment u hu).1)
    · exact .inr hu

theorem mem_pathText {path : List JsString} {u : ℕ} (hu : u ∈ pathText path) :
    u = slash ∨ ∃ segment ∈ path, u ∈ segment := by
  obtain ⟨segment, hsegment, hu⟩ := List.mem_flatMap.mp hu
  exact (List.mem_cons.mp hu).imp_right fun hu => ⟨segment, hsegment, hu⟩

/-- The parts a text is taken apart into: its path, and its query without the fragment. -/
theorem parts_spec (s : JsString) (hs : ∀ u ∈ s, u < 0x80) :
    ∃ front query, splitMark question (splitMark numberSign s).1 = (front, query) ∧
      ((∀ u ∈ front, u < 0x80) ∧ question ∉ front ∧ numberSign ∉ front) ∧
      (∀ text ∈ query, (∀ u ∈ question :: text, u ∈ s) ∧ numberSign ∉ text) ∧ front <+: s := by
  have hhash := not_mem_splitMark numberSign s
  have hstart : (splitMark numberSign s).1 <+: s := ⟨_, splitMark_text numberSign s⟩
  generalize (splitMark numberSign s).1 = whole at hhash hstart
  have htext := splitMark_text question whole
  have hfront : (splitMark question whole).1 <+: whole := ⟨_, htext⟩
  have hquery : ∀ text ∈ (splitMark question whole).2, ∀ u ∈ question :: text, u ∈ whole := by
    intro text htext' u hu
    rw [← htext, Option.mem_def.mp htext']
    exact List.mem_append_right _ hu
  exact ⟨_, _, rfl, ⟨fun u hu => hs u (hstart.subset (hfront.subset hu)),
      not_mem_splitMark question whole, fun hmem => hhash (hfront.subset hmem)⟩,
    fun text htext => ⟨fun u hu => hstart.subset (hquery text htext u hu),
      fun hmem => hhash (hquery text htext _ (List.mem_cons_of_mem question hmem))⟩,
    hfront.trans hstart⟩

/-- What is shown is kept. -/
theorem normal_shown (hs : ∀ u ∈ s, u < 0x80) : Normal std (shown std s) := by
  obtain ⟨front, query, hparts, ⟨hascii, hfrontQuery, hfrontHash⟩, hquery, -⟩ := parts_spec s hs
  have hread : ∀ other ∈ absolutePath std front, Read std.pathSet other ∧
      ∀ u ∈ other, u ∈ front ∨ isPlainUnit u = true :=
    read_absolutePath hascii hfrontQuery hfrontHash
  have hmarks : ∀ u ∈ [question, numberSign, backslash],
      u ∉ pathText (absolutePath std front) := by
    intro u hu hmem
    rcases mem_pathText hmem with rfl | ⟨segment, hsegment, hmem⟩
    · exact absurd hu (by decide)
    · exact (hread segment hsegment).1.marks u (List.mem_cons_of_mem slash hu) hmem
  -- the query that is shown has something in it
  obtain ⟨kept, hkept, hnonempty, hshown⟩ : ∃ kept : Option JsString,
      (∀ text ∈ kept, (∀ u ∈ text, std.querySet.escapes u = false) ∧ numberSign ∉ text) ∧
      (∀ text ∈ kept, text ≠ []) ∧
      shown std s = pathText (absolutePath std front) ++ markText question kept := by
    rw [shown_eq, hparts]
    cases query with
    | none => exact ⟨none, by simp, by simp, rfl⟩
    | some text =>
      obtain ⟨hin, hhash⟩ := hquery text rfl
      have htext : ∀ u ∈ text, u < 0x80 := fun u hu => hs u (hin u (List.mem_cons_of_mem _ hu))
      have hencoded : numberSign ∉ percentEncode std.querySet text :=
        not_mem_percentEncode htext hhash (.inl (by decide))
      have hunescaped : ∀ u ∈ percentEncode std.querySet text, std.querySet.escapes u = false :=
        unescaped_percentEncode htext
      dsimp only [Option.map_some]
      cases hcase : percentEncode std.querySet text with
      | nil => exact ⟨none, by simp, by simp, rfl⟩
      | cons u rest =>
        rw [hcase] at hencoded hunescaped
        refine ⟨some (u :: rest), ?_, ?_, rfl⟩
        · rintro _ ⟨⟩
          exact ⟨hunescaped, hencoded⟩
        · rintro _ ⟨⟩
          simp
  have hsplit := splitMark_of_not_mem (hmarks question (by simp)) kept
  rw [hshown]
  refine ⟨fun hmem => ?_, ?_, ?_, ?_⟩
  · rcases List.mem_append.mp hmem with hmem | hmem
    · exact hmarks numberSign (by simp) hmem
    · cases kept with
      | none => cases hmem
      | some text =>
        rcases List.mem_cons.mp hmem with heq | hmem
        · exact absurd heq (by decide)
        · exact (hkept text rfl).2 hmem
  · rw [hsplit]
    exact hmarks backslash (by simp)
  · rw [hsplit, splitOn_pathText (absolutePath_ne_nil std front)
      fun segment hsegment => (hread segment hsegment).1.marks slash (by simp)]
    intro segment hsegment
    rcases List.mem_cons.mp hsegment with rfl | hsegment
    · exact (read_nil std.pathSet).toKept
    · exact (hread segment hsegment).1.toKept
  · rw [hsplit]
    intro text htext
    exact ⟨hnonempty text htext, (hkept text htext).1⟩

/-- What is shown is made of what was there and of plain units. -/
theorem mem_shown (hs : ∀ u ∈ s, u < 0x80) :
    ∀ u ∈ shown std s, u ∈ s ∨ isPlainUnit u = true := by
  obtain ⟨front, query, hparts, ⟨hascii, hfrontQuery, hfrontHash⟩, hquery, hstart⟩ := parts_spec s hs
  intro u hu
  rw [shown_eq, hparts] at hu
  rcases List.mem_append.mp hu with hu | hu
  · rcases mem_pathText hu with rfl | ⟨segment, hsegment, hu⟩
    · exact .inr (by decide)
    · have hin := (read_absolutePath hascii hfrontQuery hfrontHash segment hsegment).2 u hu
      exact hin.imp_left fun hu => hstart.subset hu
  · cases query with
    | none => cases hu
    | some text =>
      obtain ⟨hin, -⟩ := hquery text rfl
      have hsub : u = question ∨ u ∈ percentEncode std.querySet text := by
        revert hu
        dsimp only [Option.map_some]
        cases percentEncode std.querySet text with
        | nil => exact fun hu => .inr hu
        | cons v rest => exact List.mem_cons.mp
      rcases hsub with rfl | hu
      · exact .inl (hin question List.mem_cons_self)
      · have htext : ∀ u ∈ text, u < 0x80 := fun u hu => hs u (hin u (List.mem_cons_of_mem _ hu))
        rcases mem_percentEncode htext hu with ⟨hu, -⟩ | ⟨hu, -⟩
        · exact .inl (hin u (List.mem_cons_of_mem _ hu))
        · exact .inr hu

/-- A text without two slashes in a row has an empty segment only at its end. -/
theorem nonempty_segments (h : ¬[slash, slash] <:+: slash :: s) :
    ∀ segment ∈ (s.splitOn slash).dropLast, segment ≠ [] := by
  rintro _ hsegment rfl
  apply h
  obtain ⟨a, b, hsplit⟩ := List.append_of_mem hsegment
  have hwhole : s.splitOn slash = a ++ [] :: (b ++ [(s.splitOn slash).getLast (by simp)]) := by
    rw [← List.cons_append, ← List.append_assoc, ← hsplit, List.dropLast_append_getLast]
  generalize (s.splitOn slash).getLast (by simp) = last at hwhole
  have hbehind := pathText_eq (b ++ [last]) (by simp)
  have htext := pathText_splitOn s
  rw [hwhole, pathText, List.flatMap_append, List.flatMap_cons] at htext
  rw [pathText] at hbehind
  rw [← htext, hbehind]
  exact ⟨pathText a, [slash].intercalate (b ++ [last]), by simp [pathText]⟩

/-- A path without empty segments inside is shown without a second slash in front. -/
theorem shown_single (hs : ∀ u ∈ slash :: s, u < 0x80) (hback : backslash ∉ slash :: s)
    (hsingle : ¬[slash, slash] <:+: slash :: s) :
    ∃ rest, shown std (slash :: s) = slash :: rest ∧ rest.head? ≠ some slash := by
  obtain ⟨front, query, hparts, ⟨hascii, hquery, hhash⟩, -, hstart⟩ := parts_spec (slash :: s) hs
  have hsuffix := unrooted_suffix front
  have hfront : ¬[slash, slash] <:+: slash :: unrooted front := by
    intro hinside
    cases front with
    | nil => exact absurd hinside (by decide)
    | cons u rest =>
      obtain rfl : u = slash := (List.cons_prefix_cons.mp hstart).1
      exact hsingle (hinside.trans hstart.isInfix)
  have hread : ∀ other ∈ absolutePath std front, Read std.pathSet other ∧
      ∀ u ∈ other, u ∈ front ∨ isPlainUnit u = true :=
    read_absolutePath hascii hquery hhash
  have hnonempty : ∀ segment ∈ (absolutePath std front).dropLast, segment ≠ [] := by
    have hmap : (unrooted front).map (fun u => if u = backslash then slash else u) =
        (unrooted front).map id := by
      apply List.map_congr_left
      intro u hu
      exact if_neg fun heq : u = backslash =>
        hback (heq ▸ hstart.subset (hsuffix.subset hu))
    have hplain := plain_segments (fun u hu => hascii u (hsuffix.subset hu))
      (fun hmem => hquery (hsuffix.subset hmem)) fun hmem => hhash (hsuffix.subset hmem)
    rw [hmap, List.map_id] at hplain
    rw [absolutePath_eq, readPath, hmap, List.map_id]
    exact walkSegments_nonempty (by simp) hplain (nonempty_segments hfront)
  obtain ⟨first, segments, hpath⟩ := List.exists_cons_of_ne_nil (absolutePath_ne_nil std front)
  rw [shown_eq, hparts]
  rw [hpath] at hread hnonempty ⊢
  refine ⟨_, rfl, fun hhead => ?_⟩
  cases first with
  | cons u first =>
    have hu : slash ∉ u :: first :=
      (hread (u :: first) List.mem_cons_self).1.marks slash (by simp)
    have heq : u = slash := Option.some.inj hhead
    exact hu (heq ▸ List.mem_cons_self)
  | nil =>
    cases segments with
    | cons other segments =>
      exact hnonempty [] (by simp) rfl
    | nil =>
      revert hhead
      dsimp only
      split
      · simp
      · simp
      · simp [question, slash]

end Shown

end WebUrls
