import DreamSso.Library.JsonText

/-!
JSON.stringify with two spaces for each level, and what JSON.parse reads of it; and that
the text of a value is at least as long as the texts inside it.
-/
namespace PrettyJson

open JsStrings JsonText JsonValues JsonValues.Json

/-- A line break and the spaces of a level. -/
def newline (depth : ℕ) : JsString := 0x0a :: List.replicate (2 * depth) 0x20

/-- The comma in front of what is left. -/
def separator {α : Type} : List α → JsString
  | [] => []
  | _ :: _ => [0x2c]

mutual
/-- `JSON.stringify(v, null, 2)` at a level. -/
def pretty : ℕ → Json → JsString
  | _, .arr [] => js "[]"
  | depth, .arr (v :: items) => 0x5b :: (prettyItems depth (v :: items) ++ [0x5d])
  | _, .obj [] => js "\x7b\x7d"
  | depth, .obj (m :: members) => 0x7b :: (prettyMembers depth (m :: members) ++ [0x7d])
  | _, .null => js "null"
  | _, .bool true => js "true"
  | _, .bool false => js "false"
  | _, .num n => n.text
  | _, .str s => quote s

def prettyItems : ℕ → List Json → JsString
  | depth, [] => newline depth
  | depth, v :: rest =>
      newline (depth + 1) ++ (pretty (depth + 1) v ++ (separator rest ++ prettyItems depth rest))

def prettyMembers : ℕ → List (JsString × Json) → JsString
  | depth, [] => newline depth
  | depth, (k, v) :: rest =>
      newline (depth + 1) ++ (quote k ++ (js ": " ++ (pretty (depth + 1) v ++
        (separator rest ++ prettyMembers depth rest))))
end

theorem newline_space (depth : ℕ) : ∀ u ∈ newline depth, isJsonSpace u = true := by
  intro u hu
  rcases List.mem_cons.mp hu with rfl | hu
  · rfl
  · rw [List.eq_of_mem_replicate hu]
    rfl

theorem skipSpace_newline (depth : ℕ) (s : JsString) :
    skipSpace (newline depth ++ s) = skipSpace s :=
  List.dropWhile_append_of_pos (newline_space depth)

theorem newline_length (depth : ℕ) : (newline depth).length = 2 * depth + 1 := by
  rw [newline, List.length_cons, List.length_replicate]

theorem value?_space {space : JsString} (h : ∀ u ∈ space, isJsonSpace u = true) (fuel : ℕ)
    (s : JsString) : value? fuel (space ++ s) = value? fuel s := by
  have hskip : skipSpace (space ++ s) = skipSpace s := List.dropWhile_append_of_pos h
  cases fuel with
  | zero => rw [value?, value?]
  | succ fuel => rw [value?, value?, hskip]

theorem items?_end {fuel : ℕ} {s more rest : JsString} {v : Json}
    (h : value? fuel s = some (v, more)) (hend : skipSpace more = 0x5d :: rest) :
    items? (fuel + 1) s = some ([v], rest) := by
  rw [items?, h, Option.bind_some, hend]
  rfl

theorem value?_blank {fuel : ℕ} {s : JsString} : value? fuel (0x20 :: s) = value? fuel s :=
  @value?_space [0x20] (by simp [isJsonSpace]) fuel s

section Member

variable {fuel depth : ℕ} {before : List (JsString × Json)} (key : JsString)
  {s more rest : JsString} {v : Json}

theorem members?_last (h : value? fuel s = some (v, more)) (hend : skipSpace more = 0x7d :: rest) :
    members? (fuel + 1) before (newline depth ++ (quote key ++ (js ": " ++ s))) =
      some (setMember before key v, rest) := by
  have hcolon : js ": " = [0x3a, 0x20] := rfl
  rw [hcolon, quote, List.cons_append, List.append_assoc, List.singleton_append, members?,
    skipSpace_newline, skipSpace_cons rfl]
  simp [unquote_quoteFrom, skipSpace_cons (u := 0x3a) rfl, value?_blank, h, hend]

theorem members?_more (h : value? fuel s = some (v, more)) (hmore : skipSpace more = 0x2c :: rest) :
    members? (fuel + 1) before (newline depth ++ (quote key ++ (js ": " ++ s))) =
      members? fuel (setMember before key v) rest := by
  have hcolon : js ": " = [0x3a, 0x20] := rfl
  rw [hcolon, quote, List.cons_append, List.append_assoc, List.singleton_append, members?,
    skipSpace_newline, skipSpace_cons rfl]
  simp [unquote_quoteFrom, skipSpace_cons (u := 0x3a) rfl, value?_blank, h, hmore]

end Member

theorem pretty_startsValue (depth : ℕ) {v : Json} (h : readsBack v = true) :
    StartsValue (pretty depth v) := by
  cases v with
  | arr items =>
    cases items with
    | nil =>
      rw [pretty]
      exact ⟨0x5b, [0x5d], rfl, rfl, by decide, by decide⟩
    | cons v items => exact ⟨0x5b, _, by rw [pretty], rfl, by decide, by decide⟩
  | obj members =>
    cases members with
    | nil =>
      rw [pretty]
      exact ⟨0x7b, [0x7d], rfl, rfl, by decide, by decide⟩
    | cons m members => exact ⟨0x7b, _, by rw [pretty], rfl, by decide, by decide⟩
  | null =>
    rw [pretty]
    exact stringify_startsValue h
  | bool b => cases b <;> rw [pretty] <;> exact stringify_startsValue h
  | num n =>
    rw [pretty]
    exact stringify_startsValue h
  | str s =>
    rw [pretty]
    exact stringify_startsValue h

mutual
theorem value?_pretty : ∀ (v : Json), readsBack v = true → ∀ (depth fuel : ℕ) (rest : JsString),
    (pretty depth v).length ≤ fuel → Clear rest →
      value? (fuel + 1) (pretty depth v ++ rest) = some (v, rest)
  | .null, h, depth, fuel, rest, hfuel, hclear => by
    rw [pretty] at hfuel ⊢
    exact value?_stringify .null h fuel rest hfuel hclear
  | .bool true, h, depth, fuel, rest, hfuel, hclear => by
    rw [pretty] at hfuel ⊢
    exact value?_stringify (.bool true) h fuel rest hfuel hclear
  | .bool false, h, depth, fuel, rest, hfuel, hclear => by
    rw [pretty] at hfuel ⊢
    exact value?_stringify (.bool false) h fuel rest hfuel hclear
  | .num n, h, depth, fuel, rest, hfuel, hclear => by
    rw [pretty] at hfuel ⊢
    exact value?_stringify (.num n) h fuel rest hfuel hclear
  | .str s, h, depth, fuel, rest, hfuel, hclear => by
    rw [pretty] at hfuel ⊢
    exact value?_stringify (.str s) h fuel rest hfuel hclear
  | .arr [], h, depth, fuel, rest, hfuel, hclear => by
    rw [pretty] at hfuel ⊢
    exact value?_stringify (.arr []) h fuel rest hfuel hclear
  | .obj [], h, depth, fuel, rest, hfuel, hclear => by
    rw [pretty] at hfuel ⊢
    exact value?_stringify (.obj []) h fuel rest hfuel hclear
  | .arr (v :: items), h, depth, fuel, rest, hfuel, _ => by
    rw [pretty, List.length_cons, List.length_append, List.length_singleton] at hfuel
    obtain ⟨f, rfl⟩ : ∃ f, fuel = f + 1 := ⟨fuel - 1, by omega⟩
    rw [readsBack] at h
    have hitems := items?_pretty v items h depth f rest (by omega)
    have hfirst : (skipSpace (prettyItems depth (v :: items) ++ 0x5d :: rest)).head? ≠
        some 0x5d := by
      obtain ⟨u, more, hstart, hspace, hclose, -⟩ :=
        pretty_startsValue (depth + 1) (Bool.and_eq_true_iff.mp (readsBackItems.eq_def _ ▸ h)).1
      rw [prettyItems, List.append_assoc, skipSpace_newline, hstart, List.append_assoc,
        List.cons_append, skipSpace_cons hspace, List.head?_cons]
      simpa using hclose
    rw [pretty, List.cons_append, List.append_assoc, List.singleton_append, value?,
      skipSpace_cons rfl]
    simp [hfirst, hitems]
  | .obj (m :: members), h, depth, fuel, rest, hfuel, _ => by
    rw [pretty, List.length_cons, List.length_append, List.length_singleton] at hfuel
    obtain ⟨f, rfl⟩ : ∃ f, fuel = f + 1 := ⟨fuel - 1, by omega⟩
    simp only [readsBack, Bool.and_eq_true, decide_eq_true_eq] at h
    have hmembers := members?_pretty m members h.2 depth f [] rest h.1 (by omega)
    have hfirst : (skipSpace (prettyMembers depth (m :: members) ++ 0x7d :: rest)).head? ≠
        some 0x7d := by
      obtain ⟨key, v⟩ := m
      rw [prettyMembers, List.append_assoc, skipSpace_newline, quote, List.cons_append,
        List.cons_append, skipSpace_cons rfl, List.head?_cons]
      decide
    rw [pretty, List.cons_append, List.append_assoc, List.singleton_append, value?,
      skipSpace_cons rfl]
    simp [hfirst, hmembers]
termination_by v => sizeOf v

theorem items?_pretty : ∀ (v : Json) (items : List Json), readsBackItems (v :: items) = true →
    ∀ (depth fuel : ℕ) (rest : JsString), (prettyItems depth (v :: items)).length < fuel + 1 →
      items? (fuel + 1) (prettyItems depth (v :: items) ++ 0x5d :: rest) = some (v :: items, rest)
  | v, [], h, depth, fuel, rest, hfuel => by
    simp only [readsBackItems, Bool.and_true] at h
    simp only [prettyItems, separator, List.nil_append, List.length_append, newline_length] at hfuel
    obtain ⟨f, rfl⟩ : ∃ f, fuel = f + 1 := ⟨fuel - 1, by omega⟩
    rw [prettyItems, prettyItems, separator, List.nil_append, List.append_assoc, List.append_assoc]
    apply items?_end
    · rw [value?_space (newline_space _)]
      exact value?_pretty v h _ f _ (by omega) (clear_cons rfl _)
    · rw [skipSpace_newline, skipSpace_cons rfl]
  | v, w :: items, h, depth, fuel, rest, hfuel => by
    rw [readsBackItems, Bool.and_eq_true] at h
    rw [prettyItems, separator, List.length_append, List.length_append, List.length_append,
      newline_length, List.length_singleton] at hfuel
    obtain ⟨f, rfl⟩ : ∃ f, fuel = f + 1 := ⟨fuel - 1, by omega⟩
    have hvalue := value?_pretty v h.1 (depth + 1) f
      (0x2c :: (prettyItems depth (w :: items) ++ 0x5d :: rest)) (by omega) (clear_comma _)
    rw [← value?_space (newline_space (depth + 1))] at hvalue
    rw [prettyItems, separator, List.append_assoc, List.append_assoc, List.append_assoc,
      List.singleton_append, items?_more hvalue, items?_pretty w items h.2 depth f rest (by omega)]
    rfl
termination_by v items => sizeOf (v :: items)

theorem members?_pretty : ∀ (m : JsString × Json) (members : List (JsString × Json)),
    readsBackMembers (m :: members) = true → ∀ (depth fuel : ℕ)
      (before : List (JsString × Json)) (rest : JsString),
      ((before ++ m :: members).map Prod.fst).Nodup →
      (prettyMembers depth (m :: members)).length < fuel + 1 →
      members? (fuel + 1) before (prettyMembers depth (m :: members) ++ 0x7d :: rest) =
        some (before ++ m :: members, rest)
  | (key, v), [], h, depth, fuel, before, rest, hnodup, hfuel => by
    simp only [readsBackMembers, Bool.and_true] at h
    simp only [prettyMembers, separator, List.nil_append, List.length_append,
      newline_length] at hfuel
    obtain ⟨f, rfl⟩ : ∃ f, fuel = f + 1 := ⟨fuel - 1, by omega⟩
    have hvalue := value?_pretty v h (depth + 1) f (newline depth ++ 0x7d :: rest) (by omega)
      (clear_cons rfl _)
    rw [prettyMembers, prettyMembers, separator, List.nil_append, List.append_assoc,
      List.append_assoc, List.append_assoc, List.append_assoc,
      members?_last key hvalue (by rw [skipSpace_newline, skipSpace_cons rfl]),
      setMember_new (key_notMem hnodup)]
  | (key, v), m :: members, h, depth, fuel, before, rest, hnodup, hfuel => by
    rw [readsBackMembers, Bool.and_eq_true] at h
    rw [prettyMembers, separator] at hfuel
    simp only [List.length_append, newline_length, List.length_singleton] at hfuel
    obtain ⟨f, rfl⟩ : ∃ f, fuel = f + 1 := ⟨fuel - 1, by omega⟩
    have hvalue := value?_pretty v h.1 (depth + 1) f
      (0x2c :: (prettyMembers depth (m :: members) ++ 0x7d :: rest)) (by omega) (clear_comma _)
    have hrest := members?_pretty m members h.2 depth f (before ++ [(key, v)]) rest
      (by rwa [List.append_assoc, List.singleton_append]) (by omega)
    rw [List.append_assoc before, List.singleton_append] at hrest
    rw [prettyMembers, separator, List.append_assoc, List.append_assoc, List.append_assoc,
      List.append_assoc, List.append_assoc, List.singleton_append,
      members?_more key hvalue (skipSpace_cons rfl _), setMember_new (key_notMem hnodup)]
    exact hrest
termination_by m members => sizeOf (m :: members)
end

/-- JSON.parse of the indented text. -/
theorem parse_pretty {v : Json} (h : readsBack v = true) (depth : ℕ) :
    parse (pretty depth v) = some v := by
  have hvalue := value?_pretty v h depth _ [] le_rfl fun _ hu => by cases hu
  rw [List.append_nil] at hvalue
  rw [parse, hvalue]
  rfl

section Lengths

theorem length_le_intercalate {t sep : JsString} {texts : List JsString} (h : t ∈ texts) :
    t.length ≤ (List.intercalate sep texts).length := by
  induction texts with
  | nil => cases h
  | cons first texts ih =>
    cases texts with
    | nil =>
      rw [List.mem_singleton.mp h, List.intercalate_singleton]
    | cons next texts =>
      rw [List.intercalate_cons_cons, List.length_append, List.length_append]
      rcases List.mem_cons.mp h with rfl | hrest
      · omega
      · have hle := ih hrest
        omega

theorem length_le_quote (s : JsString) : s.length ≤ (quote s).length := by
  have hbody : ∀ (s : JsString) (high : Bool), s.length ≤ (quoteFrom high s).length := by
    intro s
    induction s with
    | nil => exact fun _ => le_rfl
    | cons u rest ih =>
      intro high
      have hrest := ih (isHighSurrogate u)
      have hunit : 1 ≤ (quoteUnit u).length := by
        unfold quoteUnit
        split_ifs <;> simp [unicodeEscape]
      rw [quoteFrom, List.length_append, List.length_cons]
      have hfirst : 1 ≤ (if isHighSurrogate u then
          if rest.head?.any isLowSurrogate then [u] else unicodeEscape u
        else if isLowSurrogate u then if high then [u] else unicodeEscape u
        else quoteUnit u).length := by
        split_ifs
        all_goals first | exact hunit | simp [unicodeEscape]
      omega
  rw [quote, List.length_cons, List.length_append, List.length_singleton]
  have := hbody s false
  omega

theorem length_le_obj {members : List (JsString × Json)} {m : JsString × Json}
    (h : m ∈ members) : (stringify m.2).length ≤ (stringify (.obj members)).length := by
  have htext : quote m.1 ++ 0x3a :: stringify m.2 ∈ memberTexts members := by
    induction members with
    | nil => cases h
    | cons first members ih =>
      rw [memberTexts]
      rcases List.mem_cons.mp h with rfl | hrest
      · exact List.mem_cons_self
      · exact List.mem_cons_of_mem _ (ih hrest)
  have hle : _ ≤ (List.intercalate [0x2c] (memberTexts members)).length :=
    length_le_intercalate htext
  rw [List.length_append, List.length_cons] at hle
  rw [stringify, List.length_cons, List.length_append, List.length_singleton]
  omega

end Lengths

end PrettyJson
