import DreamSso.Library.JsonNumbers
import Mathlib.Logic.Relation

/-!
The canonical text of a JSON value, in which the members of every object stand in one
order of their names. For a value that was read from a text it is read back as that
value up to the order of members, and it says which value it is, as long as every
number is finite; an infinite one is written null.
-/
namespace CanonicalJson

open JsStrings JsonValues JsonValues.Json JsConversions JsonText

mutual
/-- No number of the value is infinite. -/
def finite : Json → Bool
  | .num (.infinite _) => false
  | .arr items => finiteItems items
  | .obj members => finiteMembers members
  | _ => true

def finiteItems : List Json → Bool
  | [] => true
  | v :: rest => finite v && finiteItems rest

def finiteMembers : List (JsString × Json) → Bool
  | [] => true
  | (_, v) :: rest => finite v && finiteMembers rest
end

/-- The members of one object, at any depth, come in another order. -/
inductive Reordered : Json → Json → Prop
  | members {a b : List (JsString × Json)} (h : a.Perm b) : Reordered (.obj a) (.obj b)
  | item {v w : Json} (before after : List Json) (h : Reordered v w) :
      Reordered (.arr (before ++ v :: after)) (.arr (before ++ w :: after))
  | member {v w : Json} (key : JsString) (before after : List (JsString × Json))
      (h : Reordered v w) :
      Reordered (.obj (before ++ (key, v) :: after)) (.obj (before ++ (key, w) :: after))

/-- The values are equal up to the order of the members of their objects. -/
def SameContent : Json → Json → Prop := Relation.ReflTransGen Reordered

section Lists

theorem readsBackItems_iff {items : List Json} :
    readsBackItems items = true ↔ ∀ v ∈ items, readsBack v = true := by
  induction items with
  | nil => simp [readsBackItems]
  | cons v rest ih => simp [readsBackItems, ih]

theorem readsBackMembers_iff {members : List (JsString × Json)} :
    readsBackMembers members = true ↔ ∀ m ∈ members, readsBack m.2 = true := by
  induction members with
  | nil => simp [readsBackMembers]
  | cons m rest ih => simp [readsBackMembers, ih]

theorem finiteItems_iff {items : List Json} :
    finiteItems items = true ↔ ∀ v ∈ items, finite v = true := by
  induction items with
  | nil => simp [finiteItems]
  | cons v rest ih => simp [finiteItems, ih]

theorem finiteMembers_iff {members : List (JsString × Json)} :
    finiteMembers members = true ↔ ∀ m ∈ members, finite m.2 = true := by
  induction members with
  | nil => simp [finiteMembers]
  | cons m rest ih => simp [finiteMembers, ih]

theorem printedItems_eq_map (items : List Json) : printedItems items = items.map printed := by
  induction items with
  | nil => rfl
  | cons v rest ih => simp [printedItems, ih]

theorem printedMembers_eq_map (members : List (JsString × Json)) :
    printedMembers members = members.map fun m => (m.1, printed m.2) := by
  induction members with
  | nil => rfl
  | cons m rest ih => simp [printedMembers, ih]

theorem sortItems_eq_map (le : JsString → JsString → Bool) (items : List Json) :
    sortItems le items = items.map (sortKeys le) := by
  induction items with
  | nil => rfl
  | cons v rest ih => simp [sortItems, ih]

theorem sortMembers_eq_map (le : JsString → JsString → Bool) (members : List (JsString × Json)) :
    sortMembers le members = members.map fun m => (m.1, sortKeys le m.2) := by
  induction members with
  | nil => rfl
  | cons m rest ih => simp [sortMembers, ih]

theorem readsBack_arr_iff {items : List Json} :
    readsBack (.arr items) = true ↔ ∀ v ∈ items, readsBack v = true := readsBackItems_iff

theorem readsBack_obj_iff {members : List (JsString × Json)} :
    readsBack (.obj members) = true ↔
      (members.map Prod.fst).Nodup ∧ ∀ m ∈ members, readsBack m.2 = true := by
  rw [readsBack, Bool.and_eq_true, decide_eq_true_eq, readsBackMembers_iff]

end Lists

section Read

/-- What is written for the value is read back as what was written. -/
def Readable (v : Json) : Prop := readsBack (printed v) = true

theorem readable_arr {items : List Json} : Readable (.arr items) ↔ ∀ v ∈ items, Readable v := by
  rw [Readable, printed, printedItems_eq_map, readsBack_arr_iff]
  simp [Readable]

/-- The members of an object that was read: each name once, each value readable. -/
def ReadableMembers (members : List (JsString × Json)) : Prop :=
  (members.map Prod.fst).Nodup ∧ ∀ m ∈ members, Readable m.2

theorem readable_obj {members : List (JsString × Json)} :
    Readable (.obj members) ↔ ReadableMembers members := by
  have hnames : (members.map fun m => (m.1, printed m.2)).map Prod.fst = members.map Prod.fst := by
    rw [List.map_map]
    rfl
  rw [Readable, printed, printedMembers_eq_map, readsBack_obj_iff, hnames, List.forall_mem_map]
  rfl

theorem setMember_readable {members : List (JsString × Json)} {key : JsString} {v : Json}
    (h : ReadableMembers members) (hv : Readable v) : ReadableMembers (setMember members key v) := by
  by_cases hmem : key ∈ members.map Prod.fst
  · have hany : (members.any fun m => decide (m.1 = key)) = true := by
      obtain ⟨m, hm, hkey⟩ := List.mem_map.mp hmem
      exact List.any_eq_true.mpr ⟨m, hm, decide_eq_true hkey⟩
    rw [setMember, if_pos hany]
    constructor
    · have hnames : (members.map fun m => if m.1 = key then (key, v) else m).map Prod.fst =
          members.map Prod.fst := by
        rw [List.map_map]
        refine List.map_congr_left fun m _ => ?_
        by_cases hkey : m.1 = key
        · simp [hkey]
        · simp [hkey]
      rw [hnames]
      exact h.1
    · intro m hm
      obtain ⟨m', hm', rfl⟩ := List.mem_map.mp hm
      by_cases hkey : m'.1 = key
      · rw [if_pos hkey]
        exact hv
      · rw [if_neg hkey]
        exact h.2 m' hm'
  · rw [setMember_new hmem]
    constructor
    · rw [List.map_append, List.nodup_append]
      refine ⟨h.1, by simp, ?_⟩
      intro a ha b hb hab
      rw [List.map_singleton, List.mem_singleton] at hb
      rw [hab, hb] at ha
      exact hmem ha
    · intro m hm
      rcases List.mem_append.mp hm with hm | hm
      · exact h.2 m hm
      · rw [List.mem_singleton.mp hm]
        exact hv

theorem literal?_some {word s rest : JsString} {v w : Json} (h : literal? word v s = some (w, rest)) :
    w = v := by
  unfold literal? at h
  split_ifs at h
  exact (Prod.mk.inj (Option.some.inj h)).1.symm

theorem number?_readable {s rest : JsString} {v : Json} (h : number? s = some (v, rest)) :
    Readable v := by
  unfold number? at h
  simp only at h
  split_ifs at h with htext
  have hv := (Prod.mk.inj (Option.some.inj h)).1
  rw [← hv]
  exact JsonNumbers.readsBack_numberOf _

/-- What the readers return with some fuel is readable. -/
structure ReadableWith (fuel : ℕ) : Prop where
  value : ∀ {s rest v}, value? fuel s = some (v, rest) → Readable v
  items : ∀ {s rest vs}, items? fuel s = some (vs, rest) → ∀ v ∈ vs, Readable v
  members : ∀ {before s rest ms}, ReadableMembers before →
    members? fuel before s = some (ms, rest) → ReadableMembers ms

theorem value?_readable {fuel : ℕ} (ih : ReadableWith fuel) {s rest : JsString} {v : Json}
    (h : value? (fuel + 1) s = some (v, rest)) : Readable v := by
  rw [value?] at h
  cases hs : skipSpace s with
  | nil => simp [hs] at h
  | cons u more =>
    simp only [hs] at h
    split_ifs at h with hquote hbracket hclosed hbrace hclosed hn ht hf
    · obtain ⟨p, -, hp⟩ := Option.map_eq_some_iff.mp h
      rw [← (Prod.mk.inj hp).1]
      rfl
    · rw [← (Prod.mk.inj (Option.some.inj h)).1]
      rfl
    · obtain ⟨p, hitems, hp⟩ := Option.map_eq_some_iff.mp h
      rw [← (Prod.mk.inj hp).1, readable_arr]
      exact ih.items hitems
    · rw [← (Prod.mk.inj (Option.some.inj h)).1]
      rfl
    · obtain ⟨p, hmembers, hp⟩ := Option.map_eq_some_iff.mp h
      rw [← (Prod.mk.inj hp).1, readable_obj]
      exact ih.members ⟨by simp, by simp⟩ hmembers
    · rw [literal?_some h]
      rfl
    · rw [literal?_some h]
      rfl
    · rw [literal?_some h]
      rfl
    · exact number?_readable h

theorem items?_readable {fuel : ℕ} (ih : ReadableWith fuel) {s rest : JsString} {vs : List Json}
    (h : items? (fuel + 1) s = some (vs, rest)) : ∀ v ∈ vs, Readable v := by
  rw [items?] at h
  obtain ⟨⟨w, behind⟩, hw, h⟩ := Option.bind_eq_some_iff.mp h
  cases hs : skipSpace behind with
  | nil => simp [hs] at h
  | cons u more =>
    simp only [hs] at h
    split_ifs at h with hclose hcomma
    · rw [← (Prod.mk.inj (Option.some.inj h)).1]
      intro v hv
      rw [List.mem_singleton.mp hv]
      exact ih.value hw
    · obtain ⟨q, hq, hp⟩ := Option.map_eq_some_iff.mp h
      rw [← (Prod.mk.inj hp).1]
      intro v hv
      rcases List.mem_cons.mp hv with rfl | hv
      · exact ih.value hw
      · exact ih.items hq v hv

theorem members?_readable {fuel : ℕ} (ih : ReadableWith fuel) {before ms : List (JsString × Json)}
    {s rest : JsString} (hbefore : ReadableMembers before)
    (h : members? (fuel + 1) before s = some (ms, rest)) : ReadableMembers ms := by
  rw [members?] at h
  cases hs : skipSpace s with
  | nil => simp [hs] at h
  | cons u more =>
    simp only [hs] at h
    split_ifs at h with hquote
    obtain ⟨key, -, h⟩ := Option.bind_eq_some_iff.mp h
    split_ifs at h with hcolon
    obtain ⟨⟨w, behind⟩, hw, h⟩ := Option.bind_eq_some_iff.mp h
    have hset : ReadableMembers (setMember before key.1 w) :=
      setMember_readable hbefore (ih.value hw)
    cases hbehind : skipSpace behind with
    | nil => simp [hbehind] at h
    | cons u more =>
      simp only [hbehind] at h
      split_ifs at h with hclose hcomma
      · rw [← (Prod.mk.inj (Option.some.inj h)).1]
        exact hset
      · exact ih.members hset h

theorem readableWith (fuel : ℕ) : ReadableWith fuel := by
  induction fuel with
  | zero =>
    refine ⟨?_, ?_, ?_⟩
    · intro s rest v h
      simp [value?] at h
    · intro s rest vs h
      simp [items?] at h
    · intro before s rest ms _ h
      simp [members?] at h
  | succ fuel ih => exact ⟨value?_readable ih, items?_readable ih, members?_readable ih⟩

/-- A value that was read from a text. -/
theorem parse_readable {s : JsString} {v : Json} (h : parse s = some v) : Readable v := by
  rw [parse] at h
  obtain ⟨p, hp, h⟩ := Option.bind_eq_some_iff.mp h
  split_ifs at h
  rw [← Option.some.inj h]
  exact (readableWith _).value hp

/-- The text of a value is read as what is printed for it. -/
theorem parse_printed {v : Json} (h : Readable v) : parse (stringify v) = some (printed v) := by
  have hread := @parse_stringify _ h [] (by simp)
  rwa [List.append_nil, stringify_printed] at hread

end Read

section Order

theorem sameContent_item {v w : Json} (before after : List Json) (h : SameContent v w) :
    SameContent (.arr (before ++ v :: after)) (.arr (before ++ w :: after)) :=
  h.lift (fun x => Json.arr (before ++ x :: after)) fun _ _ hstep => .item before after hstep

theorem sameContent_member {v w : Json} (key : JsString) (before after : List (JsString × Json))
    (h : SameContent v w) :
    SameContent (.obj (before ++ (key, v) :: after)) (.obj (before ++ (key, w) :: after)) :=
  h.lift (fun x => Json.obj (before ++ (key, x) :: after)) fun _ _ hstep =>
    .member key before after hstep

theorem sameContent_items (f : Json → Json) (before items : List Json)
    (h : ∀ v ∈ items, SameContent v (f v)) :
    SameContent (.arr (before ++ items)) (.arr (before ++ items.map f)) := by
  induction items generalizing before with
  | nil => exact .refl
  | cons v rest ih =>
    have hfirst := sameContent_item before rest (h v List.mem_cons_self)
    have hrest := ih (before ++ [f v]) fun w hw => h w (List.mem_cons_of_mem v hw)
    rw [List.append_assoc, List.append_assoc] at hrest
    exact hfirst.trans hrest

theorem sameContent_members (f : Json → Json) (before members : List (JsString × Json))
    (h : ∀ m ∈ members, SameContent m.2 (f m.2)) :
    SameContent (.obj (before ++ members)) (.obj (before ++ members.map fun m => (m.1, f m.2))) := by
  induction members generalizing before with
  | nil => exact .refl
  | cons m rest ih =>
    have hfirst := sameContent_member m.1 before rest (h m List.mem_cons_self)
    have hrest := ih (before ++ [(m.1, f m.2)]) fun w hw => h w (List.mem_cons_of_mem m hw)
    rw [List.append_assoc, List.append_assoc] at hrest
    exact hfirst.trans hrest

mutual
/-- Bringing the members in order changes nothing but their order. -/
theorem sameContent_sortKeys (le : JsString → JsString → Bool) :
    ∀ v : Json, SameContent v (sortKeys le v)
  | .null | .bool _ | .num _ | .str _ => .refl
  | .arr items => by
    rw [sortKeys, sortItems_eq_map]
    exact sameContent_items (sortKeys le) [] items (sameContent_sortItems le items)
  | .obj members => by
    rw [sortKeys]
    have hsorted := List.perm_insertionSort (fun a b : JsString × Json => le a.1 b.1 = true)
      (sortMembers le members)
    refine Relation.ReflTransGen.tail ?_ (.members hsorted.symm)
    rw [sortMembers_eq_map]
    exact sameContent_members (sortKeys le) [] members (sameContent_sortMembers le members)

theorem sameContent_sortItems (le : JsString → JsString → Bool) :
    ∀ items : List Json, ∀ v ∈ items, SameContent v (sortKeys le v)
  | [], _, hv => by simp at hv
  | v :: rest, w, hw => by
    rcases List.mem_cons.mp hw with heq | hw
    · rw [heq]
      exact sameContent_sortKeys le v
    · exact sameContent_sortItems le rest w hw

theorem sameContent_sortMembers (le : JsString → JsString → Bool) :
    ∀ members : List (JsString × Json), ∀ m ∈ members, SameContent m.2 (sortKeys le m.2)
  | [], _, hm => by simp at hm
  | (_, v) :: rest, m, hm => by
    rcases List.mem_cons.mp hm with heq | hm
    · rw [heq]
      exact sameContent_sortKeys le v
    · exact sameContent_sortMembers le rest m hm
end

theorem Reordered.symm {v w : Json} (h : Reordered v w) : Reordered w v := by
  induction h with
  | members h => exact .members h.symm
  | item before after _ ih => exact .item before after ih
  | member key before after _ ih => exact .member key before after ih

theorem SameContent.symm {v w : Json} (h : SameContent v w) : SameContent w v := by
  induction h with
  | refl => exact .refl
  | tail _ hstep ih => exact .head hstep.symm ih

theorem nestsMembers_perm {a b : List (JsString × Json)} (h : a.Perm b) :
    nestsMembers a = nestsMembers b := by
  induction h with
  | nil => rfl
  | cons m _ ih => simp only [nestsMembers, ih]
  | swap m m' rest =>
    simp only [nestsMembers]
    omega
  | trans _ _ ih ih' => exact ih.trans ih'

theorem nestsItems_exchange (before after : List Json) {v w : Json} (h : nests v = nests w) :
    nestsItems (before ++ v :: after) = nestsItems (before ++ w :: after) := by
  induction before with
  | nil => simp only [List.nil_append, nestsItems, h]
  | cons u rest ih => simp only [List.cons_append, nestsItems, ih]

theorem nestsMembers_exchange (key : JsString) (before after : List (JsString × Json)) {v w : Json}
    (h : nests v = nests w) :
    nestsMembers (before ++ (key, v) :: after) = nestsMembers (before ++ (key, w) :: after) := by
  induction before with
  | nil => simp only [List.nil_append, nestsMembers, h]
  | cons u rest ih => simp only [List.cons_append, nestsMembers, ih]

theorem nests_reordered {v w : Json} (h : Reordered v w) : nests v = nests w := by
  induction h with
  | members h => exact nestsMembers_perm h
  | item before after _ ih => exact nestsItems_exchange before after ih
  | member key before after _ ih => exact nestsMembers_exchange key before after ih

theorem finite_reordered {v w : Json} (h : Reordered v w) : finite v = finite w := by
  have htruth : ∀ {x y : Bool}, (x = true ↔ y = true) → x = y := Bool.eq_iff_iff.mpr
  induction h with
  | members h =>
    apply htruth
    rw [finite, finite, finiteMembers_iff, finiteMembers_iff]
    exact forall_congr' fun m => by rw [h.mem_iff]
  | item before after _ ih =>
    apply htruth
    rw [finite, finite, finiteItems_iff, finiteItems_iff]
    simp only [List.mem_append, List.mem_cons, or_imp, forall_and, forall_eq, ih]
  | member key before after _ ih =>
    apply htruth
    rw [finite, finite, finiteMembers_iff, finiteMembers_iff]
    simp only [List.mem_append, List.mem_cons, or_imp, forall_and, forall_eq, ih]

theorem readable_reordered {v w : Json} (h : Reordered v w) : Readable v → Readable w := by
  induction h with
  | members h =>
    rw [readable_obj, readable_obj]
    rintro ⟨hnames, hvalues⟩
    exact ⟨(h.map Prod.fst).nodup_iff.mp hnames, fun m hm => hvalues m (h.mem_iff.mpr hm)⟩
  | item before after _ ih =>
    intro hread
    rw [readable_arr] at hread ⊢
    simp only [List.mem_append, List.mem_cons, or_imp, forall_and, forall_eq] at hread ⊢
    obtain ⟨hbefore, hv, hafter⟩ := hread
    exact ⟨hbefore, ih hv, hafter⟩
  | member key before after _ ih =>
    intro hread
    rw [readable_obj] at hread ⊢
    simp only [ReadableMembers, List.map_append, List.map_cons, List.mem_append, List.mem_cons,
      or_imp, forall_and, forall_eq] at hread ⊢
    obtain ⟨hnames, hbefore, hv, hafter⟩ := hread
    exact ⟨hnames, hbefore, ih hv, hafter⟩

theorem SameContent.readable {v w : Json} (h : SameContent v w) (hv : Readable v) : Readable w := by
  induction h with
  | refl => exact hv
  | tail _ hstep ih => exact readable_reordered hstep ih

theorem SameContent.finite_eq {v w : Json} (h : SameContent v w) : finite v = finite w := by
  induction h with
  | refl => rfl
  | tail _ hstep ih => exact ih.trans (finite_reordered hstep)

theorem SameContent.nests_eq {v w : Json} (h : SameContent v w) : nests v = nests w := by
  induction h with
  | refl => rfl
  | tail _ hstep ih => exact ih.trans (nests_reordered hstep)

end Order

section Parts

/-- The values of two lists agree one by one. -/
abbrev SameItems : List Json → List Json → Prop := List.Forall₂ SameContent

theorem sameItems_refl (items : List Json) : SameItems items items :=
  List.forall₂_same.mpr fun _ _ => .refl

theorem sameItems_trans {a b c : List Json} (h : SameItems a b) (h' : SameItems b c) :
    SameItems a c := by
  induction h generalizing c with
  | nil => exact h'
  | cons hv _ ih =>
    cases h' with
    | cons hw hrest => exact .cons (hv.trans hw) (ih hrest)

theorem sameContent_arr {items : List Json} {w : Json} (h : SameContent (.arr items) w) :
    ∃ others, w = .arr others ∧ SameItems items others := by
  induction h with
  | refl => exact ⟨items, rfl, sameItems_refl items⟩
  | tail _ hstep ih =>
    obtain ⟨others, rfl, hsame⟩ := ih
    cases hstep with
    | item before after hstep =>
      refine ⟨_, rfl, sameItems_trans hsame ?_⟩
      exact List.rel_append (sameItems_refl before) (.cons (.single hstep) (sameItems_refl after))

/-- Every member of the one object is a member of the other, with a value of the same content. -/
def Included (a b : List (JsString × Json)) : Prop :=
  ∀ key v, (key, v) ∈ a → ∃ w, (key, w) ∈ b ∧ SameContent v w

theorem included_step {a : List (JsString × Json)} {w : Json} (h : Reordered (.obj a) w) :
    ∃ b, w = .obj b ∧ Included a b := by
  cases h with
  | members h => exact ⟨_, rfl, fun key v hv => ⟨v, h.mem_iff.mp hv, .refl⟩⟩
  | @member v' w' name before after hstep =>
    refine ⟨_, rfl, fun key v hv => ?_⟩
    rcases List.mem_append.mp hv with hv | hv
    · exact ⟨v, List.mem_append_left _ hv, .refl⟩
    · rcases List.mem_cons.mp hv with heq | hv
      · obtain ⟨rfl, rfl⟩ := Prod.mk.inj heq
        exact ⟨w', List.mem_append_right _ List.mem_cons_self, .single hstep⟩
      · exact ⟨v, List.mem_append_right _ (List.mem_cons_of_mem _ hv), .refl⟩

theorem sameContent_obj {a : List (JsString × Json)} {w : Json} (h : SameContent (.obj a) w) :
    ∃ b, w = .obj b ∧ Included a b := by
  induction h with
  | refl => exact ⟨a, rfl, fun key v hv => ⟨v, hv, .refl⟩⟩
  | tail _ hstep ih =>
    obtain ⟨b, rfl, hincluded⟩ := ih
    obtain ⟨c, rfl, hnext⟩ := included_step hstep
    refine ⟨c, rfl, fun key v hv => ?_⟩
    obtain ⟨w, hw, hsame⟩ := hincluded key v hv
    obtain ⟨x, hx, hsame'⟩ := hnext key w hw
    exact ⟨x, hx, hsame.trans hsame'⟩

/-- Only arrays and objects have another form. -/
theorem sameContent_scalar {v w : Json} (h : SameContent v w) (harr : ∀ items, v ≠ .arr items)
    (hobj : ∀ members, v ≠ .obj members) : v = w := by
  induction h with
  | refl => rfl
  | tail _ hstep ih =>
    subst ih
    cases hstep with
    | members => exact (hobj _ rfl).elim
    | item => exact (harr _ rfl).elim
    | member => exact (hobj _ rfl).elim

@[simp] theorem sameContent_str {s : JsString} {w : Json} :
    SameContent (.str s) w ↔ .str s = w := by
  constructor
  · exact fun h => sameContent_scalar h (by simp) (by simp)
  · rintro rfl
    exact .refl

@[simp] theorem sameContent_num {n : JsNumber} {w : Json} :
    SameContent (.num n) w ↔ .num n = w := by
  constructor
  · exact fun h => sameContent_scalar h (by simp) (by simp)
  · rintro rfl
    exact .refl

@[simp] theorem sameContent_bool {b : Bool} {w : Json} :
    SameContent (.bool b) w ↔ .bool b = w := by
  constructor
  · exact fun h => sameContent_scalar h (by simp) (by simp)
  · rintro rfl
    exact .refl

@[simp] theorem sameContent_null {w : Json} : SameContent .null w ↔ .null = w := by
  constructor
  · exact fun h => sameContent_scalar h (by simp) (by simp)
  · rintro rfl
    exact .refl

/-- A member of an object with literal names. -/
theorem sameContent_ofObject {a b : List (String × Json)}
    (h : SameContent (ofObject a) (ofObject b)) {key : String} {v : Json} (hv : (key, v) ∈ a) :
    ∃ w, (key, w) ∈ b ∧ SameContent v w := by
  obtain ⟨c, hc, hincluded⟩ := sameContent_obj h
  rw [ofObject, Json.obj.injEq] at hc
  obtain ⟨w, hw, hsame⟩ := hincluded (js key) v (List.mem_map_of_mem (f := fun m => (js m.1, m.2)) hv)
  rw [← hc] at hw
  obtain ⟨m, hm, heq⟩ := List.mem_map.mp hw
  obtain ⟨hkey, rfl⟩ := Prod.mk.inj heq
  rw [← js_injective hkey]
  exact ⟨m.2, hm, hsame⟩

/-- Objects that list the same literal names agree value by value. -/
theorem sameContent_values {a b : List (String × Json)}
    (h : SameContent (ofObject a) (ofObject b)) (hnames : a.map Prod.fst = b.map Prod.fst)
    (hnodup : (b.map Prod.fst).Nodup) : SameItems (a.map Prod.snd) (b.map Prod.snd) := by
  have hvalue : ∀ key v w, (key, v) ∈ a → (key, w) ∈ b → SameContent v w := by
    intro key v w hv hw
    obtain ⟨x, hx, hsame⟩ := sameContent_ofObject h hv
    obtain ⟨-, rfl⟩ := Prod.mk.inj (List.inj_on_of_nodup_map hnodup hx hw rfl)
    exact hsame
  clear h hnodup
  induction a generalizing b with
  | nil =>
    rw [List.map_nil, eq_comm, List.map_eq_nil_iff] at hnames
    rw [hnames]
    exact .nil
  | cons m rest ih =>
    cases b with
    | nil => cases hnames
    | cons m' rest' =>
      rw [List.map_cons, List.map_cons, List.cons.injEq] at hnames
      obtain ⟨key, v⟩ := m
      obtain ⟨key', v'⟩ := m'
      obtain ⟨rfl, hnames⟩ := hnames
      refine .cons (hvalue key v v' List.mem_cons_self List.mem_cons_self) (ih hnames ?_)
      intro name w w' hw hw'
      exact hvalue name w w' (List.mem_cons_of_mem _ hw) (List.mem_cons_of_mem _ hw')

end Parts

section Canonical

/-- The names of members are totally ordered. -/
structure NameOrder (le : JsString → JsString → Bool) : Prop where
  total : ∀ a b, le a b = true ∨ le b a = true
  trans : ∀ a b c, le a b = true → le b c = true → le a c = true
  antisymm : ∀ a b, le a b = true → le b a = true → a = b

variable {le : JsString → JsString → Bool} (order : NameOrder le)
include order

/-- Members with distinct names have one order. -/
theorem insertionSort_members {a b : List (JsString × Json)} (h : a.Perm b)
    (hnames : (a.map Prod.fst).Nodup) :
    a.insertionSort (fun x y => le x.1 y.1 = true) =
      b.insertionSort fun x y => le x.1 y.1 = true := by
  have htrans : IsTrans (JsString × Json) fun x y => le x.1 y.1 = true :=
    ⟨fun x y z => order.trans x.1 y.1 z.1⟩
  have htotal : Std.Total fun x y : JsString × Json => le x.1 y.1 = true :=
    ⟨fun x y => order.total x.1 y.1⟩
  have ha := List.perm_insertionSort (fun x y : JsString × Json => le x.1 y.1 = true) a
  have hb := List.perm_insertionSort (fun x y : JsString × Json => le x.1 y.1 = true) b
  refine List.Perm.eq_of_pairwise ?_ (List.pairwise_insertionSort _ a)
    (List.pairwise_insertionSort _ b) ((ha.trans h).trans hb.symm)
  intro x y hx hy hxy hyx
  have hx' : x ∈ a := ha.mem_iff.mp hx
  have hy' : y ∈ a := h.mem_iff.mpr (hb.mem_iff.mp hy)
  exact List.inj_on_of_nodup_map hnames hx' hy' (order.antisymm _ _ hxy hyx)

theorem sortKeys_reordered {v w : Json} (h : Reordered v w) :
    Readable v → sortKeys le v = sortKeys le w := by
  induction h with
  | @members a b h =>
    intro hv
    have hnames : ((sortMembers le a).map Prod.fst).Nodup := by
      have hsame : (sortMembers le a).map Prod.fst = a.map Prod.fst := by
        rw [sortMembers_eq_map, List.map_map]
        rfl
      rw [hsame]
      exact (readable_obj.mp hv).1
    have hperm : (sortMembers le a).Perm (sortMembers le b) := by
      rw [sortMembers_eq_map, sortMembers_eq_map]
      exact h.map _
    rw [sortKeys, sortKeys, insertionSort_members order hperm hnames]
  | item before after _ ih =>
    intro hv
    have hitem := ih (readable_arr.mp hv _ (List.mem_append_right _ List.mem_cons_self))
    simp only [sortKeys, sortItems_eq_map, List.map_append, List.map_cons, hitem]
  | member key before after _ ih =>
    intro hv
    have hmember := ih ((readable_obj.mp hv).2 _ (List.mem_append_right _ List.mem_cons_self))
    simp only [sortKeys, sortMembers_eq_map, List.map_append, List.map_cons, hmember]

omit order in
mutual
theorem printed_sortKeys (le : JsString → JsString → Bool) :
    ∀ v : Json, printed (sortKeys le v) = sortKeys le (printed v)
  | .null | .bool _ | .str _ => rfl
  | .num (.int _) | .num (.scientific ..) | .num (.infinite _) => rfl
  | .arr items => by
    rw [sortKeys, printed, printed, sortKeys, printedItems_sortItems le items]
  | .obj members => by
    rw [sortKeys, printed, printed, sortKeys, printedMembers_eq_map,
      List.map_insertionSort _ (fun x y : JsString × Json => le x.1 y.1 = true) _ _ (by simp),
      ← printedMembers_eq_map, printedMembers_sortMembers le members]

theorem printedItems_sortItems (le : JsString → JsString → Bool) :
    ∀ items : List Json, printedItems (sortItems le items) = sortItems le (printedItems items)
  | [] => rfl
  | v :: rest => by
    simp only [sortItems, printedItems, printed_sortKeys le v, printedItems_sortItems le rest]

theorem printedMembers_sortMembers (le : JsString → JsString → Bool) :
    ∀ members : List (JsString × Json),
      printedMembers (sortMembers le members) = sortMembers le (printedMembers members)
  | [] => rfl
  | (k, v) :: rest => by
    simp only [sortMembers, printedMembers, printed_sortKeys le v,
      printedMembers_sortMembers le rest]
end

/-- Values of the same content have one ordered form. -/
theorem SameContent.sortKeys_eq {v w : Json} (h : SameContent v w) (hv : Readable v) :
    sortKeys le v = sortKeys le w := by
  induction h with
  | refl => rfl
  | tail hbefore hstep ih =>
    exact ih.trans (sortKeys_reordered order hstep (SameContent.readable hbefore hv))

omit order in
/-- The ordered text of a value is read as the ordered value, with null for infinite numbers. -/
theorem parse_sortKeys (le : JsString → JsString → Bool) {v : Json} (hv : Readable v) :
    parse (stringify (sortKeys le v)) = some (sortKeys le (printed v)) := by
  have hsorted : Readable (sortKeys le v) := (sameContent_sortKeys le v).readable hv
  rw [parse_printed hsorted, printed_sortKeys]

omit order in
theorem readable_printed {v : Json} (hv : Readable v) : Readable (printed v) := by
  have hread := parse_printed hv
  exact parse_readable hread

theorem sortKeys_eq_iff {v w : Json} (hv : Readable v) :
    sortKeys le v = sortKeys le w ↔ SameContent v w := by
  constructor
  · intro h
    have hw := (sameContent_sortKeys le w).symm
    rw [← h] at hw
    exact (sameContent_sortKeys le v).trans hw
  · intro h
    exact SameContent.sortKeys_eq order h hv

/-- The ordered texts of two values agree when what they are read as has the same content. -/
theorem sortedText_eq_iff {v w : Json} (hv : Readable v) (hw : Readable w) :
    stringify (sortKeys le v) = stringify (sortKeys le w) ↔
      SameContent (printed v) (printed w) := by
  rw [← sortKeys_eq_iff order (readable_printed hv)]
  constructor
  · intro htext
    have hread := parse_sortKeys le hv
    rw [htext, parse_sortKeys le hw, Option.some.injEq] at hread
    exact hread.symm
  · intro hsame
    rw [← stringify_printed (sortKeys le v), printed_sortKeys, hsame, ← printed_sortKeys,
      stringify_printed]

theorem sortedText_sameContent {v w : Json} (hv : Readable v) (h : SameContent v w) :
    stringify (sortKeys le v) = stringify (sortKeys le w) := by
  rw [SameContent.sortKeys_eq order h hv]

end Canonical

section Finite

mutual
theorem printed_finite : ∀ v : Json, finite v = true → printed v = v
  | .null, _ | .bool _, _ | .str _, _ => rfl
  | .num (.int _), _ | .num (.scientific ..), _ => rfl
  | .num (.infinite _), h => by cases h
  | .arr items, h => by rw [printed, printedItems_finite items h]
  | .obj members, h => by rw [printed, printedMembers_finite members h]

theorem printedItems_finite :
    ∀ items : List Json, finiteItems items = true → printedItems items = items
  | [], _ => rfl
  | v :: rest, h => by
    rw [finiteItems, Bool.and_eq_true] at h
    rw [printedItems, printed_finite v h.1, printedItems_finite rest h.2]

theorem printedMembers_finite :
    ∀ members : List (JsString × Json), finiteMembers members = true →
      printedMembers members = members
  | [], _ => rfl
  | (k, v) :: rest, h => by
    rw [finiteMembers, Bool.and_eq_true] at h
    rw [printedMembers, printed_finite v h.1, printedMembers_finite rest h.2]
end

mutual
theorem finite_printed : ∀ v : Json, finite (printed v) = true
  | .null | .bool _ | .str _ => rfl
  | .num (.int _) | .num (.scientific ..) | .num (.infinite _) => rfl
  | .arr items => by rw [printed, finite, finiteItems_printed items]
  | .obj members => by rw [printed, finite, finiteMembers_printed members]

theorem finiteItems_printed : ∀ items : List Json, finiteItems (printedItems items) = true
  | [] => rfl
  | v :: rest => by
    rw [printedItems, finiteItems, finite_printed v, finiteItems_printed rest, Bool.and_self]

theorem finiteMembers_printed :
    ∀ members : List (JsString × Json), finiteMembers (printedMembers members) = true
  | [] => rfl
  | (k, v) :: rest => by
    rw [printedMembers, finiteMembers, finite_printed v, finiteMembers_printed rest, Bool.and_self]
end

/-- The ordered text is read back as the value exactly when every number is finite. -/
theorem sortedText_back_iff (le : JsString → JsString → Bool) {v : Json} (hv : Readable v) :
    (∃ u, parse (stringify (sortKeys le v)) = some u ∧ SameContent v u) ↔ finite v = true := by
  rw [parse_sortKeys le hv]
  constructor
  · rintro ⟨u, hu, hcontent⟩
    rw [← Option.some.inj hu] at hcontent
    have hprinted : SameContent v (printed v) :=
      hcontent.trans (sameContent_sortKeys le (printed v)).symm
    rw [hprinted.finite_eq, finite_printed v]
  · intro hfinite
    rw [printed_finite v hfinite]
    exact ⟨_, rfl, sameContent_sortKeys le v⟩

end Finite

end CanonicalJson
