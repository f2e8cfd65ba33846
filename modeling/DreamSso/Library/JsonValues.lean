import DreamSso.Library.JsStrings
import Mathlib.Data.List.Sort

/-!
JSON values and JSON.stringify. An object lists its members in enumeration
order, so two objects that differ only in key order are different values;
`sortKeys` brings the members of every object into one chosen order, which
does not change the UTF-8 length of the text.
-/
namespace JsonValues

open JsStrings

instance instNeZeroTen : NeZero 10 := ⟨by decide⟩

/-- An integer JavaScript prints by its digits, any other finite number through the
sign, digits and exponent of its shortest text, or what a numeral beyond the
largest double is read as. -/
inductive JsNumber
  | int (n : ℤ)
  | scientific (negative : Bool) (whole : ℕ) (fraction : List (Fin 10)) (exponent : Option ℤ)
      (shape : fraction ≠ [] ∨ exponent.isSome)
  | infinite (negative : Bool)
  deriving DecidableEq

def exponentText : ℤ → JsString
  | .ofNat n => 0x65 :: 0x2b :: decimal n
  | .negSucc n => 0x65 :: 0x2d :: decimal (n + 1)

/-- The JSON text of a number; JSON has none for an infinite one. -/
def JsNumber.text : JsNumber → JsString
  | .int n => intText n
  | .scientific negative whole fraction exponent _ =>
      (if negative then [0x2d] else []) ++ decimal whole ++
        (if fraction = [] then [] else 0x2e :: fraction.map fun d => 0x30 + d.val) ++
        (exponent.elim [] exponentText)
  | .infinite _ => js "null"

inductive Json
  | null
  | bool (b : Bool)
  | num (n : JsNumber)
  | str (s : JsString)
  | arr (items : List Json)
  | obj (members : List (JsString × Json))

namespace Json

mutual
def beq : Json → Json → Bool
  | .null, .null => true
  | .bool a, .bool b => a == b
  | .num a, .num b => a == b
  | .str a, .str b => a == b
  | .arr a, .arr b => beqItems a b
  | .obj a, .obj b => beqMembers a b
  | _, _ => false

def beqItems : List Json → List Json → Bool
  | [], [] => true
  | a :: as, b :: bs => beq a b && beqItems as bs
  | _, _ => false

def beqMembers : List (JsString × Json) → List (JsString × Json) → Bool
  | [], [] => true
  | (k, a) :: as, (l, b) :: bs => k == l && beq a b && beqMembers as bs
  | _, _ => false
end

mutual
theorem beq_iff : ∀ v w : Json, beq v w = true ↔ v = w
  | .null, w => by cases w <;> simp [beq]
  | .bool a, w => by cases w <;> simp [beq]
  | .num a, w => by cases w <;> simp [beq]
  | .str a, w => by cases w <;> simp [beq]
  | .arr a, w => by cases w <;> simp [beq, beqItems_iff a]
  | .obj a, w => by cases w <;> simp [beq, beqMembers_iff a]

theorem beqItems_iff : ∀ v w : List Json, beqItems v w = true ↔ v = w
  | [], w => by cases w <;> simp [beqItems]
  | a :: as, w => by cases w <;> simp [beqItems, beq_iff a, beqItems_iff as]

theorem beqMembers_iff : ∀ v w : List (JsString × Json), beqMembers v w = true ↔ v = w
  | [], w => by cases w <;> simp [beqMembers]
  | (k, a) :: as, w => by
    cases w with
    | nil => simp [beqMembers]
    | cons m bs =>
      obtain ⟨l, b⟩ := m
      simp [beqMembers, beq_iff a, beqMembers_iff as, and_assoc]
end

instance : DecidableEq Json := fun v w => decidable_of_iff _ (beq_iff v w)

mutual
/-- JSON.stringify. -/
def stringify : Json → JsString
  | .null => js "null"
  | .bool true => js "true"
  | .bool false => js "false"
  | .num n => n.text
  | .str s => quote s
  | .arr items => 0x5b :: (List.intercalate [0x2c] (itemTexts items) ++ [0x5d])
  | .obj members => 0x7b :: (List.intercalate [0x2c] (memberTexts members) ++ [0x7d])

def itemTexts : List Json → List JsString
  | [] => []
  | v :: rest => stringify v :: itemTexts rest

def memberTexts : List (JsString × Json) → List JsString
  | [] => []
  | (k, v) :: rest => (quote k ++ 0x3a :: stringify v) :: memberTexts rest
end

/-- The value of a member, as property access reads it. -/
def member? (members : List (JsString × Json)) (key : JsString) : Option Json :=
  members.lookup key

def ofObject (members : List (String × Json)) : Json :=
  .obj (members.map fun m => (js m.1, m.2))

def text (s : String) : Json := .str (js s)

def int (n : ℤ) : Json := .num (.int n)

/-- An absent value of a nullable column. -/
def ofOption (f : α → Json) : Option α → Json
  | none => .null
  | some a => f a

mutual
/-- The value with the members of every object put in the order `le`. -/
def sortKeys (le : JsString → JsString → Bool) : Json → Json
  | .null => .null
  | .bool b => .bool b
  | .num n => .num n
  | .str s => .str s
  | .arr items => .arr (sortItems le items)
  | .obj members =>
      .obj ((sortMembers le members).insertionSort fun a b => le a.1 b.1 = true)

def sortItems (le : JsString → JsString → Bool) : List Json → List Json
  | [] => []
  | v :: rest => sortKeys le v :: sortItems le rest

def sortMembers (le : JsString → JsString → Bool) :
    List (JsString × Json) → List (JsString × Json)
  | [] => []
  | (k, v) :: rest => (k, sortKeys le v) :: sortMembers le rest
end

mutual
/-- What the JSON text of a value is read back as: an infinite number is written null. -/
def printed : Json → Json
  | .null => .null
  | .bool b => .bool b
  | .num (.infinite _) => .null
  | .num n => .num n
  | .str s => .str s
  | .arr items => .arr (printedItems items)
  | .obj members => .obj (printedMembers members)

def printedItems : List Json → List Json
  | [] => []
  | v :: rest => printed v :: printedItems rest

def printedMembers : List (JsString × Json) → List (JsString × Json)
  | [] => []
  | (k, v) :: rest => (k, printed v) :: printedMembers rest
end

mutual
theorem stringify_printed : ∀ v : Json, stringify (printed v) = stringify v
  | .null | .bool _ | .str _ => rfl
  | .num (.int _) | .num (.scientific ..) => rfl
  | .num (.infinite _) => rfl
  | .arr items => by rw [printed, stringify, stringify, itemTexts_printed items]
  | .obj members => by rw [printed, stringify, stringify, memberTexts_printed members]

theorem itemTexts_printed : ∀ items : List Json, itemTexts (printedItems items) = itemTexts items
  | [] => rfl
  | v :: rest => by
    rw [printedItems, itemTexts, itemTexts, stringify_printed v, itemTexts_printed rest]

theorem memberTexts_printed : ∀ members : List (JsString × Json),
    memberTexts (printedMembers members) = memberTexts members
  | [] => rfl
  | (k, v) :: rest => by
    rw [printedMembers, memberTexts, memberTexts, stringify_printed v, memberTexts_printed rest]
end

mutual
/-- The levels of arrays and objects below a value. -/
def nests : Json → ℕ
  | .arr items => nestsItems items
  | .obj members => nestsMembers members
  | _ => 0

def nestsItems : List Json → ℕ
  | [] => 0
  | v :: rest => max (nests v + 1) (nestsItems rest)

def nestsMembers : List (JsString × Json) → ℕ
  | [] => 0
  | (_, v) :: rest => max (nests v + 1) (nestsMembers rest)
end

theorem nestsItems_le {items : List Json} {n : ℕ} (h : ∀ v ∈ items, nests v < n) :
    nestsItems items ≤ n := by
  induction items with
  | nil => exact Nat.zero_le n
  | cons v rest ih =>
    have hv := h v List.mem_cons_self
    have hrest := ih fun w hw => h w (List.mem_cons_of_mem v hw)
    simp only [nestsItems]
    omega

theorem memberTexts_eq_map (members : List (JsString × Json)) :
    memberTexts members = members.map fun m => quote m.1 ++ 0x3a :: stringify m.2 := by
  induction members with
  | nil => rfl
  | cons m rest ih => simp [memberTexts, ih]

theorem itemTexts_eq_map (items : List Json) : itemTexts items = items.map stringify := by
  induction items with
  | nil => rfl
  | cons v rest ih => simp [itemTexts, ih]

theorem number_startsClean (n : JsNumber) : StartsClean n.text := by
  cases n with
  | int n => exact startsClean_of_ascii _ (intText_ascii n)
  | scientific negative whole fraction exponent shape =>
    simp only [JsNumber.text]
    cases negative with
    | true =>
      simp only [if_true, List.cons_append, List.append_assoc, List.nil_append]
      exact startsClean_cons _ _ rfl
    | false =>
      obtain ⟨u, rest, h⟩ := List.exists_cons_of_ne_nil (decimal_ne_nil whole)
      have hu : u < 0x80 := decimal_ascii whole u (h ▸ List.mem_cons_self)
      rw [h]
      refine startsClean_cons u _ ?_
      simp only [isLowSurrogate, Bool.and_eq_false_iff, decide_eq_false_iff_not]
      omega
  | infinite negative => exact startsClean_of_ascii (js "null") (by decide)

theorem stringify_startsClean (v : Json) : StartsClean (stringify v) := by
  cases v with
  | null => exact startsClean_of_ascii _ (by decide)
  | bool b => cases b <;> exact startsClean_of_ascii _ (by decide)
  | num n => simpa only [stringify] using number_startsClean n
  | str s => simp only [stringify]; exact startsClean_cons _ _ rfl
  | arr items => simp only [stringify]; exact startsClean_cons _ _ rfl
  | obj members => simp only [stringify]; exact startsClean_cons _ _ rfl

private theorem singleton_clean {u : ℕ} (h : isLowSurrogate u = false) : StartsClean [u] :=
  startsClean_cons u [] h

theorem startsClean_intercalate (texts : List JsString) (h : ∀ t ∈ texts, StartsClean t) :
    StartsClean (List.intercalate [0x2c] texts) := by
  cases texts with
  | nil => intro u hu; simp at hu
  | cons t rest =>
    have ht : StartsClean t := h t List.mem_cons_self
    cases rest with
    | nil => simpa using ht
    | cons s more =>
      rw [List.intercalate_cons_cons, List.append_assoc]
      exact startsClean_append t _ ht (startsClean_cons _ _ rfl)

/-- Joined texts take their own bytes and one for each comma between them. -/
theorem byteLength_intercalate (texts : List JsString) (h : ∀ t ∈ texts, StartsClean t) :
    byteLength (List.intercalate [0x2c] texts) =
      (texts.map byteLength).sum + (texts.length - 1) := by
  induction texts with
  | nil => rfl
  | cons t rest ih =>
    cases rest with
    | nil => simp
    | cons s more =>
      have hrest := ih fun w hw => h w (List.mem_cons_of_mem t hw)
      have hclean : StartsClean ([0x2c] ++ List.intercalate [0x2c] (s :: more)) :=
        startsClean_cons _ _ rfl
      have htail : StartsClean (List.intercalate [0x2c] (s :: more)) :=
        startsClean_intercalate _ fun w hw => h w (List.mem_cons_of_mem t hw)
      rw [List.intercalate_cons_cons, List.append_assoc, byteLength_append _ _ hclean,
        byteLength_append _ _ htail, hrest]
      simp only [List.map_cons, List.sum_cons, List.length_cons]
      have hcomma : byteLength [0x2c] = 1 := rfl
      omega

private theorem byteLength_enclosed (open_ close : ℕ) (body : JsString)
    (hopen : open_ < 0x80) (hclose : close < 0x80) (hbody : StartsClean body) :
    byteLength (open_ :: (body ++ [close])) = byteLength body + 2 := by
  have hlow : isLowSurrogate close = false := by
    simp only [isLowSurrogate, Bool.and_eq_false_iff, decide_eq_false_iff_not]
    omega
  have hsplit : open_ :: (body ++ [close]) = [open_] ++ (body ++ [close]) := rfl
  have hb : StartsClean (body ++ [close]) :=
    startsClean_append body _ hbody (singleton_clean hlow)
  rw [hsplit, byteLength_append _ _ hb, byteLength_append _ _ (singleton_clean hlow)]
  simp [byteLength, byteLengthFrom, hopen, hclose]
  omega

theorem stringify_arr_bytes (items : List Json) :
    byteLength (stringify (.arr items)) =
      (items.map fun v => byteLength (stringify v)).sum + (items.length - 1) + 2 := by
  have hclean : ∀ t ∈ itemTexts items, StartsClean t := by
    simp only [itemTexts_eq_map, List.mem_map]
    rintro t ⟨v, _, rfl⟩
    exact stringify_startsClean v
  rw [stringify, byteLength_enclosed 0x5b 0x5d _ (by omega) (by omega)
    (startsClean_intercalate _ hclean), byteLength_intercalate _ hclean, itemTexts_eq_map]
  simp [Function.comp_def]

/-- Bytes of one member of an object: its quoted key, the colon and its value. -/
def memberBytes (m : JsString × Json) : ℕ :=
  byteLength (quote m.1) + (1 + byteLength (stringify m.2))

theorem stringify_obj_bytes (members : List (JsString × Json)) :
    byteLength (stringify (.obj members)) =
      (members.map memberBytes).sum + (members.length - 1) + 2 := by
  have hclean : ∀ t ∈ memberTexts members, StartsClean t := by
    simp only [memberTexts_eq_map, List.mem_map]
    rintro t ⟨m, _, rfl⟩
    exact startsClean_cons _ _ rfl
  have hbytes : ∀ m : JsString × Json,
      byteLength (quote m.1 ++ 0x3a :: stringify m.2) = memberBytes m := by
    intro m
    have hcolon : StartsClean (0x3a :: stringify m.2) := startsClean_cons _ _ rfl
    have hvalue : byteLength ([0x3a] ++ stringify m.2) = 1 + byteLength (stringify m.2) :=
      byteLength_append _ _ (stringify_startsClean m.2)
    rw [byteLength_append _ _ hcolon, memberBytes]
    exact congrArg _ hvalue
  rw [stringify, byteLength_enclosed 0x7b 0x7d _ (by omega) (by omega)
    (startsClean_intercalate _ hclean), byteLength_intercalate _ hclean, memberTexts_eq_map]
  simp [Function.comp_def, hbytes]

theorem stringify_str_bytes {x : JsString} (h : ∀ u ∈ x, Plain u) :
    byteLength (stringify (.str x)) = x.length + 2 := by
  rw [stringify, quote_plain_bytes h]

/-- More members take their own bytes and a comma each. -/
theorem ofObject_append_bytes {members more : List (String × Json)} (h : members ≠ []) :
    byteLength (stringify (ofObject (members ++ more))) =
      byteLength (stringify (ofObject members)) +
        ((more.map fun m => memberBytes (js m.1, m.2)).sum + more.length) := by
  have hpos := List.length_pos_iff.mpr h
  rw [ofObject, ofObject, stringify_obj_bytes, stringify_obj_bytes]
  simp only [List.map_append, List.map_map, List.sum_append, List.length_append, List.length_map,
    Function.comp_def]
  omega

mutual
private theorem bytes_sortKeys (le : JsString → JsString → Bool) :
    ∀ v : Json, byteLength (stringify (sortKeys le v)) = byteLength (stringify v)
  | .null => rfl
  | .bool _ => rfl
  | .num _ => rfl
  | .str _ => rfl
  | .arr items => by
    have h := bytes_sortItems le items
    have hlen : (sortItems le items).length = items.length := by
      simpa using congrArg List.length h
    simp only [sortKeys, stringify_arr_bytes, h, hlen]
  | .obj members => by
    have h := bytes_sortMembers le members
    have hlen : (sortMembers le members).length = members.length := by
      simpa using congrArg List.length h
    have hperm := List.perm_insertionSort (fun a b : JsString × Json => le a.1 b.1 = true)
      (sortMembers le members)
    simp only [sortKeys, stringify_obj_bytes, (hperm.map _).sum_nat, hperm.length_eq, h, hlen]

private theorem bytes_sortItems (le : JsString → JsString → Bool) :
    ∀ items : List Json, (sortItems le items).map (fun v => byteLength (stringify v)) =
      items.map fun v => byteLength (stringify v)
  | [] => rfl
  | v :: rest => by
    simp only [sortItems, List.map_cons, bytes_sortKeys le v, bytes_sortItems le rest]

private theorem bytes_sortMembers (le : JsString → JsString → Bool) :
    ∀ members : List (JsString × Json), (sortMembers le members).map memberBytes =
      members.map memberBytes
  | [] => rfl
  | (k, v) :: rest => by
    simp only [sortMembers, List.map_cons, memberBytes, bytes_sortKeys le v,
      bytes_sortMembers le rest]
end

/-- Reordering the keys of a value at any depth keeps the byte length of its text. -/
theorem byteLength_sortKeys (le : JsString → JsString → Bool) (v : Json) :
    byteLength (stringify (sortKeys le v)) = byteLength (stringify v) := bytes_sortKeys le v

end Json

end JsonValues
