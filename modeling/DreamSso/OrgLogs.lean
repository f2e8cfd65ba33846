import DreamSso.OidcState
import DreamSso.Library.IsoDates
import DreamSso.Library.KeysetPages
import Mathlib.Data.Prod.Lex

/-!
The pages of the organisation's audit log. Rows are listed from the newest down, by the
time of the database in microseconds and then by id; the cursor of a page is made of what
JavaScript keeps of the last row's time, whole milliseconds.
-/
namespace DreamSso.OrgLogs

open JsStrings JsonValues IsoDates

/-- A `timestamptz` in microseconds, of the years 1 to 9999. The column takes its value
from the clock only. -/
structure Stamp where
  us : ℤ
  range : -62135596800000000 ≤ us ∧ us < 253402300800000000
  deriving DecidableEq

structure LogRow where
  id : Uuid
  actorSub : Option Uuid
  actorLabel : JsString
  targetSub : Option Uuid
  targetLabel : Option JsString
  action : JsString
  detail : Json
  createdAt : Stamp
  clearedAt : Option Stamp
  clearedBy : Option Uuid

/-- The table with its primary key. -/
structure AuditLog where
  rows : List LogRow
  ids : (rows.map LogRow.id).Nodup

/-- The Date that a time becomes keeps whole milliseconds. -/
def Stamp.date (t : Stamp) : Instant :=
  ⟨t.us / 1000, by have := t.range; omega⟩

/-- `(created_at, id)`, compared in this order. -/
def LogRow.key (r : LogRow) : ℤ ×ₗ Uuid := toLex (r.createdAt.us, r.id)

/-- How texts are read: `Date.parse`, and the casts of the database to a time and a uuid. -/
structure Texts where
  parses : JsString → Bool
  timestamptz : JsString → Option ℤ
  uuid : JsString → Option Uuid

/-- ISO texts of the years 1 to 9999 and canonical uuid texts are read as what they say. -/
structure Texts.Reads (texts : Texts) : Prop where
  parses : ∀ t : Instant, -62135596800000 ≤ t.ms → t.ms < 253402300800000 →
    texts.parses (toISOString t) = true
  timestamptz : ∀ t : Instant, -62135596800000 ≤ t.ms → t.ms < 253402300800000 →
    texts.timestamptz (toISOString t) = some (t.ms * 1000)
  uuid : ∀ u : Uuid, texts.uuid u.text = some u

def isLineTerminator (u : ℕ) : Bool := decide (u ∈ [0x0a, 0x0d, 0x2028, 0x2029])

/-- The groups of `/^(.+)_([0-9a-f-]{36})$/`. -/
def splitCursor (cursor : JsString) : Option (JsString × JsString) :=
  let stamp := cursor.take (cursor.length - 37)
  let id := cursor.drop (cursor.length - 36)
  if 38 ≤ cursor.length ∧ cursor[cursor.length - 37]? = some 0x5f ∧
      (stamp.all fun u => !isLineTerminator u) = true ∧
      (id.all fun u => isHexUnit u || decide (u = 0x2d)) = true
  then some (stamp, id) else none

def cursorText (r : LogRow) : JsString := toISOString r.createdAt.date ++ 0x5f :: r.id.text

structure Query where
  limit : Option JsString
  cursor : Option JsString
  includeCleared : Option JsString

def pageLimit (limit : Option JsString) : ℕ :=
  let text := limit.getD []
  let n := (parseInt (if text = [] then js "50" else text)).getD 0
  (min (max (if n = 0 then 50 else n) 1) 200).toNat

def shown (includeCleared : Option JsString) (r : LogRow) : Bool :=
  decide (includeCleared.getD [] = js "1") || r.clearedAt.isNone

structure Page where
  entries : List LogRow
  nextCursor : Option JsString

/-- The rows that pass the filter, in descending order of `(created_at, id)`. -/
def selectRows (log : AuditLog) (passes : LogRow → Bool) : List LogRow :=
  (log.rows.filter passes).mergeSort fun a b => decide (b.key ≤ a.key)

/-- The filter of a cursor; `none` when the database cannot read it. -/
def beforeCursor (texts : Texts) (cursor : JsString) : Option (LogRow → Bool) :=
  match splitCursor cursor with
  | none => some fun _ => true
  | some (stamp, id) =>
      if texts.parses stamp then
        match texts.timestamptz stamp, texts.uuid id with
        | some us, some u => some fun r => decide (r.key < toLex (us, u))
        | _, _ => none
      else some fun _ => true

/-- GET /account/org/logs. -/
def logs (texts : Texts) (log : AuditLog) (q : Query) : Option Page :=
  (beforeCursor texts (q.cursor.getD [])).map fun before =>
    let limit := pageLimit q.limit
    let rows := (selectRows log fun r => shown q.includeCleared r && before r).take (limit + 1)
    let page := rows.take limit
    ⟨page, if limit < rows.length then page.getLast?.map cursorText else none⟩

/-- A client that follows `next_cursor` until it is null, with at most so many requests. -/
def followLogs (texts : Texts) (log : AuditLog) (limit includeCleared : Option JsString) :
    ℕ → Option JsString → Option (List LogRow)
  | 0, _ => none
  | n + 1, cursor =>
    match logs texts log ⟨limit, cursor, includeCleared⟩ with
    | none => none
    | some page =>
      match page.nextCursor with
      | none => some page.entries
      | some next => (followLogs texts log limit includeCleared n (some next)).map fun rest =>
          page.entries ++ rest

section Cursors

theorem fieldsText_unit {fields : List Field} {u : ℕ} (h : u ∈ fieldsText fields) :
    u ∈ fields.map Field.separator ∨ isDigitUnit u = true := by
  induction fields with
  | nil => cases h
  | cons f rest ih =>
    rw [fieldsText, List.mem_cons, List.mem_append] at h
    rcases h with rfl | hpad | hrest
    · exact .inl List.mem_cons_self
    · exact .inr (pad_digit hpad)
    · exact (ih hrest).imp_left (List.mem_cons_of_mem _)

/-- An ISO text is made of digits, signs and the letters T and Z. -/
theorem isoText_unit {t : Instant} {u : ℕ} (h : u ∈ toISOString t) :
    isDigitUnit u = true ∨ u ∈ [0x2b, 0x2d, 0x54, 0x3a, 0x2e, 0x5a] := by
  unfold toISOString at h
  dsimp only at h
  rw [List.mem_append, List.mem_append, List.mem_singleton] at h
  rcases h with hyear | hfields | rfl
  · unfold yearText at hyear
    split at hyear
    · exact .inl (pad_digit hyear)
    · rcases List.mem_cons.mp hyear with rfl | hpad
      · split <;> simp
      · exact .inl (pad_digit hpad)
  · rcases fieldsText_unit hfields with hseparator | hdigit
    · simp only [dateFields, List.map_cons, List.map_nil, List.mem_cons, List.not_mem_nil,
        or_false] at hseparator
      right
      rcases hseparator with rfl | rfl | rfl | rfl | rfl | rfl <;> simp
    · exact .inl hdigit
  · simp

theorem isoText_clean (t : Instant) :
    toISOString t ≠ [] ∧ ∀ u ∈ toISOString t, isLineTerminator u = false := by
  refine ⟨by simp [toISOString], fun u hu => ?_⟩
  rcases isoText_unit hu with hdigit | hother
  · simp only [isDigitUnit, Bool.and_eq_true, decide_eq_true_eq] at hdigit
    simp only [isLineTerminator, List.mem_cons, List.not_mem_nil, or_false, decide_eq_false_iff_not]
    omega
  · revert hother
    simp only [List.mem_cons, List.not_mem_nil, or_false]
    rintro (rfl | rfl | rfl | rfl | rfl | rfl) <;> decide

theorem uuid_unit {u : Uuid} {x : ℕ} (hx : x ∈ u.text) :
    (isHexUnit x || decide (x = 0x2d)) = true := by
  have h := u.shape
  simp only [isUuidText, Bool.and_eq_true, List.all_eq_true] at h
  obtain ⟨i, hlt, hget⟩ := List.getElem_of_mem hx
  have hmem : (x, i) ∈ u.text.zipIdx := by
    rw [List.mem_zipIdx_iff_getElem?, List.getElem?_eq_getElem hlt, hget]
  have hunit := h.2 (x, i) hmem
  split at hunit
  · have : x = 0x2d := by simpa using hunit
    simp [this]
  · simp [hunit]

/-- What the next page reads back: the row's time in whole milliseconds, and its id. -/
def LogRow.cursorKey (r : LogRow) : ℤ ×ₗ Uuid := toLex (r.createdAt.us / 1000 * 1000, r.id)

theorem cursorKey_le (r : LogRow) : r.cursorKey ≤ r.key := by
  rw [LogRow.cursorKey, LogRow.key, Prod.Lex.toLex_le_toLex]
  dsimp only
  rcases Int.lt_or_eq_of_le (show r.createdAt.us / 1000 * 1000 ≤ r.createdAt.us by omega) with h | h
  · exact .inl h
  · exact .inr ⟨h, le_refl _⟩

theorem splitCursor_text (r : LogRow) :
    splitCursor (cursorText r) = some (toISOString r.createdAt.date, r.id.text) := by
  have hid := r.id.length_text
  obtain ⟨hne, hclean⟩ := isoText_clean r.createdAt.date
  have hpositive : 0 < (toISOString r.createdAt.date).length := List.length_pos_iff.mpr hne
  have hlength : (cursorText r).length = (toISOString r.createdAt.date).length + 37 := by
    rw [cursorText, List.length_append, List.length_cons, hid]
  have hsub : (toISOString r.createdAt.date).length + 37 - 37 =
      (toISOString r.createdAt.date).length := by omega
  have hsub' : (toISOString r.createdAt.date).length + 37 - 36 =
      (toISOString r.createdAt.date).length + 1 := by omega
  unfold splitCursor
  rw [hlength, hsub, hsub']
  dsimp only
  have htake : (cursorText r).take (toISOString r.createdAt.date).length =
      toISOString r.createdAt.date := by rw [cursorText, List.take_left]
  have hdrop : (cursorText r).drop ((toISOString r.createdAt.date).length + 1) = r.id.text := by
    rw [cursorText, ← List.drop_drop, List.drop_left]
    rfl
  have hmark : (cursorText r)[(toISOString r.createdAt.date).length]? = some 0x5f := by
    rw [cursorText, List.getElem?_append_right (Nat.le_refl _), Nat.sub_self]
    rfl
  rw [htake, hdrop, hmark, if_pos]
  refine ⟨by omega, rfl, ?_, ?_⟩
  · rw [List.all_eq_true]
    intro u hu
    rw [hclean u hu]
    rfl
  · rw [List.all_eq_true]
    exact fun u hu => uuid_unit hu

theorem beforeCursor_text {texts : Texts} (hreads : texts.Reads) (r : LogRow) :
    beforeCursor texts (cursorText r) = some fun a => decide (a.key < r.cursorKey) := by
  have hrange := r.createdAt.range
  have hlow : -62135596800000 ≤ r.createdAt.date.ms := by
    change -62135596800000 ≤ r.createdAt.us / 1000
    omega
  have hhigh : r.createdAt.date.ms < 253402300800000 := by
    change r.createdAt.us / 1000 < 253402300800000
    omega
  simp only [beforeCursor, splitCursor_text, hreads.parses _ hlow hhigh, if_true,
    hreads.timestamptz _ hlow hhigh, hreads.uuid]
  rfl

end Cursors

section Pages

open KeysetPages

variable {texts : Texts} {log : AuditLog}

theorem selectRows_descending (log : AuditLog) (passes : LogRow → Bool) :
    Descending LogRow.key (selectRows log passes) := by
  have hsorted : (selectRows log passes).Pairwise fun a b => decide (b.key ≤ a.key) = true := by
    refine List.pairwise_mergeSort (fun a b c hab hbc => ?_) (fun a b => ?_) _
    · rw [decide_eq_true_eq] at hab hbc ⊢
      exact hbc.trans hab
    · rw [Bool.or_eq_true, decide_eq_true_eq, decide_eq_true_eq]
      exact le_total _ _
  have hids : (selectRows log passes).Pairwise fun a b => a.id ≠ b.id := by
    have hperm : (selectRows log passes).Perm (log.rows.filter passes) := List.mergeSort_perm ..
    have hnodup : (log.rows.filter passes).Pairwise fun a b => a.id ≠ b.id :=
      (List.pairwise_map.mp log.ids).filter _
    exact (hperm.pairwise_iff fun h => Ne.symm h).mpr hnodup
  refine (hsorted.and hids).imp fun {a b} h => ?_
  refine lt_of_le_of_ne (of_decide_eq_true h.1) fun heq => h.2 ?_
  have hpair : (b.createdAt.us, b.id) = (a.createdAt.us, a.id) := toLex_inj.mp heq
  exact (congrArg Prod.snd hpair).symm

theorem mem_selectRows {passes : LogRow → Bool} {r : LogRow} :
    r ∈ selectRows log passes ↔ r ∈ log.rows ∧ passes r = true := by
  rw [selectRows, List.mem_mergeSort, List.mem_filter]

/-- The rows below a cursor are those of the whole list that are below it. -/
theorem selectRows_below (log : AuditLog) (passes : LogRow → Bool) (c : ℤ ×ₗ Uuid) :
    (selectRows log fun r => passes r && decide (r.key < c)) =
      below LogRow.key c (selectRows log passes) := by
  refine (selectRows_descending log _).ext ((selectRows_descending log passes).below c) fun r => ?_
  rw [mem_selectRows, below, List.mem_filter, mem_selectRows, Bool.and_eq_true, and_assoc]

theorem below_below {l : List LogRow} {c c' : ℤ ×ₗ Uuid} (h : c' ≤ c) :
    below LogRow.key c' (below LogRow.key c l) = below LogRow.key c' l := by
  rw [below, below, List.filter_filter, below]
  refine List.filter_congr fun r _ => ?_
  rw [Bool.and_eq_left_iff_imp, decide_eq_true_eq, decide_eq_true_eq]
  exact fun hr => hr.trans_le h

theorem pageLimit_pos (limit : Option JsString) : 0 < pageLimit limit := by
  unfold pageLimit
  dsimp only
  omega

/-- A page of the rows that its cursor leaves. -/
theorem logs_eq {q : Query} {passes : LogRow → Bool}
    (hbefore : beforeCursor texts (q.cursor.getD []) = some passes) {l : List LogRow}
    (hrows : (selectRows log fun r => shown q.includeCleared r && passes r) = l) :
    logs texts log q = some ⟨l.take (pageLimit q.limit),
      if pageLimit q.limit < l.length then l[pageLimit q.limit - 1]?.map cursorText else none⟩ := by
  have hlimit := pageLimit_pos q.limit
  have htake : (l.take (pageLimit q.limit + 1)).take (pageLimit q.limit) =
      l.take (pageLimit q.limit) := by
    rw [List.take_take, Nat.min_eq_left (Nat.le_succ _)]
  unfold logs
  rw [hbefore, Option.map_some]
  dsimp only
  rw [hrows, htake]
  congr 2
  rw [List.length_take]
  by_cases hmore : pageLimit q.limit < l.length
  · rw [if_pos (by omega), if_pos hmore, List.getLast?_eq_getElem?, List.length_take,
      Nat.min_eq_left (by omega), List.getElem?_take_of_lt (by omega)]
  · rw [if_neg (by omega), if_neg hmore]

/-- Following the cursors of the endpoint is following those of the rows. -/
theorem followLogs_eq (hreads : texts.Reads) (limit includeCleared : Option JsString) {fuel : ℕ}
    {cursor : Option JsString} {passes : LogRow → Bool} {l : List LogRow}
    (hbefore : beforeCursor texts (cursor.getD []) = some passes)
    (hrows : (selectRows log fun r => shown includeCleared r && passes r) = l)
    (hbelow : l = selectRows log (shown includeCleared) ∨
      ∃ c, l = below LogRow.key c (selectRows log (shown includeCleared))) :
    followLogs texts log limit includeCleared fuel cursor =
      follow LogRow.key LogRow.cursorKey (pageLimit limit) fuel l := by
  induction fuel generalizing cursor passes l with
  | zero => rfl
  | succ fuel ih =>
    have hpage := logs_eq (q := ⟨limit, cursor, includeCleared⟩) hbefore hrows
    unfold followLogs follow
    rw [hpage]
    dsimp only
    unfold next?
    by_cases hmore : pageLimit limit < l.length
    · rw [if_pos hmore, if_pos hmore]
      obtain ⟨last, hlast⟩ : ∃ last, l[pageLimit limit - 1]? = some last :=
        ⟨_, List.getElem?_eq_getElem (by omega)⟩
      rw [hlast]
      dsimp only [Option.map_some]
      have hnext : below LogRow.key last.cursorKey (selectRows log (shown includeCleared)) =
          below LogRow.key last.cursorKey l := by
        rcases hbelow with rfl | ⟨c, rfl⟩
        · rfl
        · refine (below_below ?_).symm
          have hmem := List.mem_of_getElem? hlast
          rw [below, List.mem_filter, decide_eq_true_eq] at hmem
          exact (cursorKey_le last).trans hmem.2.le
      have hcursor : beforeCursor texts ((some (cursorText last)).getD []) =
          some fun a => decide (a.key < last.cursorKey) := beforeCursor_text hreads last
      rw [ih hcursor ((selectRows_below log (shown includeCleared) last.cursorKey).trans hnext)
        (.inr ⟨last.cursorKey, hnext.symm⟩)]
    · rw [if_neg hmore, if_neg hmore]

/-- The rows of a listing are those that pass the filter, each once and from the newest down. -/
def ListsAll (log : AuditLog) (includeCleared : Option JsString) (rows : List LogRow) : Prop :=
  rows.Pairwise (fun a b => b.key < a.key) ∧
    ∀ r, r ∈ rows ↔ r ∈ log.rows ∧ shown includeCleared r = true

theorem listsAll_iff (log : AuditLog) (includeCleared : Option JsString) (rows : List LogRow) :
    ListsAll log includeCleared rows ↔ rows = selectRows log (shown includeCleared) := by
  constructor
  · rintro ⟨hdescending, hmem⟩
    refine Descending.ext hdescending (selectRows_descending log _) fun r => ?_
    rw [hmem, mem_selectRows]
  · rintro rfl
    exact ⟨selectRows_descending log _, fun r => mem_selectRows⟩

/-- Behind each full page the next row is below the cursor: older than the last row's time in
whole milliseconds, or of that time with a lower id. -/
def CursorsAligned (log : AuditLog) (limit includeCleared : Option JsString) : Prop :=
  ∀ k, 0 < k → ∀ last next,
    (selectRows log (shown includeCleared))[k * pageLimit limit - 1]? = some last →
    (selectRows log (shown includeCleared))[k * pageLimit limit]? = some next →
    next.createdAt.us < last.createdAt.us / 1000 * 1000 ∨
      next.createdAt.us = last.createdAt.us / 1000 * 1000 ∧ next.id < last.id

theorem followLogs_first (hreads : texts.Reads) (limit includeCleared : Option JsString)
    (fuel : ℕ) : followLogs texts log limit includeCleared fuel none =
      follow LogRow.key LogRow.cursorKey (pageLimit limit) fuel
        (selectRows log (shown includeCleared)) := by
  have hfirst : beforeCursor texts ((none : Option JsString).getD []) = some fun _ => true := rfl
  refine followLogs_eq hreads limit includeCleared hfirst ?_ (.inl rfl)
  congr 1
  funext r
  rw [Bool.and_true]

theorem followLogs_ends (hreads : texts.Reads) (log : AuditLog)
    (limit includeCleared : Option JsString) :
    ∃ fuel rows, followLogs texts log limit includeCleared fuel none = some rows := by
  obtain ⟨rows, hrows⟩ := follow_ends cursorKey_le (pageLimit_pos limit)
    (selectRows_descending log (shown includeCleared)) (Nat.lt_succ_self _)
  exact ⟨_, rows, (followLogs_first hreads limit includeCleared _).trans hrows⟩

theorem listsAll_iff_aligned (hreads : texts.Reads) {limit includeCleared : Option JsString}
    {fuel : ℕ} {rows : List LogRow}
    (h : followLogs texts log limit includeCleared fuel none = some rows) :
    ListsAll log includeCleared rows ↔ CursorsAligned log limit includeCleared := by
  rw [followLogs_first hreads] at h
  rw [listsAll_iff, follow_eq_iff cursorKey_le (pageLimit_pos limit)
    (selectRows_descending log (shown includeCleared)) h]
  unfold Aligned CursorsAligned
  simp only [LogRow.key, LogRow.cursorKey, Prod.Lex.toLex_lt_toLex]

/-- Following the cursors ends, and lists every row exactly when they are aligned. -/
theorem audit_pages (texts : Texts) (hreads : texts.Reads) (log : AuditLog)
    (limit includeCleared : Option JsString) :
    (∃ fuel rows, followLogs texts log limit includeCleared fuel none = some rows) ∧
    ∀ fuel rows, followLogs texts log limit includeCleared fuel none = some rows →
      (ListsAll log includeCleared rows ↔ CursorsAligned log limit includeCleared) :=
  ⟨followLogs_ends hreads log limit includeCleared,
    fun _ _ hrows => listsAll_iff_aligned hreads hrows⟩

end Pages

section Examples

def isoTexts : Texts where
  parses s := (isoInstant? s).isSome
  timestamptz s := (isoInstant? s).map fun t => t.ms * 1000
  uuid s := Uuid.parse? s

theorem isoTexts_reads : isoTexts.Reads where
  parses t _ _ := by simp [isoTexts, isoInstant?_toISOString]
  timestamptz t _ _ := by simp [isoTexts, isoInstant?_toISOString]
  uuid u := Uuid.parse?_text u

def logRow (digit : Fin 10) (createdAt : Stamp) : LogRow where
  id := Uuid.numbered digit
  actorSub := none
  actorLabel := js "system"
  targetSub := none
  targetLabel := none
  action := js "roles.sync"
  detail := .null
  createdAt := createdAt
  clearedAt := none
  clearedBy := none

/-- Two rows of one millisecond. -/
def oneMillisecond : AuditLog where
  rows := [logRow 1 ⟨1400, by decide⟩, logRow 2 ⟨1500, by decide⟩]
  ids := by decide

theorem oneMillisecond_rows : selectRows oneMillisecond (shown none) =
    [logRow 2 ⟨1500, by decide⟩, logRow 1 ⟨1400, by decide⟩] := by
  refine (selectRows_descending _ _).ext ?_ fun r => ?_
  · refine List.pairwise_pair.mpr ?_
    simp [LogRow.key, logRow, Prod.Lex.toLex_lt_toLex]
  · rw [mem_selectRows]
    simp only [oneMillisecond, List.mem_cons, List.not_mem_nil, or_false]
    constructor
    · rintro ⟨rfl | rfl, -⟩
      · exact .inr rfl
      · exact .inl rfl
    · rintro (rfl | rfl)
      · exact ⟨.inr rfl, rfl⟩
      · exact ⟨.inl rfl, rfl⟩

/-- With one row a page, the second row of the millisecond is never listed. -/
theorem row_never_listed :
    ∃ fuel rows, followLogs isoTexts oneMillisecond (some (js "1")) none fuel none = some rows ∧
      ¬ ListsAll oneMillisecond none rows := by
  obtain ⟨fuel, rows, hrows⟩ := followLogs_ends isoTexts_reads oneMillisecond (some (js "1")) none
  refine ⟨fuel, rows, hrows, fun hall => ?_⟩
  have haligned := (listsAll_iff_aligned isoTexts_reads hrows).mp hall
  have hone : pageLimit (some (js "1")) = 1 := by decide +kernel
  have := haligned 1 Nat.one_pos (logRow 2 ⟨1500, by decide⟩) (logRow 1 ⟨1400, by decide⟩)
    (by rw [oneMillisecond_rows, hone]; rfl) (by rw [oneMillisecond_rows, hone]; rfl)
  revert this
  decide +kernel

/-- Three rows, the last two of them of one time, which is a whole millisecond. -/
def wholeMillisecond : AuditLog where
  rows := [logRow 1 ⟨2000, by decide⟩, logRow 2 ⟨2000, by decide⟩, logRow 3 ⟨2500, by decide⟩]
  ids := by decide

theorem wholeMillisecond_rows : selectRows wholeMillisecond (shown none) =
    [logRow 3 ⟨2500, by decide⟩, logRow 2 ⟨2000, by decide⟩, logRow 1 ⟨2000, by decide⟩] := by
  refine (selectRows_descending _ _).ext ?_ fun r => ?_
  · have hids : Uuid.numbered 1 < Uuid.numbered 2 := by decide
    simp [KeysetPages.Descending, LogRow.key, logRow, Prod.Lex.toLex_lt_toLex, hids]
  · rw [mem_selectRows]
    simp only [wholeMillisecond, List.mem_cons, List.not_mem_nil, or_false]
    constructor
    · rintro ⟨rfl | rfl | rfl, -⟩
      · exact .inr (.inr rfl)
      · exact .inr (.inl rfl)
      · exact .inl rfl
    · rintro (rfl | rfl | rfl)
      · exact ⟨.inr (.inr rfl), rfl⟩
      · exact ⟨.inr (.inl rfl), rfl⟩
      · exact ⟨.inl rfl, rfl⟩

/-- Two rows a page: the second page begins at a row of the very time of the cursor. -/
theorem audit_pages_two_pages :
    pageLimit (some (js "2")) < (selectRows wholeMillisecond (shown none)).length ∧
    ∃ fuel rows, followLogs isoTexts wholeMillisecond (some (js "2")) none fuel none = some rows ∧
      ListsAll wholeMillisecond none rows := by
  have htwo : pageLimit (some (js "2")) = 2 := by decide +kernel
  obtain ⟨⟨fuel, rows, hrows⟩, hiff⟩ :=
    audit_pages isoTexts isoTexts_reads wholeMillisecond (some (js "2")) none
  have haligned : CursorsAligned wholeMillisecond (some (js "2")) none := by
    intro k hk last next hlast hnext
    rw [wholeMillisecond_rows, htwo] at hlast hnext
    have hone : k = 1 := by
      have hbound := (List.getElem?_eq_some_iff.mp hnext).1
      simp only [List.length_cons, List.length_nil] at hbound
      omega
    subst hone
    obtain rfl : logRow 2 ⟨2000, by decide⟩ = last := Option.some.inj hlast
    obtain rfl : logRow 1 ⟨2000, by decide⟩ = next := Option.some.inj hnext
    exact .inr ⟨rfl, by decide⟩
  refine ⟨?_, fuel, rows, hrows, (hiff fuel rows hrows).mpr haligned⟩
  rw [wholeMillisecond_rows, htwo]
  decide

end Examples

end DreamSso.OrgLogs
