import DreamSso.DraftRecovery
import Mathlib.Tactic.Linarith

/-!
Whole histories of one tab's draft. Every call leaves the stored text, erases it or writes
the text of a draft; in any history what is stored is public, a draft keeps the time it was
created, and a settlement only touches the draft that waits for its operation.
-/
namespace DreamSso.ClientDrafts

open JsStrings JsonValues JsonValues.Json JsConversions JsonText PrettyJson CanonicalJson
  ThrowingStore NumberValues

variable {parseUrl : UrlParser}

section Calls

/-- The item is as it was or erased. -/
def Left (item : Option JsString) (now : Option JsString) : Prop := now = item ∨ now = none

variable {item : Option JsString}

theorem left_none : Left item none := .inr rfl

theorem left_self : Left item item := .inl rfl

theorem atHand_triple (held : Bool) {P : Option JsString → Prop} :
    Triple (fun s => P s.item) (atHand held) (fun _ s => P s.item) fun s => P s.item := by
  cases held with
  | false => exact Triple.access
  | true => exact Triple.pure fun s h => h

theorem remove_left {raw : Option JsString} (h : Left item raw) :
    Triple (fun s => s.item = raw) removeItem (fun _ s => Left item s.item)
      fun s => Left item s.item :=
  Triple.removeItem (P := (· = raw)) (Q := Left item) left_none fun _ hraw => hraw ▸ h

theorem pure_left {raw : Option JsString} (h : Left item raw) {β : Type} (b : β)
    {thrown : Tab → Prop} :
    Triple (fun s => s.item = raw) (pure b) (fun _ s => Left item s.item) thrown :=
  Triple.pure fun _ hraw => hraw ▸ h

/-- Clearing never throws, and leaves the item or erases it. -/
theorem clear_triple (held : Bool) (owner route : JsString) :
    Triple (fun s => Left item s.item) (clearClientDraft held owner route)
      (fun _ s => Left item s.item) fun _ => False := by
  have hhandler : Triple (fun s => Left item s.item) (pure false : Script JsString Bool)
      (fun _ s => Left item s.item) fun _ => False := Triple.pure fun _ h => h
  refine Triple.tryCatch ?_ hhandler
  refine (atHand_triple held).bind fun _ => Triple.bind_getItem (fun raw hraw => ?_) fun _ h => h
  have herase : Triple (fun s => s.item = raw) (do removeItem; pure true)
      (fun (_ : Bool) s => Left item s.item) fun s => Left item s.item :=
    (remove_left hraw).bind fun _ => Triple.pure fun _ h => h
  split
  · exact pure_left hraw true
  · exact pure_left hraw true
  · split
    · exact Triple.ite (fun _ => herase) fun _ =>
        Triple.ite (fun _ => herase) fun _ => pure_left hraw true
    · exact herase

/-- What the reader found: nothing, or what is stored and passed its checks. -/
def Found (parseUrl : UrlParser) (owner route : JsString) (now : Instant) (item : Option JsString) :
    Option Members → Option JsString → Prop
  | none, left => Left item left
  | some d, left => left = item ∧ ∃ raw, item = some raw ∧ oversized raw = false ∧
      parse raw = some (.obj d) ∧ accepted parseUrl owner now d = true ∧
      member? d (js "route") = some (.str route)

theorem Found.left {owner route : JsString} {now : Instant} {found : Option Members}
    {left : Option JsString} (h : Found parseUrl owner route now item found left) :
    Left item left := by
  cases found with
  | none => exact h
  | some d => exact .inl h.1

/-- Reading never throws. -/
theorem read_triple (held : Bool) (owner route : JsString) (now : Instant) :
    Triple (fun s => s.item = item) (readClientDraft parseUrl held owner route now)
      (fun found s => Found parseUrl owner route now item found s.item) fun _ => False := by
  have houter : Triple (fun s => Left item s.item) (pure none : Script JsString (Option Members))
      (fun found s => Found parseUrl owner route now item found s.item) fun _ => False :=
    Triple.pure fun _ h => h
  have hinner : Triple (fun s => s.item = item) (do removeItem; pure none)
      (fun found s => Found parseUrl owner route now item found s.item)
      fun s => Left item s.item :=
    (remove_left left_self).bind fun _ => Triple.pure fun _ h => h
  refine Triple.tryCatch ?_ houter
  have hhand := Triple.weaken (@atHand_triple held (· = item)) (fun _ h => h) (fun _ _ h => h)
    fun s (h : s.item = item) => (.inl h : Left item s.item)
  refine hhand.bind fun _ => Triple.tryCatch ?_ hinner
  refine Triple.bind_getItem (P := (· = item)) (fun raw hraw => ?_) fun _ h => h
  subst hraw
  split
  · exact Triple.pure fun _ h => .inl h
  · exact Triple.pure fun _ h => .inl h
  · next raw _ =>
    refine Triple.ite (fun _ => Triple.throw fun _ h => h) fun hsize => ?_
    split
    · next d hparse =>
      refine Triple.ite (fun haccepted => ?_) fun _ => Triple.throw fun _ h => h
      refine Triple.pure fun s hs => ?_
      split_ifs with hroute
      · exact ⟨hs, raw, rfl, by simpa using hsize, hparse, haccepted, hroute⟩
      · exact .inl hs
    · exact Triple.throw fun _ h => h

/-- Where the time of a new draft comes from. -/
def Dated (parseUrl : UrlParser) (args : WriteArgs) (faults : List Bool)
    (item : Option JsString) (savedAt : Instant) : Prop :=
  match args.createdAt with
  | some created => savedAt = created
  | none => ∃ found,
      result? (readClientDraft parseUrl true args.owner args.route args.now)
        ⟨item, faults.tail⟩ = some found ∧ savedAt = (found.bind savedAt?).getD args.now

/-- What a write did when it saved a draft of this time. -/
structure Saved (parseUrl : UrlParser) (args : WriteArgs) (savedAt : Instant) (r : WriteResult)
    (item : Option JsString) : Prop where
  stored : item = some (composed parseUrl args savedAt).text
  told : r.savedAt = some savedAt
  owner : args.owner ≠ []
  route : args.route.length ≤ 4096
  alive : isOver args.now savedAt.value = false
  size : oversized (composed parseUrl args savedAt).text = false

/-- What a write returns and leaves. -/
def Wrote (parseUrl : UrlParser) (args : WriteArgs) (faults : List Bool)
    (item : Option JsString) (r : WriteResult) (left : Option JsString) : Prop :=
  if r.saved then ∃ savedAt, Dated parseUrl args faults item savedAt ∧
    Saved parseUrl args savedAt r left
  else Left item left

theorem clear_then (held : Bool) (owner route : JsString) {r : WriteResult} (hr : r.saved = false)
    {args : WriteArgs} {faults : List Bool} {thrown : Tab → Prop} :
    Triple (fun s => Left item s.item) (do let _ ← clearClientDraft held owner route; pure r)
      (fun r s => Wrote parseUrl args faults item r s.item) thrown := by
  refine Triple.bind (Triple.weaken (clear_triple held owner route) (fun _ h => h)
    (fun _ _ h => h) fun _ h => h.elim) fun _ => Triple.pure fun s hs => ?_
  rw [Wrote, hr]
  exact hs

/-- Storing a draft of a time that is settled throws at most before the item is replaced. -/
theorem store_triple {args : WriteArgs} {faults : List Bool} {savedAt : Instant}
    (hdated : Dated parseUrl args faults item savedAt) (howner : args.owner ≠ [])
    (hroute : args.route.length ≤ 4096) :
    Triple (fun s => Left item s.item) (store parseUrl args savedAt)
      (fun r s => Wrote parseUrl args faults item r s.item) fun s => Left item s.item := by
  unfold store
  refine Triple.ite (fun _ => clear_then true _ _ rfl) fun halive => ?_
  dsimp only
  refine Triple.ite (fun _ => clear_then true _ _ rfl) fun hstore => ?_
  rw [Bool.or_eq_true, not_or, Bool.not_eq_true] at hstore
  rw [Bool.not_eq_true] at halive
  have hset := Triple.setItem (P := Left item) (R := Left item)
    (Q := (· = some (composed parseUrl args savedAt).text)) rfl fun _ h => h
  refine hset.bind fun _ => Triple.pure fun s hs => ?_
  rw [Wrote, if_pos rfl]
  exact ⟨savedAt, hdated, hs, rfl, howner, hroute, halive, hstore.1⟩

/-- A write never throws. -/
theorem write_triple (args : WriteArgs) (faults : List Bool) :
    Triple (· = ⟨item, faults⟩) (writeClientDraft parseUrl args)
      (fun r s => Wrote parseUrl args faults item r s.item) fun _ => False := by
  have hhandler : ∀ held, Triple (fun s => Left item s.item) (unavailable held args)
      (fun r s => Wrote parseUrl args faults item r s.item) fun _ => False :=
    fun held => clear_then held _ _ rfl
  refine Triple.tryCatch ?_ (hhandler false)
  have hhand : Triple (· = ⟨item, faults⟩) (atHand false) (fun _ s => s = ⟨item, faults.tail⟩)
      fun s => Left item s.item := by
    refine Triple.weaken (Triple.access_exact item faults) (fun _ h => h) (fun _ _ h => h) ?_
    rintro _ rfl
    exact left_self
  refine hhand.bind fun _ => Triple.tryCatch ?_ (Triple.weaken (hhandler true) (fun _ h => h)
    (fun _ _ h => h) fun _ h => h.elim)
  refine Triple.ite (fun _ => Triple.pure fun s hs => ?_) fun hargs => ?_
  · subst hs
    exact left_self
  · rw [not_or, not_lt] at hargs
    split
    · next created hcreated =>
      have hdated : Dated parseUrl args faults item created := by
        rw [Dated, hcreated]
      refine Triple.weaken (store_triple hdated hargs.1 hargs.2) (fun s hs => ?_) (fun _ _ h => h)
        fun _ h => h
      subst hs
      exact left_self
    · next hcreated =>
      have hread : Triple (· = ⟨item, faults.tail⟩)
          (readClientDraft parseUrl true args.owner args.route args.now)
          (fun found s => Left item s.item ∧
            result? (readClientDraft parseUrl true args.owner args.route args.now)
              ⟨item, faults.tail⟩ = some found) fun s => Left item s.item := by
        rintro _ rfl
        have hfound := @read_triple parseUrl item true args.owner args.route args.now
          ⟨item, faults.tail⟩ rfl
        split
        · next found s heq =>
          rw [heq] at hfound
          exact ⟨hfound.left, by rw [result?, heq]⟩
        · next heq =>
          rw [heq] at hfound
          exact hfound.elim
      refine hread.bind fun found s hs => ?_
      have hdated : Dated parseUrl args faults item ((found.bind savedAt?).getD args.now) := by
        rw [Dated, hcreated]
        exact ⟨found, hs.2, rfl⟩
      exact store_triple hdated hargs.1 hargs.2 s hs.1

/-- What a settlement leaves: what was there, or of a draft that waits for its operation
nothing or the draft without the operation. -/
def Settled (args : SettleArgs) (item left : Option JsString) : Prop :=
  left = item ∨ ∃ raw d, item = some raw ∧ parse raw = some (.obj d) ∧
    awaits args (.obj d) = true ∧
      (left = none ∨ left = some (stringify (.obj (settled args.uncertain d))))

/-- Settling never throws. -/
theorem settle_triple (args : SettleArgs) :
    Triple (fun s => s.item = item) (settleClientDraft parseUrl args)
      (fun _ s => Settled args item s.item) fun _ => False := by
  have hhandler : Triple (fun s => Settled args item s.item)
      (pure false : Script JsString Bool) (fun _ s => Settled args item s.item)
      fun _ => False := Triple.pure fun _ h => h
  refine Triple.tryCatch ?_ hhandler
  have hhand := Triple.weaken (@atHand_triple false (· = item)) (fun _ h => h) (fun _ _ h => h)
    fun s (h : s.item = item) => (.inl h : Settled args item s.item)
  refine hhand.bind fun _ => Triple.bind_getItem (P := (· = item)) (fun raw hraw => ?_)
    fun _ h => .inl h
  subst hraw
  split
  · exact Triple.pure fun _ h => .inl h
  · exact Triple.pure fun _ h => .inl h
  · next raw _ =>
    split
    · exact Triple.throw fun _ h => .inl h
    · next identity hparse =>
      refine Triple.ite (fun _ => Triple.pure fun _ h => .inl h) fun hawaits => ?_
      rw [Bool.not_eq_true', Bool.not_eq_false] at hawaits
      obtain ⟨d, rfl⟩ : ∃ d, identity = .obj d := by
        cases identity with
        | obj d => exact ⟨d, rfl⟩
        | _ => cases hawaits
      have hread := Triple.weaken (@read_triple parseUrl (some raw) true args.owner args.route args.now)
        (fun _ h => h) (fun _ _ h => h) fun s h => (h.elim : Settled args (some raw) s.item)
      refine hread.bind fun found => ?_
      split
      · refine Triple.pure fun s hs => ?_
        rcases (hs : Left (some raw) s.item) with hsame | hnone
        · exact .inl hsame
        · exact .inr ⟨raw, d, rfl, hparse, hawaits, .inl hnone⟩
      · next d' =>
        have hsame : ∀ s : Tab, Found parseUrl args.owner args.route args.now (some raw) (some d')
            s.item → s.item = some raw ∧ d' = d := by
          rintro s ⟨hs, raw', hraw', -, hparse', -⟩
          rw [← Option.some.inj hraw', hparse] at hparse'
          exact ⟨hs, (Json.obj.inj (Option.some.inj hparse')).symm⟩
        intro s hs
        obtain ⟨hitem, rfl⟩ := hsame s hs
        have hkeep : ∀ left, left = some raw → Settled args (some raw) left := fun _ h => .inl h
        have hremove := Triple.removeItem (P := (· = some raw)) (Q := Settled args (some raw))
          (.inr ⟨raw, d', rfl, hparse, hawaits, .inl rfl⟩) hkeep
        have hset := Triple.setItem (P := (· = some raw)) (Q := Settled args (some raw))
          (R := Settled args (some raw))
          (.inr ⟨raw, d', rfl, hparse, hawaits, .inr rfl⟩) hkeep
        exact Triple.ite (fun _ => hremove.bind fun _ => Triple.pure fun _ h => h)
          (fun _ => hset.bind fun _ => Triple.pure fun _ h => h) s hitem

end Calls

section Histories

/-- One call on the draft of the tab. -/
inductive Call
  | write (args : WriteArgs)
  | settle (args : SettleArgs)
  | read (owner route : JsString) (now : Instant)
  | clear (owner route : JsString)

/-- The ids of operations have the shape of an id. -/
def Call.Formed : Call → Prop
  | .write args => ∀ id, args.operationId = some id → isOperationId id = true
  | _ => True

/-- What a call leaves of the item. -/
def Call.left (parseUrl : UrlParser) (faults : List Bool) (item : Option JsString) :
    Call → Option JsString
  | .write args => (after (writeClientDraft parseUrl args) ⟨item, faults⟩).item
  | .settle args => (after (settleClientDraft parseUrl args) ⟨item, faults⟩).item
  | .read owner route now => (after (readClientDraft parseUrl false owner route now) ⟨item, faults⟩).item
  | .clear owner route => (after (clearClientDraft false owner route) ⟨item, faults⟩).item

/-- A call and which of its accesses to the storage throw. -/
abbrev Event := Call × List Bool

def run (parseUrl : UrlParser) (item : Option JsString) (events : List Event) : Option JsString :=
  events.foldl (fun item e => e.1.left parseUrl e.2 item) item

/-- Nothing is stored, or a draft with sanitized forms. -/
def Clean (parseUrl : UrlParser) (item : Option JsString) : Prop :=
  ∀ raw, item = some raw → ∃ d : Draft, Kept parseUrl d ∧ raw = d.text

variable {item : Option JsString}

theorem write_left (args : WriteArgs) (faults : List Bool) :
    ∃ r, result? (writeClientDraft parseUrl args) ⟨item, faults⟩ = some r ∧
      Wrote parseUrl args faults item r ((Call.write args).left parseUrl faults item) :=
  (write_triple args faults).after rfl

theorem settle_left (args : SettleArgs) (faults : List Bool) :
    Settled args item ((Call.settle args).left parseUrl faults item) := by
  obtain ⟨-, -, h⟩ := (@settle_triple parseUrl item args).after (s := ⟨item, faults⟩) rfl
  exact h

theorem read_left (owner route : JsString) (now : Instant) (faults : List Bool) :
    Left item ((Call.read owner route now).left parseUrl faults item) := by
  obtain ⟨found, -, h⟩ := (read_triple false owner route now).after (s := ⟨item, faults⟩) rfl
  exact h.left

theorem clear_left (owner route : JsString) (faults : List Bool) :
    Left item ((Call.clear owner route).left parseUrl faults item) := by
  obtain ⟨-, -, h⟩ := (clear_triple false owner route).after (s := ⟨item, faults⟩) left_self
  exact h

theorem Clean.left {left : Option JsString} (h : Clean parseUrl item) (hleft : Left item left) :
    Clean parseUrl left := by
  rcases hleft with rfl | rfl
  · exact h
  · exact fun raw hraw => by cases hraw

/-- The draft after its operation is settled. -/
def Draft.settle (d : Draft) (uncertain : Bool) : Draft :=
  { d with
    uncertain := d.priorUnknown || uncertain
    operationId := none
    priorUnknown := d.priorUnknown || uncertain }

theorem settled_object (d : Draft) (uncertain : Bool) :
    settled uncertain d.object = (d.settle uncertain).object := by
  have hprior : decide (member? d.object (js "priorUnknown") = some (.bool true)) =
      d.priorUnknown := by
    rw [d.object_priorUnknown]
    cases d.priorUnknown <;> decide
  rw [settled, hprior]
  simp [setMember, Draft.object, Draft.members, Draft.settle, js_injective.eq_iff, ofOption]

theorem Kept.settle {d : Draft} (h : Kept parseUrl d) (uncertain : Bool) :
    Kept parseUrl (d.settle uncertain) where
  route := h.route
  base := h.base
  changes := h.changes
  inBase := h.inBase
  omitted := h.omitted
  operation := fun _ hid => by cases hid

theorem clean_text {d : Draft} (h : Kept parseUrl d) : Clean parseUrl (some d.text) :=
  fun _ hraw => ⟨d, h, (Option.some.inj hraw).symm⟩

/-- The draft that is stored, when a text is. -/
theorem Clean.parsed {raw : JsString} {found : Members} (h : Clean parseUrl (some raw))
    (hparse : parse raw = some (.obj found)) :
    ∃ d : Draft, Kept parseUrl d ∧ raw = d.text ∧ found = d.object := by
  obtain ⟨d, hd, rfl⟩ := h raw rfl
  rw [hd.parse, Option.some.injEq, Json.obj.injEq] at hparse
  exact ⟨d, hd, rfl, hparse.symm⟩

theorem Saved.kept {args : WriteArgs} {savedAt : Instant} {r : WriteResult}
    (h : Saved parseUrl args savedAt r item) (hformed : (Call.write args).Formed) :
    Kept parseUrl (composed parseUrl args savedAt) := composed_kept h.route hformed h.size

/-- Every call leaves nothing or a draft with sanitized forms. -/
theorem Clean.call (h : Clean parseUrl item) (c : Call) (hformed : c.Formed) (faults : List Bool) :
    Clean parseUrl (c.left parseUrl faults item) := by
  cases c with
  | read owner route now => exact h.left (read_left owner route now faults)
  | clear owner route => exact h.left (clear_left owner route faults)
  | write args =>
    obtain ⟨r, -, hwrote⟩ := @write_left parseUrl item args faults
    rw [Wrote] at hwrote
    split_ifs at hwrote
    · obtain ⟨savedAt, -, hsaved⟩ := hwrote
      rw [hsaved.stored]
      exact clean_text (hsaved.kept hformed)
    · exact h.left hwrote
  | settle args =>
    rcases @settle_left parseUrl item args faults with hsame | ⟨raw, found, rfl, hparse, -, hleft⟩
    · rwa [hsame]
    · obtain ⟨d, hd, rfl, rfl⟩ := h.parsed hparse
      rcases hleft with hleft | hleft
      · rw [hleft]
        exact fun raw hraw => by cases hraw
      · rw [hleft, settled_object]
        exact clean_text (hd.settle _)

theorem Clean.run (h : Clean parseUrl item) {events : List Event}
    (hformed : ∀ e ∈ events, e.1.Formed) : Clean parseUrl (run parseUrl item events) := by
  induction events generalizing item with
  | nil => exact h
  | cons e events ih =>
    exact ih (h.call e.1 (hformed e List.mem_cons_self) e.2)
      fun e' he' => hformed e' (List.mem_cons_of_mem e he')

/-- The time the stored draft of an owner and a route was created. -/
def draftTime (owner route : JsString) : Option JsString → Option ℚ
  | none => none
  | some raw =>
      match parse raw with
      | some (.obj d) =>
          if isIdentity owner route d then (savedAt? d).map Instant.value else none
      | _ => none

theorem savedAt?_object (d : Draft) : savedAt? d.object = some d.savedAt := by
  rw [savedAt?, d.object_savedAt]
  exact dif_pos d.savedAt.reads

theorem isIdentity_object (d : Draft) (owner route : JsString) :
    isIdentity owner route d.object = true ↔ d.owner = owner ∧ d.route = route := by
  simp [isIdentity]

theorem draftTime_text {d : Draft} (h : Kept parseUrl d) {owner route : JsString} {time : ℚ} :
    draftTime owner route (some d.text) = some time ↔
      (d.owner = owner ∧ d.route = route) ∧ d.savedAt.value = time := by
  rw [draftTime, h.parse]
  dsimp only
  rw [savedAt?_object, Option.map_some]
  by_cases hid : isIdentity owner route d.object = true
  · rw [if_pos hid, Option.some.injEq]
    exact ⟨fun htime => ⟨(isIdentity_object d owner route).mp hid, htime⟩, fun h => h.2⟩
  · rw [if_neg hid]
    constructor
    · intro hnone
      cases hnone
    · intro h
      exact absurd ((isIdentity_object d owner route).mpr h.1) hid

/-- A write of this draft gives no later time, and one without a time finds the draft. -/
def Continues (parseUrl : UrlParser) (owner route : JsString) (time : ℚ) (item : Option JsString) :
    Event → Prop
  | (.write args, faults) => args.owner = owner → args.route = route →
      match args.createdAt with
      | some created => created.value ≤ time
      | none => result? (readClientDraft parseUrl true args.owner args.route args.now)
          ⟨item, faults.tail⟩ ≠ some none
  | _ => True

/-- A draft that the reader finds has the time of the stored one. -/
theorem found_time {owner route : JsString} {time : ℚ} {args : WriteArgs} {faults : List Bool}
    {found : Members} (h : Clean parseUrl item) (htime : draftTime owner route item = some time)
    (hread : result? (readClientDraft parseUrl true args.owner args.route args.now)
      ⟨item, faults⟩ = some (some found)) :
    (((some found).bind savedAt?).getD args.now).value = time := by
  obtain ⟨found', hfound', hspec⟩ := (@read_triple parseUrl item true args.owner args.route
    args.now).after (s := ⟨item, faults⟩) rfl
  rw [hread, Option.some.injEq] at hfound'
  subst hfound'
  obtain ⟨-, raw, rfl, -, hparse, -, -⟩ := hspec
  obtain ⟨d, hd, rfl, rfl⟩ := h.parsed hparse
  rw [Option.bind_some, savedAt?_object, Option.getD_some]
  exact ((draftTime_text hd).mp htime).2

/-- One call does not move the time of the draft later. -/
theorem draftTime_call {owner route : JsString} {time later : ℚ} {e : Event}
    (h : Clean parseUrl item) (hformed : e.1.Formed)
    (htime : draftTime owner route item = some time)
    (hcontinues : Continues parseUrl owner route time item e)
    (hlater : draftTime owner route (e.1.left parseUrl e.2 item) = some later) : later ≤ time := by
  have hleft : ∀ left, Left item left → draftTime owner route left = some later → later ≤ time := by
    rintro left (rfl | rfl) hl
    · rw [htime] at hl
      exact (Option.some.inj hl).ge
    · cases hl
  obtain ⟨c, faults⟩ := e
  cases c with
  | read owner' route' now => exact hleft _ (read_left owner' route' now faults) hlater
  | clear owner' route' => exact hleft _ (clear_left owner' route' faults) hlater
  | settle args =>
    rcases @settle_left parseUrl item args faults with hsame | ⟨raw, found, rfl, hparse, -, hnow⟩
    · exact hleft _ (.inl hsame) hlater
    · obtain ⟨d, hd, rfl, rfl⟩ := h.parsed hparse
      rcases hnow with hnow | hnow
      · exact hleft _ (.inr hnow) hlater
      · rw [hnow, settled_object] at hlater
        have hold := (draftTime_text hd).mp htime
        have hnew := (draftTime_text (hd.settle args.uncertain)).mp hlater
        exact (hnew.2.symm.trans hold.2).le
  | write args =>
    obtain ⟨r, -, hwrote⟩ := @write_left parseUrl item args faults
    rw [Wrote] at hwrote
    split_ifs at hwrote
    · obtain ⟨savedAt, hdated, hsaved⟩ := hwrote
      rw [hsaved.stored] at hlater
      obtain ⟨⟨howner, hroute⟩, hvalue⟩ := (draftTime_text (hsaved.kept hformed)).mp hlater
      have hgives := hcontinues howner hroute
      rw [← hvalue]
      rw [Dated] at hdated
      split at hdated
      · next created hcreated =>
        rw [hcreated] at hgives
        rw [hdated]
        exact hgives
      · next hcreated =>
        rw [hcreated] at hgives
        obtain ⟨found, hread, rfl⟩ := hdated
        cases found with
        | none => exact absurd hread hgives
        | some found => exact (found_time h htime hread).le
    · exact hleft _ hwrote hlater

/-- As long as every call finds the draft stored and continues it, its time never moves later. -/
theorem draftTime_run {owner route : JsString} {events : List Event} {time later : ℚ}
    (h : Clean parseUrl item) (hformed : ∀ e ∈ events, e.1.Formed)
    (htime : draftTime owner route item = some time)
    (hcontinues : ∀ before e rest, events = before ++ e :: rest →
      ∃ t, draftTime owner route (run parseUrl item before) = some t ∧
        Continues parseUrl owner route t (run parseUrl item before) e)
    (hlater : draftTime owner route (run parseUrl item events) = some later) : later ≤ time := by
  induction events using List.reverseRecOn generalizing later with
  | nil =>
    rw [run, List.foldl_nil, htime] at hlater
    exact (Option.some.inj hlater).ge
  | append_singleton events e ih =>
    have hrun : run parseUrl item (events ++ [e]) =
        e.1.left parseUrl e.2 (run parseUrl item events) := by
      rw [run, List.foldl_append]
      rfl
    obtain ⟨t, ht, hstep⟩ := hcontinues events e [] rfl
    have hbefore := ih (fun e' he' => hformed e' (List.mem_append_left _ he'))
      (fun before e' rest heq => hcontinues before e' (rest ++ [e]) (by rw [heq]; simp)) ht
    have hclean := h.run fun e' he' => hformed e' (List.mem_append_left _ he')
    rw [hrun] at hlater
    have hle := draftTime_call hclean (hformed e (List.mem_append_right _ List.mem_cons_self)) ht
      hstep hlater
    exact hle.trans hbefore

end Histories

section Recovery

theorem not_over {now : Instant} {savedAt : ℚ} (hfrom : savedAt ≤ now.value)
    (huntil : now.value < savedAt + draftTtl) : isOver now savedAt = false := by
  have hspan : now.value - savedAt < draftTtl := by linarith
  rw [isOver, decide_eq_false (not_lt.mpr hfrom), decide_eq_false (not_le.mpr hspan)]
  rfl

theorem over_after {now : Instant} {savedAt : ℚ} (h : savedAt + draftTtl ≤ now.value) :
    isOver now savedAt = true := by
  have hspan : (draftTtl : ℚ) ≤ now.value - savedAt := by linarith
  rw [isOver, decide_eq_true hspan, Bool.or_true]

/-- What was saved is read as it was written while the draft lives, and erased after. -/
theorem saved_read {args : WriteArgs} {faults : List Bool} {item : Option JsString}
    {r : WriteResult} (hformed : (Call.write args).Formed)
    (hresult : result? (writeClientDraft parseUrl args) ⟨item, faults⟩ = some r)
    (hsaved : r.saved = true) :
    ∃ savedAt, r.savedAt = some savedAt ∧ ∀ now : Instant,
      (savedAt.value ≤ now.value → now.value < savedAt.value + draftTtl →
        readClientDraft parseUrl false args.owner args.route now
            ⟨(Call.write args).left parseUrl faults item, []⟩ =
          .ok (some (composed parseUrl args savedAt).object)
            ⟨(Call.write args).left parseUrl faults item, []⟩) ∧
      (savedAt.value + draftTtl ≤ now.value →
        readClientDraft parseUrl false args.owner args.route now
          ⟨(Call.write args).left parseUrl faults item, []⟩ = .ok none ⟨none, []⟩) := by
  obtain ⟨r', hr', hwrote⟩ := @write_left parseUrl item args faults
  rw [hresult, Option.some.injEq] at hr'
  subst hr'
  rw [Wrote, if_pos hsaved] at hwrote
  obtain ⟨savedAt, -, h⟩ := hwrote
  refine ⟨savedAt, h.told, fun now => ?_⟩
  have hread := read_draft (h.kept hformed) h.size false now
  rw [h.stored]
  constructor
  · intro hfrom huntil
    rwa [if_neg (by simp [composed, not_over hfrom huntil])] at hread
  · intro hover
    rwa [if_pos (by simp [composed, over_after hover])] at hread

/-- Recovery of client drafts: a draft that was saved is read as written from its time until
the end of its life and erased from then on; as long as each write continues the draft, its
time does not move later; whatever the history, the forms that are stored hold public key
members and bare URL parts only; and a settlement changes no draft but the one of its owner,
route and operation. -/
theorem client_drafts (parseUrl : UrlParser) :
    (∀ (args : WriteArgs) (faults : List Bool) (item : Option JsString) (r : WriteResult),
      (Call.write args).Formed →
      result? (writeClientDraft parseUrl args) ⟨item, faults⟩ = some r → r.saved = true →
      ∃ savedAt, r.savedAt = some savedAt ∧ ∀ now : Instant,
        (savedAt.value ≤ now.value → now.value < savedAt.value + draftTtl →
          readClientDraft parseUrl false args.owner args.route now
              ⟨(Call.write args).left parseUrl faults item, []⟩ =
            .ok (some (composed parseUrl args savedAt).object)
              ⟨(Call.write args).left parseUrl faults item, []⟩) ∧
        (savedAt.value + draftTtl ≤ now.value →
          readClientDraft parseUrl false args.owner args.route now
            ⟨(Call.write args).left parseUrl faults item, []⟩ = .ok none ⟨none, []⟩)) ∧
    (∀ (past events : List Event) (owner route : JsString) (time later : ℚ),
      (∀ e ∈ past ++ events, e.1.Formed) →
      draftTime owner route (run parseUrl none past) = some time →
      (∀ before e rest, events = before ++ e :: rest →
        ∃ t, draftTime owner route (run parseUrl none (past ++ before)) = some t ∧
          Continues parseUrl owner route t (run parseUrl none (past ++ before)) e) →
      draftTime owner route (run parseUrl none (past ++ events)) = some later → later ≤ time) ∧
    (∀ events : List Event, (∀ e ∈ events, e.1.Formed) →
      ∀ raw, run parseUrl none events = some raw →
        ∃ d : Draft, raw = d.text ∧ parse raw = some (.obj d.object) ∧
          ∀ m ∈ d.base ++ d.changes, ∃ key, m.1 = js key.key ∧ IsPublicValue key m.2) ∧
    (∀ (args : SettleArgs) (faults : List Bool) (item : Option JsString),
      (Call.settle args).left parseUrl faults item ≠ item →
        ∃ raw d id, item = some raw ∧ parse raw = some (.obj d) ∧
          member? d (js "owner") = some (.str args.owner) ∧
          member? d (js "route") = some (.str args.route) ∧
          args.operationId = some id ∧ id ≠ [] ∧
          member? d (js "operationId") = some (.str id)) := by
  have hempty : Clean parseUrl none := fun raw hraw => by cases hraw
  refine ⟨fun args faults item r hformed hresult hsaved => saved_read hformed hresult hsaved,
    ?_, ?_, ?_⟩
  · intro past events owner route time later hformed htime hcontinues hlater
    have hrun : ∀ l, run parseUrl none (past ++ l) = run parseUrl (run parseUrl none past) l :=
      fun l => List.foldl_append
    have hclean := hempty.run fun e he => hformed e (List.mem_append_left _ he)
    rw [hrun] at hlater
    refine draftTime_run hclean (fun e he => hformed e (List.mem_append_right _ he)) htime
      (fun before e rest heq => ?_) hlater
    have h := hcontinues before e rest heq
    rwa [hrun] at h
  · intro events hformed raw hraw
    obtain ⟨d, hd, rfl⟩ := hempty.run hformed raw hraw
    refine ⟨d, rfl, hd.parse, fun m hm => ?_⟩
    rcases List.mem_append.mp hm with hbase | hchanges
    · exact hd.base.public hbase
    · exact hd.changes.public hchanges
  · intro args faults item hne
    rcases @settle_left parseUrl item args faults with hsame | ⟨raw, d, hraw, hparse, hawaits, -⟩
    · exact absurd hsame hne
    · simp only [awaits, isIdentity, Bool.and_eq_true, decide_eq_true_eq] at hawaits
      obtain ⟨⟨⟨howner, hroute⟩, hid⟩, htruthy⟩ := hawaits
      obtain ⟨id, hsome, hne⟩ := (Option.any_eq_true _ _).mp htruthy
      rw [hsome] at hid
      exact ⟨raw, d, id, hraw, hparse, howner, hroute, hsome, by simpa using hne, hid⟩

section Samples

def sampleInstant (n : ℤ) (reads : readsBack (.num (.int n)) = true) : Instant := ⟨.int n, reads⟩

def firstMoment : Instant := sampleInstant 1000 (by decide +kernel)

def laterMoment : Instant := sampleInstant 2000 (by decide +kernel)

/-- A write of a form with a new name. -/
def newName (createdAt : Option Instant) (now : Instant) : WriteArgs where
  owner := js "subject-a"
  route := js "new"
  form := [(js "name", text "App"), (js "hostname", text "app.example")]
  base := [(js "name", text ""), (js "hostname", text "app.example")]
  createdAt := createdAt
  now := now

/-- A browser whose URL parser takes nothing. -/
def noUrls : UrlParser := fun _ => none

def firstWrite : Event := (.write (newName none firstMoment), [])

/-- A write that is told a later time moves the draft to that time. -/
theorem savedAt_moves :
    draftTime (js "subject-a") (js "new") (run noUrls none [firstWrite]) = some 1000 ∧
      draftTime (js "subject-a") (js "new")
        (run noUrls none [firstWrite, (.write (newName (some laterMoment) laterMoment), [])]) =
        some 2000 := by
  decide +kernel

theorem firstWrite_saved :
    (result? (writeClientDraft noUrls (newName none firstMoment)) ⟨none, []⟩).map
      WriteResult.saved = some true := by
  decide +kernel

def operation : JsString := js "0b5c2a9e-0000-4000-8000-000000000000"

/-- A write of a form that is on its way to the server. -/
def pendingWrite : Event :=
  (.write { newName none firstMoment with operationId := some operation }, [])

/-- An operation on the form has succeeded. -/
def settlement (id : JsString) : SettleArgs where
  owner := js "subject-a"
  route := js "new"
  operationId := some id
  success := true
  now := laterMoment

theorem pendingWrite_awaits :
    ((run noUrls none [pendingWrite]).bind parse).map (awaits (settlement operation)) = some true ∧
      (Call.settle (settlement operation)).left noUrls [] (run noUrls none [pendingWrite]) ≠
        run noUrls none [pendingWrite] := by
  decide +kernel

/-- The draft is there a second later, keeps its time over a second write and holds public
values, and of all operations its own alone settles it. -/
theorem client_drafts_newName :
    (∃ savedAt, readClientDraft noUrls false (js "subject-a") (js "new") laterMoment
        ⟨run noUrls none [firstWrite], []⟩ =
      .ok (some (composed noUrls (newName none firstMoment) savedAt).object)
        ⟨run noUrls none [firstWrite], []⟩) ∧
      (∀ later, draftTime (js "subject-a") (js "new") (run noUrls none
        ([firstWrite] ++ [(.write (newName none laterMoment), [])])) = some later →
          later ≤ 1000) ∧
      (∃ d : Draft, run noUrls none [firstWrite] = some d.text ∧
        ∀ m ∈ d.base ++ d.changes, ∃ key, m.1 = js key.key ∧ IsPublicValue key m.2) ∧
      ∀ id, (Call.settle (settlement id)).left noUrls [] (run noUrls none [pendingWrite]) ≠
        run noUrls none [pendingWrite] ↔ id = operation := by
  have hformed : ∀ e ∈ [firstWrite] ++ [(Call.write (newName none laterMoment), [])],
      e.1.Formed := by
    intro e he
    simp only [List.cons_append, List.nil_append, List.mem_cons, List.not_mem_nil, or_false] at he
    rcases he with rfl | rfl <;> exact fun id hid => by cases hid
  refine ⟨?_, ?_, ?_, fun id => ⟨fun hne => ?_, fun hid => hid ▸ pendingWrite_awaits.2⟩⟩
  · obtain ⟨r, hr, hsaved⟩ := Option.map_eq_some_iff.mp firstWrite_saved
    obtain ⟨savedAt, htold, hread⟩ := (client_drafts noUrls).1 (newName none firstMoment) [] none r
      (hformed firstWrite List.mem_cons_self) hr hsaved
    have htime : savedAt = firstMoment := by
      have hdecided : (result? (writeClientDraft noUrls (newName none firstMoment))
          ⟨none, []⟩).bind WriteResult.savedAt = some firstMoment := by decide +kernel
      rw [hr, Option.bind_some, htold, Option.some.injEq] at hdecided
      exact hdecided
    subst htime
    exact ⟨firstMoment, (hread laterMoment).1 (by decide +kernel) (by decide +kernel)⟩
  · intro later hlater
    refine (client_drafts noUrls).2.1 [firstWrite] [(.write (newName none laterMoment), [])] _ _ _
      _ hformed (by decide +kernel) (fun before e rest heq => ?_) hlater
    obtain ⟨rfl, heq⟩ | ⟨_, rfl, heq⟩ := List.cons_eq_append_iff.mp heq
    · obtain ⟨rfl, -⟩ := List.cons.inj heq
      refine ⟨1000, by decide +kernel, fun _ _ => ?_⟩
      change result? (readClientDraft noUrls true (js "subject-a") (js "new") laterMoment)
        ⟨run noUrls none [firstWrite], []⟩ ≠ some none
      decide +kernel
    · simp at heq
  · obtain ⟨raw, hraw⟩ : ∃ raw, run noUrls none [firstWrite] = some raw :=
      Option.isSome_iff_exists.mp (by decide +kernel)
    obtain ⟨d, rfl, -, hpublic⟩ := (client_drafts noUrls).2.2.1 [firstWrite]
      (fun e he => hformed e (List.mem_append_left _ he)) raw hraw
    exact ⟨d, hraw, hpublic⟩
  · obtain ⟨raw, d, id', hraw, hparse, -, -, hid, -, hmember⟩ :=
      (client_drafts noUrls).2.2.2 (settlement id) [] _ hne
    have hawaits := pendingWrite_awaits.1
    rw [hraw, Option.bind_some, hparse, Option.map_some, Option.some.injEq] at hawaits
    simp only [awaits, Bool.and_eq_true, decide_eq_true_eq] at hawaits
    have hoperation := hawaits.1.2
    rw [hmember] at hoperation
    obtain rfl := Option.some.inj hid
    exact Json.str.inj (Option.some.inj hoperation)

end Samples

end Recovery

end DreamSso.ClientDrafts
