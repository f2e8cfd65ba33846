import DreamSso.LegacyRuns
import Mathlib.Data.List.Infix

/-!
The sweeps of one process, command by command. A set that Redis keeps reporting keeps being
visited, and the page of a visited set is consumed to its end.
-/
namespace DreamSso.LegacyImport

open Interleaving JsStrings JsonValues KeyedTables RotatingQueues Transitions

/-- A command of the importer with its reply. -/
abbrev ImportStep : Type := Σ c : ImportCommand, Option c.Reply

/-- The keys an answered SCAN or SSCAN reports. -/
def reported : ImportStep → List JsString
  | ⟨.scan _, some (_, keys)⟩ => keys
  | ⟨.sscan _, some (_, ids)⟩ => ids.map keyOf
  | _ => []

/-- The set a command asks for its members, answered or not. -/
def visited : ImportStep → Option JsString
  | ⟨.zscan key _, _⟩ => some key
  | _ => none

def reports (steps : List ImportStep) : List JsString := steps.flatMap reported

def visits (steps : List ImportStep) : List JsString := steps.filterMap visited

theorem reports_append (first second : List ImportStep) :
    reports (first ++ second) = reports first ++ reports second := List.flatMap_append

theorem visits_append (first second : List ImportStep) :
    visits (first ++ second) = visits first ++ visits second := List.filterMap_append

theorem enqueueAll_append (queue first second : List JsString) :
    enqueueAll queue (first ++ second) = enqueueAll (enqueueAll queue first) second :=
  List.foldl_append

theorem importPage_quiet {key : JsString} {members : List (JsString × JsString)}
    {steps : List ImportStep} (h : (importPage key members).Plays steps ()) :
    reports steps = [] ∧ visits steps = [] := by
  induction members generalizing steps with
  | nil =>
    obtain ⟨rfl, -⟩ := Prog.plays_done h
    exact ⟨rfl, rfl⟩
  | cons entry rest ih =>
    obtain ⟨member, score⟩ := entry
    obtain ⟨stop, steps, rfl, hgo⟩ := Prog.plays_call h
    cases stop with
    | none => cases hgo
    | some stop =>
      cases stop with
      | true =>
        obtain ⟨rfl, -⟩ := Prog.plays_done hgo
        exact ⟨rfl, rfl⟩
      | false =>
        simp only at hgo
        split at hgo
        · have hquiet := ih hgo
          exact hquiet
        · obtain ⟨answer, steps, rfl, hask⟩ := Prog.plays_call hgo
          cases answer with
          | none =>
            have hquiet := ih hask
            exact hquiet
          | some answer =>
            obtain ⟨count, steps, rfl, hanswer⟩ := Prog.plays_call hask
            have hquiet := ih hanswer
            exact hquiet

theorem turnPage_extends (st : Importer) (key cursor : JsString) :
    st.pendingKeys <+: (st.turnPage key cursor).pendingKeys := by
  unfold Importer.turnPage
  simp only
  split
  · exact List.prefix_refl _
  · exact enqueueAll_extends _ _

theorem closePage_pendingKeys (st : Importer) (key cursor : JsString) :
    (st.closePage key cursor).pendingKeys = st.pendingKeys := by
  unfold Importer.closePage
  split <;> rfl

/-- The sets are visited in their order, and those that are not stay where they are. -/
theorem visitKeys_plays {keys : List JsString} {st st' : Importer} {steps : List ImportStep}
    (h : (visitKeys keys st).Plays steps st') (hkeys : keys <+: st.pendingKeys) :
    reports steps = [] ∧ visits steps <+: keys ∧
      st.pendingKeys.drop (visits steps).length <+: st'.pendingKeys := by
  induction keys generalizing st steps with
  | nil =>
    obtain ⟨rfl, rfl⟩ := Prog.plays_done h
    exact ⟨rfl, List.prefix_refl _, List.prefix_refl _⟩
  | cons key rest ih =>
    obtain ⟨stop, steps, rfl, hgo⟩ := Prog.plays_call h
    cases stop with
    | none => cases hgo
    | some stop =>
      cases stop with
      | true =>
        obtain ⟨rfl, rfl⟩ := Prog.plays_done hgo
        exact ⟨rfl, List.nil_prefix, List.prefix_refl _⟩
      | false =>
        obtain ⟨others, hothers⟩ := hkeys
        have hunpend : (st.unpend key).pendingKeys = rest ++ others := by
          show st.pendingKeys.erase key = rest ++ others
          rw [← hothers]
          exact List.erase_cons_head key (rest ++ others)
        have hdrop : st.pendingKeys.drop 1 = (st.unpend key).pendingKeys := by
          rw [hunpend, ← hothers]
          rfl
        obtain ⟨answer, steps, rfl, hask⟩ := Prog.plays_call hgo
        cases answer with
        | none =>
          obtain ⟨rfl, rfl⟩ := Prog.plays_done hask
          refine ⟨rfl, List.prefix_append [key] rest, ?_⟩
          rw [← hdrop]
          exact List.prefix_refl _
        | some page =>
          obtain ⟨cursor, members⟩ := page
          obtain ⟨first, second, done, rfl, hpage, hrest⟩ := Prog.plays_bind hask
          obtain ⟨hreports, hvisits⟩ := importPage_quiet hpage
          have hturned : (st.unpend key).pendingKeys <+:
              (((st.unpend key).turnPage key cursor).closePage key cursor).pendingKeys := by
            rw [closePage_pendingKeys]
            exact turnPage_extends _ _ _
          have hwaiting : rest <+: (st.unpend key).pendingKeys := by
            rw [hunpend]
            exact List.prefix_append _ _
          obtain ⟨hnone, hfront, hkept⟩ := ih hrest (hwaiting.trans hturned)
          have hall : visits (⟨.stopping, some false⟩ ::
              ⟨.zscan key (st.cursorOf key), some (cursor, members)⟩ :: (first ++ second)) =
              key :: visits second := by
            show key :: visits (first ++ second) = _
            rw [visits_append, hvisits]
            rfl
          refine ⟨?_, ?_, ?_⟩
          · show reports (first ++ second) = []
            rw [reports_append, hreports, hnone]
            rfl
          · rw [hall]
            exact (List.prefix_cons_inj key).mpr hfront
          · rw [hall, List.length_cons, Nat.add_comm, ← List.drop_drop, hdrop]
            exact (List.IsPrefix.drop hturned _).trans hkept

/-- In a sweep the reported keys join the queue, the front of the queue is visited and the
rest of it stays in front. -/
theorem sweep_plays {st st' : Importer} {steps : List ImportStep}
    (h : (sweep st).Plays steps st') :
    visits steps <+: enqueueAll st.pendingKeys (reports steps) ∧
      (enqueueAll st.pendingKeys (reports steps)).drop (visits steps).length <+:
        st'.pendingKeys := by
  obtain ⟨keys, steps, rfl, hgo⟩ := Prog.plays_call h
  cases keys with
  | none =>
    obtain ⟨rfl, rfl⟩ := Prog.plays_done hgo
    exact ⟨List.nil_prefix, List.prefix_refl _⟩
  | some keys =>
    obtain ⟨cursor, keys⟩ := keys
    obtain ⟨ids, steps, rfl, hask⟩ := Prog.plays_call hgo
    cases ids with
    | none =>
      obtain ⟨rfl, rfl⟩ := Prog.plays_done hask
      refine ⟨List.nil_prefix, ?_⟩
      show enqueueAll st.pendingKeys (keys ++ []) <+: enqueueAll st.pendingKeys keys
      rw [List.append_nil]
    | some ids =>
      obtain ⟨cursor', ids⟩ := ids
      obtain ⟨hreports, hfront, hkept⟩ := visitKeys_plays hask (List.take_prefix _ _)
      show visits steps <+: enqueueAll st.pendingKeys (keys ++ (ids.map keyOf ++ reports steps)) ∧
        (enqueueAll st.pendingKeys (keys ++ (ids.map keyOf ++ reports steps))).drop
          (visits steps).length <+: st'.pendingKeys
      rw [hreports, List.append_nil, enqueueAll_append]
      exact ⟨hfront.trans (List.take_prefix _ _), hkept⟩

section Sweeps

variable {st : ℕ → Importer} {steps : ℕ → List ImportStep}

/-- One process after another sweep: whatever Redis and the database answer, a set that is
reported is visited in that sweep or a later one, if some sweep still visits a set. -/
theorem reported_visited (hplays : ∀ k, (sweep (st k)).Plays (steps k) (st (k + 1)))
    (hmoving : ∀ k, ∃ m, k ≤ m ∧ visits (steps m) ≠ []) {key : JsString} {k : ℕ}
    (hreported : key ∈ reports (steps k)) : ∃ m, k ≤ m ∧ key ∈ visits (steps m) := by
  have hrounds : Rounds (fun k => (st k).pendingKeys) (fun k => reports (steps k))
      (fun k => visits (steps k)) :=
    ⟨fun k => (sweep_plays (hplays k)).1, fun k => (sweep_plays (hplays k)).2⟩
  refine hrounds.served_of_arrival (fun k => ?_) hreported
  obtain ⟨m, hm, hvisits⟩ := hmoving k
  exact ⟨m, hm, fun _ => hvisits⟩

end Sweeps

/-- The process was told to stop. -/
def Stopped (steps : List ImportStep) : Prop := ⟨.stopping, some true⟩ ∈ steps

/-- The member is persisted, and removed if that is answered. -/
def Handled (key member : JsString) (event : LegacyEvent) (steps : List ImportStep) : Prop :=
  ∃ answer : Option Unit, ⟨.persist (clientOf key) event, answer⟩ ∈ steps ∧
    (answer = some () → ∃ count : Option ℕ, ⟨.zrem key member, count⟩ ∈ steps)

theorem Handled.mono {key member : JsString} {event : LegacyEvent} {first second : List ImportStep}
    (hsub : ∀ step ∈ first, step ∈ second) (h : Handled key member event first) :
    Handled key member event second := by
  obtain ⟨answer, hpersist, hzrem⟩ := h
  refine ⟨answer, hsub _ hpersist, fun hanswered => ?_⟩
  obtain ⟨count, hcount⟩ := hzrem hanswered
  exact ⟨count, hsub _ hcount⟩

/-- A page is consumed to its end: a member that fails does not keep back the others. -/
theorem importPage_handles {key : JsString} {members : List (JsString × JsString)}
    {steps : List ImportStep} (h : (importPage key members).Plays steps ())
    (hgoes : ¬ Stopped steps) {member score : JsString} {event : LegacyEvent}
    (hmember : (member, score) ∈ members) (hevent : parseLegacyEvent member score = .ok event) :
    Handled key member event steps := by
  induction members generalizing steps with
  | nil => cases hmember
  | cons entry rest ih =>
    obtain ⟨first, rawScore⟩ := entry
    obtain ⟨stop, steps, rfl, hgo⟩ := Prog.plays_call h
    cases stop with
    | none => cases hgo
    | some stop =>
      cases stop with
      | true => exact absurd List.mem_cons_self hgoes
      | false =>
        have hlater : ∀ {rest' : List ImportStep}, (importPage key rest).Plays rest' () →
            (∀ step ∈ rest', step ∈ (⟨.stopping, some false⟩ : ImportStep) :: steps) →
            (member, score) ∈ rest →
            Handled key member event (⟨.stopping, some false⟩ :: steps) := by
          intro rest' hplays hsub hin
          exact (ih hplays (fun hstop => hgoes (hsub _ hstop)) hin).mono hsub
        simp only at hgo
        split at hgo
        · next failure hfailed =>
          obtain heq | hin := List.mem_cons.mp hmember
          · obtain ⟨rfl, rfl⟩ := Prod.mk.inj heq
            rw [hevent] at hfailed
            cases hfailed
          · exact hlater hgo (fun step hstep => List.mem_cons_of_mem _ hstep) hin
        · next parsed hparsed =>
          obtain ⟨answer, tail, rfl, hask⟩ := Prog.plays_call hgo
          cases answer with
          | none =>
            obtain heq | hin := List.mem_cons.mp hmember
            · obtain ⟨rfl, rfl⟩ := Prod.mk.inj heq
              rw [hevent] at hparsed
              obtain rfl := Except.ok.inj hparsed
              exact ⟨none, List.mem_cons_of_mem _ List.mem_cons_self, fun hnone => by cases hnone⟩
            · refine hlater hask (fun step hstep => ?_) hin
              exact List.mem_cons_of_mem _ (List.mem_cons_of_mem _ hstep)
          | some answer =>
            obtain ⟨count, tail, rfl, hanswer⟩ := Prog.plays_call hask
            obtain heq | hin := List.mem_cons.mp hmember
            · obtain ⟨rfl, rfl⟩ := Prod.mk.inj heq
              rw [hevent] at hparsed
              obtain rfl := Except.ok.inj hparsed
              refine ⟨some answer, List.mem_cons_of_mem _ List.mem_cons_self, fun _ => ⟨count, ?_⟩⟩
              exact List.mem_cons_of_mem _ (List.mem_cons_of_mem _ List.mem_cons_self)
            · refine hlater hanswer (fun step hstep => ?_) hin
              exact List.mem_cons_of_mem _ (List.mem_cons_of_mem _ (List.mem_cons_of_mem _ hstep))

theorem visitKeys_handles {keys : List JsString} {st st' : Importer} {steps : List ImportStep}
    (h : (visitKeys keys st).Plays steps st') (hgoes : ¬ Stopped steps) {key cursor next : JsString}
    {members : List (JsString × JsString)}
    (hpage : ⟨.zscan key cursor, some (next, members)⟩ ∈ steps) {member score : JsString}
    {event : LegacyEvent} (hmember : (member, score) ∈ members)
    (hevent : parseLegacyEvent member score = .ok event) : Handled key member event steps := by
  induction keys generalizing st steps with
  | nil =>
    obtain ⟨rfl, -⟩ := Prog.plays_done h
    cases hpage
  | cons first rest ih =>
    obtain ⟨stop, steps, rfl, hgo⟩ := Prog.plays_call h
    cases stop with
    | none => cases hgo
    | some stop =>
      cases stop with
      | true => exact absurd List.mem_cons_self hgoes
      | false =>
        obtain ⟨answer, steps, rfl, hask⟩ := Prog.plays_call hgo
        have hpage' := (List.mem_cons.mp hpage).resolve_left (by rintro ⟨⟩)
        cases answer with
        | none =>
          obtain ⟨rfl, -⟩ := Prog.plays_done hask
          obtain hsame | hnone := List.mem_cons.mp hpage'
          · cases hsame
          · cases hnone
        | some page =>
          obtain ⟨cursor', members'⟩ := page
          obtain ⟨before, after, done, rfl, hplays, hrest⟩ := Prog.plays_bind hask
          have hbefore : ∀ step ∈ before, step ∈ (⟨.stopping, some false⟩ : ImportStep) ::
              ⟨.zscan first (st.cursorOf first), some (cursor', members')⟩ :: (before ++ after) :=
            fun step hstep => List.mem_cons_of_mem _ (List.mem_cons_of_mem _
              (List.mem_append_left _ hstep))
          have hafter : ∀ step ∈ after, step ∈ (⟨.stopping, some false⟩ : ImportStep) ::
              ⟨.zscan first (st.cursorOf first), some (cursor', members')⟩ :: (before ++ after) :=
            fun step hstep => List.mem_cons_of_mem _ (List.mem_cons_of_mem _
              (List.mem_append_right _ hstep))
          obtain hsame | hin := List.mem_cons.mp hpage'
          · cases hsame
            exact (importPage_handles hplays (fun hstop => hgoes (hbefore _ hstop)) hmember
              hevent).mono hbefore
          · obtain hin | hin := List.mem_append.mp hin
            · have hvisit : key ∈ visits before := List.mem_filterMap.mpr ⟨_, hin, rfl⟩
              rw [(importPage_quiet hplays).2] at hvisit
              cases hvisit
            · exact (ih hrest (fun hstop => hgoes (hafter _ hstop)) hin).mono hafter

/-- Every valid member of every page a sweep was answered is persisted in that sweep. -/
theorem sweep_handles {st st' : Importer} {steps : List ImportStep}
    (h : (sweep st).Plays steps st') (hgoes : ¬ Stopped steps) {key cursor next : JsString}
    {members : List (JsString × JsString)}
    (hpage : ⟨.zscan key cursor, some (next, members)⟩ ∈ steps) {member score : JsString}
    {event : LegacyEvent} (hmember : (member, score) ∈ members)
    (hevent : parseLegacyEvent member score = .ok event) : Handled key member event steps := by
  obtain ⟨keys, steps, rfl, hgo⟩ := Prog.plays_call h
  have hpage' := (List.mem_cons.mp hpage).resolve_left (by rintro ⟨⟩)
  cases keys with
  | none =>
    obtain ⟨rfl, -⟩ := Prog.plays_done hgo
    cases hpage'
  | some keys =>
    obtain ⟨ids, steps, rfl, hask⟩ := Prog.plays_call hgo
    have hpage'' := (List.mem_cons.mp hpage').resolve_left (by rintro ⟨⟩)
    cases ids with
    | none =>
      obtain ⟨rfl, -⟩ := Prog.plays_done hask
      cases hpage''
    | some ids =>
      have hlater : ∀ step ∈ steps, step ∈ (⟨.scan st.keyCursor, some keys⟩ : ImportStep) ::
          ⟨.sscan st.setCursor, some ids⟩ :: steps :=
        fun step hstep => List.mem_cons_of_mem _ (List.mem_cons_of_mem _ hstep)
      exact (visitKeys_handles hask (fun hstop => hgoes (hlater _ hstop)) hpage'' hmember hevent).mono
        hlater

section Imports

variable {ι : Type} [DecidableEq ι] {sha256 : JsString → Digest} {runs : ι → ℕ}
  {start cfg : ImportConfig ι} {trace : List (ImportEvent ι)}

/-- A committed event stays stored until it was delivered and archived. -/
theorem committed_kept (hrun : Exec (importSystem sha256 runs) start trace cfg)
    {e : ImportEvent ι} (he : e ∈ trace) {env : Surroundings} {clientId : ClientId}
    {event : LegacyEvent} (h : Commits e env clientId event) :
    (∃ r ∈ cfg.store.db.eventOutbox.rows, Keeps clientId event r) ∨
      Archived trace clientId event := by
  obtain ⟨first, second, rfl, -, -, hsecond⟩ := hrun.split he
  obtain hkept | harchived := keeps_run hsecond (persistWork_keeps h.work)
  · exact .inl hkept
  · refine .inr (harchived.mono fun a ha => ?_)
    exact List.mem_append_right _ (List.mem_cons_of_mem _ ha)

/-- The row of an event that a report replaces is dead afterwards. -/
theorem replaced_dead {env : Surroundings} {clientId : ClientId} {event : LegacyEvent} {db db' : Db}
    (h : Persisted env clientId event db db') (hrole : event.type = rolesChangeType)
    (hchanged : db'.eventOutbox.rows ≠ db.eventOutbox.rows) :
    ∃ r ∈ db'.eventOutbox.rows, r.id = event.id ∧ r.status = .dead := by
  cases h with
  | stored hplain hrows => exact absurd hrole hplain
  | replaced hrole rows hclosed sub hsub report hreport hrows =>
    rw [hrows]
    cases hclosed with
    | stored row hrow hstatus hattempts hdue hfresh heq =>
      refine ⟨row, ?_, hrow.id, ?_⟩
      · rw [heq]
        exact List.mem_append_left _ (List.mem_append_right _ (List.mem_singleton_self row))
      · rw [hstatus, if_pos hrole]
    | closed hrole row hmem hid hpending member hkeeps heq =>
      refine ⟨_, List.mem_append_left _ (heq ▸ List.mem_map_of_mem hmem), ?_⟩
      rw [if_pos hid]
      exact ⟨hid, rfl⟩
  | repeated hrows =>
    cases hrows with
    | repeated row hmem hrow heq => exact absurd heq hchanged

/-- An event whose row is closed already is left as it is. -/
theorem persisted_again {env : Surroundings} {clientId : ClientId} {event : LegacyEvent} {db db' : Db}
    (h : Persisted env clientId event db db')
    (hdead : ∃ r ∈ db.eventOutbox.rows, r.id = event.id ∧ r.status = .dead) :
    db'.eventOutbox.rows = db.eventOutbox.rows := by
  obtain ⟨r, hr, hid, hstatus⟩ := hdead
  have hnot : ∀ {rows}, ¬ Inserted clientId event db.eventOutbox.rows rows true := by
    intro rows hinserted
    cases hinserted with
    | stored row hrow hstatus' hattempts hdue hfresh heq => exact hfresh r hr hid
    | closed hrole row hmem hid' hpending member hkeeps heq =>
      rw [db.eventOutbox.row_ext hr hmem (hid.trans hid'.symm), hpending] at hstatus
      cases hstatus
  cases h with
  | stored hplain hrows => exact absurd hrows hnot
  | replaced hrole rows hclosed sub hsub report hreport hrows => exact absurd hclosed hnot
  | repeated hrows =>
    cases hrows with
    | repeated row hmem hrow heq => exact heq

/-- The uuids a commit draws at random are the ids of no stored event. -/
def DrawsFresh (trace : List (ImportEvent ι)) : Prop :=
  ∀ e ∈ trace, ∀ env clientId event, Commits e env clientId event →
    Unused env e.before.store.db.eventOutbox ∧ ∀ n, event.id ≠ env.eventId n

omit [DecidableEq ι] in
theorem DrawsFresh.persisted (h : DrawsFresh trace) {e : ImportEvent ι} (he : e ∈ trace)
    {env : Surroundings} {clientId : ClientId} {event : LegacyEvent}
    (hcommits : Commits e env clientId event) :
    Persisted env clientId event e.before.store.db e.after.store.db := by
  obtain ⟨hunused, hnew⟩ := h e he env clientId event hcommits
  exact persistWork_persisted hunused hnew hcommits.work

/-- What an import guarantees in every run: a member leaves Redis only after a transaction
that persists its event; a committed event is stored, at most once, until it was delivered
and archived; and a role event that such a transaction stored or closed is dead from then
on, replaced by one report in the same transaction and by none in a later one. -/
structure Lossless (start cfg : ImportConfig ι) (trace : List (ImportEvent ι)) : Prop where
  removed : ∀ key member, start.store.sets.contains (key, member) = true →
    cfg.store.sets.contains (key, member) = false → ∃ e ∈ trace, ∃ env event score,
      parseLegacyEvent member score = .ok event ∧ Commits e env (clientOf key) event
  persisted : ∀ e ∈ trace, ∀ env clientId event, Commits e env clientId event →
    Persisted env clientId event e.before.store.db e.after.store.db
  kept : ∀ e ∈ trace, ∀ env clientId event, Commits e env clientId event →
    (∃ r ∈ cfg.store.db.eventOutbox.rows, Keeps clientId event r) ∨ Archived trace clientId event
  once : ∀ first e second e' third, trace = first ++ e :: (second ++ e' :: third) →
    ∀ env clientId event env' clientId' event', Commits e env clientId event →
      Commits e' env' clientId' event' → event'.id = event.id →
      (∀ r ∈ e'.before.store.db.eventOutbox.rows, r.id ≠ event'.id) →
      Archived second clientId event
  replacedOnce : ∀ first e second e' third, trace = first ++ e :: (second ++ e' :: third) →
    ∀ env clientId event env' clientId' event', Commits e env clientId event →
      event.type = rolesChangeType →
      e.after.store.db.eventOutbox.rows ≠ e.before.store.db.eventOutbox.rows →
      Commits e' env' clientId' event' → event'.id = event.id →
      e'.after.store.db.eventOutbox.rows = e'.before.store.db.eventOutbox.rows
  undelivered : ∀ e ∈ trace, ∀ env clientId event, Commits e env clientId event →
    event.type = rolesChangeType →
    e.after.store.db.eventOutbox.rows ≠ e.before.store.db.eventOutbox.rows →
    ∃ r ∈ cfg.store.db.eventOutbox.rows, r.id = event.id ∧ r.status = .dead

theorem lossless (hstart : (importSystem sha256 runs).initial start)
    (hrun : Exec (importSystem sha256 runs) start trace cfg) (hfresh : DrawsFresh trace) :
    Lossless start cfg trace where
  removed := (accounted hstart hrun).removed
  persisted e he env clientId event hcommits := hfresh.persisted he hcommits
  kept e he env clientId event hcommits := committed_kept hrun he hcommits
  once := by
    rintro first e second e' third rfl env clientId event env' clientId' event' he he' hid hnone
    obtain ⟨mid, hfirst, hrest⟩ := hrun.of_append
    obtain ⟨-, -, hrest⟩ := hrest.of_cons
    obtain ⟨mid', hsecond, hthird⟩ := hrest.of_append
    obtain ⟨rfl, -, -⟩ := hthird.of_cons
    obtain ⟨r, hr, hrow⟩ | harchived := keeps_run hsecond (persistWork_keeps he.work)
    · exact absurd (hrow.id.trans hid.symm) (hnone r hr)
    · exact harchived
  replacedOnce := by
    rintro first e second e' third rfl env clientId event env' clientId' event' he hrole hchanged he'
      hid
    have hmem : e ∈ first ++ e :: (second ++ e' :: third) :=
      List.mem_append_right _ List.mem_cons_self
    have hmem' : e' ∈ first ++ e :: (second ++ e' :: third) :=
      List.mem_append_right _ (List.mem_cons_of_mem _ (List.mem_append_right _ List.mem_cons_self))
    have hdead := replaced_dead (hfresh.persisted hmem he) hrole hchanged
    obtain ⟨mid, hfirst, hrest⟩ := hrun.of_append
    obtain ⟨-, -, hrest⟩ := hrest.of_cons
    obtain ⟨mid', hsecond, hthird⟩ := hrest.of_append
    obtain ⟨rfl, -, -⟩ := hthird.of_cons
    refine persisted_again (hfresh.persisted hmem' he') ?_
    rw [hid]
    exact dead_run hsecond hdead
  undelivered := by
    intro e he env clientId event hcommits hrole hchanged
    have hdead := replaced_dead (hfresh.persisted he hcommits) hrole hchanged
    obtain ⟨first, second, rfl, -, -, hsecond⟩ := hrun.split he
    exact dead_run hsecond hdead

/-- The import loses no member and duplicates no event in any run, and a process that goes on
sweeping visits every set that is reported to it and consumes every page. -/
theorem legacy_import (hstart : (importSystem sha256 runs).initial start)
    (hrun : Exec (importSystem sha256 runs) start trace cfg) (hfresh : DrawsFresh trace) :
    Lossless start cfg trace ∧
    ∀ (st : ℕ → Importer) (steps : ℕ → List ImportStep),
      (∀ k, (sweep (st k)).Plays (steps k) (st (k + 1))) →
      ((∀ k, ∃ m, k ≤ m ∧ visits (steps m) ≠ []) →
        ∀ key k, key ∈ reports (steps k) → ∃ m, k ≤ m ∧ key ∈ visits (steps m)) ∧
      ∀ k, ¬ Stopped (steps k) → ∀ key cursor next members,
        ⟨.zscan key cursor, some (next, members)⟩ ∈ steps k →
        ∀ member score event, (member, score) ∈ members →
          parseLegacyEvent member score = .ok event → Handled key member event (steps k) := by
  refine ⟨lossless hstart hrun hfresh, fun st steps hplays => ⟨?_, ?_⟩⟩
  · exact fun hmoving key k hreported => reported_visited hplays hmoving hreported
  · intro k hgoes key cursor next members hpage member score event hmember hevent
    exact sweep_handles (hplays k) hgoes hpage hmember hevent

end Imports

section OneMember

/-- The role event an earlier version left for the client. -/
def leftMember : JsString :=
  (Json.ofObject [("id", .str (Uuid.numbered 5).text), ("type", .text "account.roles_change"),
    ("payload", Json.ofObject [("sub", .str (Uuid.numbered 1).text)]), ("attempts", Json.int 2),
    ("created_at", Json.int 1700000000000)]).stringify

def leftStore : LegacyStore where
  sets := (∅ : Table (JsString × JsString) JsString).upsert
    (js "events:out:app", leftMember) (js "1700000060000")
  db := oneAuthorityDb

def leftConfig : ImportConfig Unit := ⟨leftStore, [], fun _ => sweeps 1 Importer.start⟩

/-- The answers of the one sweep: the set, no destination, and the page with the member. -/
def leftGiven : Given where
  env := ⟨1800000000000, fun _ => Uuid.numbered 7, fun _ => Uuid.numbered 2, id⟩
  names := (js "0", [js "events:out:app"])
  page := (js "0", [(leftMember, js "1700000060000")])
  stopping := false

/-- The next command does not draw the id of a stored event. -/
def freshDraw (cfg : ImportConfig Unit) : Bool :=
  match cfg.requests () with
  | .call (.persist _ event) _ => decide (event.id ≠ Uuid.numbered 7) &&
      cfg.store.db.eventOutbox.rows.all fun r => decide (r.id ≠ Uuid.numbered 7)
  | _ => true

def leftMove (outcome : Interleaving.Outcome) : ImportMove Unit := .act () (outcome, leftGiven)

def leftStep (cfg : ImportConfig Unit) (outcome : Interleaving.Outcome) :
    Option (ImportConfig Unit) :=
  if freshDraw cfg then (importServer fun text => text).faulty.step cfg (leftMove outcome) else none

/-- What a step of this process draws is no id of a stored event. -/
def LeftFresh (cfg : ImportConfig Unit) (move : ImportMove Unit) : Prop :=
  ∀ clientId event i outcome given k, move = .act i (outcome, given) →
    cfg.requests i = .call (.persist clientId event) k →
    Unused given.env cfg.store.db.eventOutbox ∧ ∀ n, event.id ≠ given.env.eventId n

theorem leftStep_ok {cfg cfg' : ImportConfig Unit} {outcome : Interleaving.Outcome}
    (h : leftStep cfg outcome = some cfg') :
    (importSystem (fun text => text) fun _ => 1).step cfg (leftMove outcome) cfg' ∧
      LeftFresh cfg (leftMove outcome) := by
  unfold leftStep at h
  by_cases hcheck : freshDraw cfg = true
  · rw [if_pos hcheck] at h
    refine ⟨h, ?_⟩
    intro clientId event i outcome' given k hmove hprog
    obtain ⟨-, hgiven⟩ := Move.act.inj hmove
    obtain ⟨-, rfl⟩ := Prod.mk.inj hgiven
    rw [freshDraw, hprog] at hcheck
    simp only [Bool.and_eq_true, List.all_eq_true, decide_eq_true_eq] at hcheck
    exact ⟨fun n r hr => hcheck.2 r hr, fun n => hcheck.1⟩
  · rw [if_neg hcheck] at h
    cases h

/-- One sweep empties the set, and the role event it held was persisted. -/
theorem legacy_import_left :
    ∃ cfg trace, Exec (importSystem (fun text => text) fun _ => 1) leftConfig trace cfg ∧
      cfg.store.sets.contains (js "events:out:app", leftMember) = false ∧
      ∃ e ∈ trace, ∃ env event, Commits e env (js "app") event := by
  have hswept : ((List.replicate 7 Interleaving.Outcome.answered).foldlM leftStep leftConfig).any
      (fun cfg => !cfg.store.sets.contains (js "events:out:app", leftMember)) = true := by
    decide +kernel
  obtain ⟨cfg, hcfg, hgone⟩ := (Option.any_eq_true _ _).mp hswept
  rw [Bool.not_eq_true'] at hgone
  obtain ⟨trace, hrun, hguard⟩ := @exec_of_foldlM_via _ _
    (importSystem (fun text => text) fun _ => 1) _ leftMove LeftFresh leftStep
    (fun _ _ _ h => leftStep_ok h) _ _ _ hcfg
  have hfresh : DrawsFresh trace := by
    intro e he env clientId event hcommits
    obtain ⟨i, outcome, given, k, hlabel, -, rfl, hprog⟩ := hcommits.step
    exact hguard e he clientId event i outcome given k hlabel hprog
  have himport := @legacy_import Unit _ (fun text => text) (fun _ => 1) leftConfig cfg trace
    ⟨trivial, rfl, rfl⟩ hrun hfresh
  obtain ⟨e, he, env, event, score, -, hcommits⟩ :=
    himport.1.removed (js "events:out:app") leftMember (by decide +kernel) hgone
  have hclient : clientOf (js "events:out:app") = js "app" := by decide
  exact ⟨cfg, trace, hrun, hgone, e, he, env, event, hclient ▸ hcommits⟩

end OneMember

end DreamSso.LegacyImport
