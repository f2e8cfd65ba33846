import DreamSso.LegacyPersist

/-!
Runs of any number of importer processes, interleaved with the other users of the tables.
Redis answers SCAN, SSCAN and ZSCAN with anything, and every command may be refused or
executed without an answer. A process that is not scheduled any more has crashed.
-/
namespace DreamSso.LegacyImport

open Interleaving JsStrings JsonValues KeyedTables Transitions

/-- The sorted sets as a table of set key and member, and the database. -/
structure LegacyStore where
  sets : Table (JsString × JsString) JsString
  db : Db

/-- What the answer to one command takes from outside. -/
structure Given where
  env : Surroundings
  names : JsString × List JsString
  page : JsString × List (JsString × JsString)
  stopping : Bool

/-- What happens in the database besides the import. -/
inductive Background
  | outbox (now : ℤ) (call : DueHeads.StoreCall)
  | cleanup (now : ℤ)
  | roles (transaction : RoleTransaction)
  | client (clientId : ClientId) (client : OauthClient)

def persist (env : Surroundings) (clientId : ClientId) (event : LegacyEvent) (s : LegacyStore) :
    Option Unit × LegacyStore :=
  match persistWork env clientId event s.db with
  | .ok db => (some (), { s with db := db })
  | .error _ => (none, s)

def zrem (key member : JsString) (s : LegacyStore) : Option ℕ × LegacyStore :=
  (some (if s.sets.contains (key, member) then 1 else 0),
    { s with sets := s.sets.deleteWhere fun k _ => decide (k = (key, member)) })

def background (sha256 : JsString → Digest) (s : LegacyStore) : Background → Option LegacyStore
  | .outbox now call => (call.commit now s.db.toChannel).map fun channel =>
      { s with db.toChannel := channel }
  | .cleanup now => some { s with db.toChannel := cleanupArchive now s.db.toChannel }
  | .roles transaction => some { s with db := transaction.commit sha256 s.db }
  | .client clientId client =>
      some { s with db.oauthClients := s.db.oauthClients.upsert clientId client }

def importServer (sha256 : JsString → Digest) :
    Server ImportCommand ImportCommand.Reply LegacyStore Given Background where
  perform given
    | .scan _, s => (some given.names, s)
    | .sscan _, s => (some given.names, s)
    | .zscan _ _, s => (some given.page, s)
    | .stopping, s => (some given.stopping, s)
    | .persist clientId event, s => persist given.env clientId event s
    | .zrem key member, s => zrem key member s
  drift e s := background sha256 s e

section Runs

variable {ι : Type} [DecidableEq ι] {sha256 : JsString → Digest} {runs : ι → ℕ}

abbrev ImportConfig (ι : Type) : Type :=
  Config ι ImportCommand ImportCommand.Reply LegacyStore Unit

abbrev ImportMove (ι : Type) : Type := Move ι (Interleaving.Outcome × Given) Background

abbrev ImportEvent (ι : Type) : Type := Event (ImportConfig ι) (ImportMove ι)

/-- Every process makes as many sweeps as it is given, over any sets and any tables. -/
def importSystem (sha256 : JsString → Digest) (runs : ι → ℕ) :
    System (ImportConfig ι) (ImportMove ι) :=
  (importServer sha256).faulty.system (fun _ => True) fun i => sweeps (runs i) Importer.start

/-- What a process has persisted in its last command. -/
def importProtocol : Protocol ImportCommand ImportCommand.Reply (Option (ClientId × LegacyEvent)) where
  next
    | _, .persist clientId event, some _ => some (clientId, event)
    | _, _, _ => none
  ok
    | last, .zrem key member => ∃ event score, parseLegacyEvent member score = .ok event ∧
        last = some (clientOf key, event)
    | _, _ => True

abbrev Anyway {α : Type} (_ : Option (ClientId × LegacyEvent)) (_ : Option α) : Prop := True

theorem importPage_obeys (key : JsString) (members : List (JsString × JsString))
    (last : Option (ClientId × LegacyEvent)) :
    importProtocol.Obeys Anyway last (importPage key members) := by
  induction members generalizing last with
  | nil => trivial
  | cons entry rest ih =>
    obtain ⟨member, score⟩ := entry
    refine ⟨trivial, fun stop => ?_⟩
    cases stop with
    | none => trivial
    | some stop =>
      cases stop with
      | true => trivial
      | false =>
        simp only
        split
        · exact ih _
        · next event hevent =>
          refine ⟨trivial, fun answer => ?_⟩
          cases answer with
          | none => exact ih _
          | some answer => exact ⟨⟨event, score, hevent, rfl⟩, fun _ => ih _⟩

theorem visitKeys_obeys (keys : List JsString) (st : Importer)
    (last : Option (ClientId × LegacyEvent)) :
    importProtocol.Obeys Anyway last (visitKeys keys st) := by
  induction keys generalizing st last with
  | nil => trivial
  | cons key rest ih =>
    refine ⟨trivial, fun stop => ?_⟩
    cases stop with
    | none => trivial
    | some stop =>
      cases stop with
      | true => trivial
      | false =>
        refine ⟨trivial, fun answer => ?_⟩
        cases answer with
        | none => trivial
        | some page =>
          obtain ⟨cursor, members⟩ := page
          refine Protocol.obeys_bind.mpr ((importPage_obeys key members _).mono fun last' done _ => ?_)
          cases done with
          | none => trivial
          | some done => exact ih _ _

theorem sweep_obeys (st : Importer) (last : Option (ClientId × LegacyEvent)) :
    importProtocol.Obeys Anyway last (sweep st) := by
  refine ⟨trivial, fun keys => ?_⟩
  cases keys with
  | none => trivial
  | some keys =>
    refine ⟨trivial, fun ids => ?_⟩
    cases ids with
    | none => trivial
    | some ids => exact visitKeys_obeys _ _ _

theorem sweeps_obeys (n : ℕ) (st : Importer) (last : Option (ClientId × LegacyEvent)) :
    importProtocol.Obeys Anyway last (sweeps n st) := by
  induction n generalizing st last with
  | zero => trivial
  | succ n ih =>
    refine Protocol.obeys_bind.mpr ((sweep_obeys st last).mono fun last' done _ => ?_)
    cases done with
    | none => trivial
    | some st => exact ih _ _

/-- The step commits the transaction that persists the event. Its answer may get lost. -/
structure Commits (e : ImportEvent ι) (env : Surroundings) (clientId : ClientId)
    (event : LegacyEvent) : Prop where
  step : ∃ i outcome given k, e.label = .act i (outcome, given) ∧ outcome ≠ .refused ∧
    given.env = env ∧ e.before.requests i = .call (.persist clientId event) k
  work : persistWork env clientId event e.before.store.db = .ok e.after.store.db

theorem persist_ok {env : Surroundings} {clientId : ClientId} {event : LegacyEvent} {s : LegacyStore}
    {answer : Unit} (h : (persist env clientId event s).1 = some answer) :
    persistWork env clientId event s.db = .ok (persist env clientId event s).2.db := by
  unfold persist at h ⊢
  split
  · assumption
  · next hfailed => simp [hfailed] at h

/-- A command changes the sets only by removing the member it names. -/
theorem perform_sets (w : Interleaving.Outcome × Given) (c : ImportCommand) (s : LegacyStore)
    (entry : JsString × JsString) :
    ((importServer sha256).faulty.perform w c s).2.sets.find? entry = s.sets.find? entry ∨
      c = .zrem entry.1 entry.2 := by
  have hperform : ((importServer sha256).perform w.2 c s).2.sets.find? entry = s.sets.find? entry ∨
      c = .zrem entry.1 entry.2 := by
    cases c with
    | persist clientId event =>
      left
      simp only [importServer, persist]
      split <;> rfl
    | zrem key member =>
      by_cases hentry : entry = (key, member)
      · exact .inr (by rw [hentry])
      · left
        simp only [importServer, zrem, Table.find?_deleteWhere, hentry, decide_false, Bool.not_false]
        cases s.sets.find? entry <;> rfl
    | scan | sscan | zscan | stopping => exact .inl rfl
  obtain hsame | hsame := (importServer sha256).faulty_store w c s
  · exact .inl (by rw [hsame])
  · rw [hsame]
    exact hperform

/-- What holds of the processes and the sets after the steps so far. -/
structure Accounted (start : ImportConfig ι) (trace : List (ImportEvent ι))
    (cfg : ImportConfig ι) : Prop where
  obeys : ∀ i, importProtocol.Obeys Anyway (importProtocol.view none i cfg.log) (cfg.requests i)
  persisted : ∀ i clientId event, importProtocol.view none i cfg.log = some (clientId, event) →
    ∃ e ∈ trace, ∃ env, Commits e env clientId event
  removed : ∀ key member, start.store.sets.contains (key, member) = true →
    cfg.store.sets.contains (key, member) = false →
    ∃ e ∈ trace, ∃ env event score, parseLegacyEvent member score = .ok event ∧
      Commits e env (clientOf key) event

theorem Accounted.initial {start : ImportConfig ι} (h : (importSystem sha256 runs).initial start) :
    Accounted start [] start := by
  obtain ⟨-, hlog, hprograms⟩ := h
  refine ⟨fun i => ?_, fun i clientId event hview => ?_, fun key member hthere hgone => ?_⟩
  · rw [hlog, hprograms]
    exact sweeps_obeys _ _ _
  · rw [hlog] at hview
    cases hview
  · rw [hthere] at hgone
    cases hgone

/-- The phase of a process that was just answered. -/
theorem persisted_last {cfg : ImportConfig ι} {i : ι} {w : Interleaving.Outcome × Given}
    {c : ImportCommand} {k : Option c.Reply → ImportProg Unit} (hprog : cfg.requests i = .call c k)
    {last : Option (ClientId × LegacyEvent)} {clientId : ClientId} {event : LegacyEvent}
    (h : importProtocol.next last c ((importServer sha256).faulty.perform w c cfg.store).1 =
      some (clientId, event)) :
    Commits ⟨cfg, .act i w, cfg.resume i c k ((importServer sha256).faulty.perform w c cfg.store)⟩
      w.2.env clientId event := by
  cases c with
  | persist clientId' event' =>
    cases hreply : ((importServer sha256).faulty.perform w (.persist clientId' event')
        cfg.store).1 with
    | none =>
      rw [hreply] at h
      cases h
    | some answer =>
      rw [hreply] at h
      obtain ⟨rfl, rfl⟩ := Prod.mk.inj (Option.some.inj h)
      obtain ⟨outcome, given⟩ := w
      cases outcome with
      | answered => exact ⟨⟨i, _, given, k, rfl, by decide, rfl, hprog⟩, persist_ok hreply⟩
      | refused => cases hreply
      | lost => cases hreply
  | scan | sscan | zscan | stopping | zrem => cases h

theorem Accounted.step {start cfg cfg' : ImportConfig ι} {trace : List (ImportEvent ι)}
    {m : ImportMove ι} (h : Accounted start trace cfg)
    (hstep : (importServer sha256).faulty.step cfg m = some cfg') :
    Accounted start (trace ++ [⟨cfg, m, cfg'⟩]) cfg' := by
  have hobeys := @Server.obeys_step ι ImportCommand ImportCommand.Reply LegacyStore Unit _ Background
    _ _ (importServer sha256).faulty (fun _ => importProtocol) (fun _ => none) (fun _ => Anyway)
    cfg cfg' m hstep h.obeys
  have hold : ∀ {P : ImportEvent ι → Prop}, (∃ e ∈ trace, P e) →
      ∃ e ∈ trace ++ [⟨cfg, m, cfg'⟩], P e := by
    rintro P ⟨e, he, hP⟩
    exact ⟨e, List.mem_append_left _ he, hP⟩
  cases m with
  | drift e =>
    obtain ⟨s, hs, rfl⟩ := Server.step_drift hstep
    have hsets : s.sets = cfg.store.sets := by
      cases e with
      | outbox now call =>
        obtain ⟨channel, -, rfl⟩ := Option.map_eq_some_iff.mp hs
        rfl
      | cleanup | roles | client => exact (Option.some.inj hs) ▸ rfl
    refine ⟨hobeys, fun i clientId event hview => hold (h.persisted i clientId event hview), ?_⟩
    intro key member hthere hgone
    rw [hsets] at hgone
    exact hold (h.removed key member hthere hgone)
  | act i w =>
    obtain ⟨c, k, hprog, rfl⟩ := Server.step_act hstep
    refine ⟨hobeys, fun j clientId event hview => ?_, fun key member hthere hgone => ?_⟩
    · by_cases hij : i = j
      · subst hij
        rw [Config.resume, Protocol.view_self] at hview
        exact ⟨_, List.mem_append_right _ (List.mem_singleton_self _), _,
          persisted_last hprog hview⟩
      · rw [Config.resume, Protocol.view_other _ _ _ _ _ hij] at hview
        exact hold (h.persisted j clientId event hview)
    · by_cases hbefore : cfg.store.sets.contains (key, member) = true
      · obtain hsame | rfl := @perform_sets sha256 w c cfg.store (key, member)
        · rw [Config.resume, Table.contains, hsame, ← Table.contains, hbefore] at hgone
          cases hgone
        · have hi := h.obeys i
          rw [hprog] at hi
          obtain ⟨event, score, hparsed, hlast⟩ := hi.1
          obtain ⟨e, he, env, hcommits⟩ := h.persisted i _ _ hlast
          exact ⟨e, List.mem_append_left _ he, env, event, score, hparsed, hcommits⟩
      · exact hold (h.removed key member hthere (by simpa using hbefore))

theorem accounted {start cfg : ImportConfig ι} {trace : List (ImportEvent ι)}
    (hstart : (importSystem sha256 runs).initial start)
    (hrun : Exec (importSystem sha256 runs) start trace cfg) : Accounted start trace cfg :=
  hrun.history (fun trace cfg => Accounted start trace cfg) (Accounted.initial hstart)
    fun _ _ _ _ _ h hstep => h.step hstep

/-- A step keeps every row or archives it. -/
theorem step_rows {cfg cfg' : ImportConfig ι} {m : ImportMove ι}
    (h : (importServer sha256).faulty.step cfg m = some cfg') {r : OutboxRow}
    (hr : r ∈ cfg.store.db.eventOutbox.rows) :
    (∃ r' ∈ cfg'.store.db.eventOutbox.rows, Later r r') ∨
      ∃ now, m = .drift (.cleanup now) ∧ archivable now r = true := by
  cases m with
  | drift e =>
    obtain ⟨s, hs, rfl⟩ := Server.step_drift h
    cases e with
    | outbox now call =>
      obtain ⟨channel, hchannel, rfl⟩ := Option.map_eq_some_iff.mp hs
      exact .inl (storeCall_outlives hchannel r hr)
    | cleanup now =>
      obtain rfl := Option.some.inj hs
      obtain hkept | hold := @cleanupArchive_drops now cfg.store.db.toChannel r hr
      · exact .inl ⟨r, hkept, Later.refl r⟩
      · exact .inr ⟨now, rfl, hold⟩
    | roles transaction =>
      obtain rfl := Option.some.inj hs
      exact .inl (Outlives.of_extends (roleTransaction_extends transaction cfg.store.db) r hr)
    | client clientId client =>
      obtain rfl := Option.some.inj hs
      exact .inl ⟨r, hr, Later.refl r⟩
  | act i w =>
    obtain ⟨c, k, hprog, rfl⟩ := Server.step_act h
    left
    have hperform : Outlives cfg.store.db.eventOutbox
        ((importServer sha256).perform w.2 c cfg.store).2.db.eventOutbox := by
      cases c with
      | persist clientId event =>
        simp only [importServer, persist]
        split
        · next hok => exact persistWork_outlives hok
        · exact Outlives.refl _
      | scan | sscan | zscan | stopping | zrem => exact Outlives.refl _
    obtain hsame | hsame := (importServer sha256).faulty_store w c cfg.store
    · exact ⟨r, by rw [Config.resume, hsame]; exact hr, Later.refl r⟩
    · rw [Config.resume, hsame]
      exact hperform r hr

/-- The archive took the row of the event after it was delivered. -/
def Archived (trace : List (ImportEvent ι)) (clientId : ClientId) (event : LegacyEvent) : Prop :=
  ∃ a ∈ trace, ∃ now, a.label = .drift (.cleanup now) ∧
    ∃ r ∈ a.before.store.db.eventOutbox.rows, Keeps clientId event r ∧ archivable now r = true

omit [DecidableEq ι] in
theorem Archived.mono {first second : List (ImportEvent ι)} {clientId : ClientId}
    {event : LegacyEvent} (hsub : ∀ e ∈ first, e ∈ second) (h : Archived first clientId event) :
    Archived second clientId event := by
  obtain ⟨a, ha, hrest⟩ := h
  exact ⟨a, hsub a ha, hrest⟩

/-- An event that is stored stays stored until it is archived. -/
theorem keeps_run {start cfg : ImportConfig ι} {trace : List (ImportEvent ι)} {clientId : ClientId}
    {event : LegacyEvent} (hrun : Exec (importSystem sha256 runs) start trace cfg)
    (h : ∃ r ∈ start.store.db.eventOutbox.rows, Keeps clientId event r) :
    (∃ r ∈ cfg.store.db.eventOutbox.rows, Keeps clientId event r) ∨
      Archived trace clientId event := by
  refine hrun.history (fun trace cfg => (∃ r ∈ cfg.store.db.eventOutbox.rows,
    Keeps clientId event r) ∨ Archived trace clientId event) (.inl h) ?_
  intro trace cfg m cfg' _ hkept hstep
  obtain ⟨r, hr, hrow⟩ | harchived := hkept
  · obtain ⟨r', hr', hlater⟩ | ⟨now, rfl, hold⟩ := step_rows hstep hr
    · exact .inl ⟨r', hr', hrow.later hlater⟩
    · exact .inr ⟨_, List.mem_append_right _ (List.mem_singleton_self _), now, rfl, r, hr, hrow, hold⟩
  · exact .inr (harchived.mono fun e he => List.mem_append_left _ he)

/-- A dead row stays dead. -/
theorem dead_run {start cfg : ImportConfig ι} {trace : List (ImportEvent ι)} {id : Uuid}
    (hrun : Exec (importSystem sha256 runs) start trace cfg)
    (h : ∃ r ∈ start.store.db.eventOutbox.rows, r.id = id ∧ r.status = .dead) :
    ∃ r ∈ cfg.store.db.eventOutbox.rows, r.id = id ∧ r.status = .dead := by
  refine @Exec.preserves _ _ _ (fun cfg : ImportConfig ι =>
    ∃ r ∈ cfg.store.db.eventOutbox.rows, r.id = id ∧ r.status = .dead) ?_ _ _ _ hrun h
  rintro cfg m cfg' ⟨r, hr, rfl, hdead⟩ hstep
  obtain ⟨r', hr', hlater⟩ | ⟨now, -, hold⟩ := step_rows hstep hr
  · refine ⟨r', hr', hlater.id, ?_⟩
    rw [hlater.final (by rw [hdead]; decide)]
    exact hdead
  · simp [archivable, hdead] at hold

end Runs

end DreamSso.LegacyImport
