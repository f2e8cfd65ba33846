import DreamSso.LogoutFanOut

/-!
When a client is told that a session has ended. Its recording, the deletion of the session and
the enqueue are steps of different requests; the history of a run says which of them were taken.
-/
namespace DreamSso

open Interleaving JsStrings JsonValues KeyedTables StoredJson Transitions

section Outbox

variable {P : Primitives} {out : Outside} {s s' : Sso} {sid : Uuid} {clientId : ClientId}
  {g : FanOutPhase} {c : Command}

/-- An event for the client says that the session has ended. -/
def Told (s : Sso) (clientId : ClientId) (sid : Uuid) : Prop :=
  ∃ (sub : Uuid) (event : NormalizedEvent), event.type = (Sso.logoutEvent sub sid.text).type ∧
    event.payload = (Sso.logoutEvent sub sid.text).payload ∧
      Kept s.db.eventOutbox clientId event

theorem told_same (h : s'.db.eventOutbox = s.db.eventOutbox) :
    Told s' clientId sid ↔ Told s clientId sid := by
  unfold Told
  rw [h]

theorem jsonbInput_logout {sub : Uuid} {text : JsString} {stored : Json}
    (h : jsonbInput (Sso.logoutPayload sub text) = some stored) :
    stored = Json.ofObject [("sid", .str text), ("sub", .str sub.text)] := by
  have horder : jsonbKeyLE (js "sub") (js "sid") = false := by decide
  unfold jsonbInput at h
  split at h
  · rw [← Option.some.inj h]
    simp [Sso.logoutPayload, Json.ofObject, Json.printed, Json.printedMembers, Json.sortKeys,
      Json.sortMembers, List.insertionSort, horder]
  · cases h

/-- Rows with one content are about one client and one session. -/
theorem content_of_logout {event event' : NormalizedEvent} {sub sub' : Uuid}
    {clientId' : ClientId} {text text' : JsString} {content : EventContent}
    (hpayload : event.payload = Sso.logoutPayload sub text)
    (hpayload' : event'.payload = Sso.logoutPayload sub' text')
    (h : storedContent clientId event = some content)
    (h' : storedContent clientId' event' = some content) :
    clientId' = clientId ∧ text' = text := by
  simp only [storedContent, Option.bind_eq_some_iff, Option.map_eq_some_iff] at h h'
  obtain ⟨_, -, stored, hstored, rfl⟩ := h
  obtain ⟨_, -, stored', hstored', hcontent⟩ := h'
  rw [hpayload] at hstored
  rw [hpayload'] at hstored'
  simp only [Prod.mk.injEq, jsonbInput_logout hstored, jsonbInput_logout hstored'] at hcontent
  obtain ⟨-, rfl, hboth, -⟩ := hcontent
  simp only [Json.ofObject, List.map_cons, List.map_nil, Json.obj.injEq, List.cons.injEq,
    Prod.mk.injEq, Json.str.injEq] at hboth
  exact ⟨rfl, hboth.1.2⟩

/-- The event is for the client and about the session. -/
def Command.tells (sid : Uuid) (clientId : ClientId) : Command → Bool
  | .enqueueLogout clientId' _ text => decide (clientId' = clientId ∧ text = sid.text)
  | _ => false

/-- The outbox takes the event. -/
def Command.stores (out : Outside) (s : Sso) : Command → Bool
  | .enqueueLogout clientId sub text => (s.enqueueLogout out clientId sub text).1.isSome
  | _ => false

/-- A committed enqueue has stored its event, and nothing else. -/
theorem told_enqueue {clientId' : ClientId} {sub : Uuid} {text : JsString} :
    Told (s.enqueueLogout out clientId' sub text).2 clientId sid ↔ Told s clientId sid ∨
      (clientId' = clientId ∧ text = sid.text) ∧
        (s.enqueueLogout out clientId' sub text).1.isSome = true := by
  unfold Sso.enqueueLogout
  split
  · next ids channel hinsert =>
    obtain ⟨normalized, hnormalized, -, hkept, ⟨extra, hrows, -⟩, -⟩ := insertEvents_stored hinsert
    have hevents : ∀ e ∈ normalized, e.type = (Sso.logoutEvent sub text).type ∧
        e.payload = Sso.logoutPayload sub text := by
      cases normalizeAll_each hnormalized with
      | cons hfirst hrest =>
        cases hrest
        obtain ⟨n, hevent⟩ := hfirst
        obtain ⟨htype, hpayload, -⟩ := normalizedEvent_ok hevent
        intro e he
        rw [List.mem_singleton.mp he]
        exact ⟨htype, hpayload⟩
    constructor
    · rintro ⟨sub', event, htype, hpayload, row, hrow, hid, hcontent⟩
      obtain ⟨normalized', hnormalized', hadds⟩ := insertEvents_adds hinsert
      obtain rfl := Except.ok.inj (hnormalized.symm.trans hnormalized')
      rcases hadds row hrow with hold | ⟨e, he, hstored⟩
      · exact .inl ⟨sub', event, htype, hpayload, row, hold, hid, hcontent⟩
      · exact .inr ⟨content_of_logout hpayload (hevents e he).2 hcontent hstored, rfl⟩
    · rintro (⟨sub', event, htype, hpayload, hold⟩ | ⟨⟨rfl, rfl⟩, -⟩)
      · exact ⟨sub', event, htype, hpayload, hold.mono hrows⟩
      · cases hone : normalized with
        | nil =>
          have hnone := normalizeAll_each hnormalized
          rw [hone] at hnone
          cases hnone
        | cons e rest =>
          have he : e ∈ normalized := by
            rw [hone]
            exact List.mem_cons_self
          exact ⟨sub, e, (hevents e he).1, (hevents e he).2, hkept e he⟩
  · simp

theorem outbox_perform (hok : g.Allows c)
    (hc : ∀ clientId sub text, c ≠ .enqueueLogout clientId sub text) :
    (Sso.perform P out c s).2.db.eventOutbox = s.db.eventOutbox := by
  cases c with
  | roleTransaction transaction => exact absurd hok id
  | insertSession session => exact absurd hok id
  | enqueueLogout clientId sub text => exact absurd rfl (hc clientId sub text)
  | updateProfile sub changes =>
    simp only [Sso.perform, Sso.updateProfile]
    split_ifs <;> rfl
  | persistSession sid' tokenHash =>
    simp only [Sso.perform]
    split_ifs <;> rfl
  | _ => rfl

/-- A client is told by an enqueue alone. -/
theorem told_perform (hok : g.Allows c) :
    Told (Sso.perform P out c s).2 clientId sid ↔ Told s clientId sid ∨
      (c.tells sid clientId = true ∧ c.stores out s = true) := by
  by_cases hc : ∃ clientId' sub text, c = .enqueueLogout clientId' sub text
  · obtain ⟨clientId', sub, text, rfl⟩ := hc
    show Told (s.enqueueLogout out clientId' sub text).2 clientId sid ↔ _
    rw [told_enqueue]
    simp [Command.tells, Command.stores]
  · push Not at hc
    have htells : c.tells sid clientId = false := by
      cases c <;> first | rfl | exact absurd rfl (hc _ _ _)
    rw [told_same (outbox_perform hok hc), htells]
    simp

end Outbox

section Kinds

variable {ι : Type} (sid : Uuid) (clientId : ClientId)

abbrev LogoutConfig (ι : Type) := Config ι Command Command.Reply Sso Response

abbrev LogoutMove (ι : Type) := Move ι (Interleaving.Outcome × Outside) Sso.Drift

abbrev LogoutEvent (ι : Type) := Event (LogoutConfig ι) (LogoutMove ι)

/-- The statement records the client under the session. -/
def Command.appends : Command → Bool
  | .appendClient sid' clientId' => decide (sid' = sid ∧ clientId' = clientId)
  | _ => false

/-- It does not name the session by another text than its id. -/
def Command.spells : Command → Bool
  | .deleteSessions filter => filter.spells sid
  | _ => true

/-- A step of a request whose command is of a kind. -/
def stepIs (kind : Interleaving.Outcome × Outside → Sso → Command → Bool) (cfg : LogoutConfig ι) :
    LogoutMove ι → Bool
  | .act i w => match cfg.requests i with
    | .call c _ => kind w cfg.store c
    | .done _ => false
    | .thrown => false
  | .drift _ => false

/-- The append of the client to the session is issued; nobody waits for it. -/
def appendIssued : LogoutConfig ι → LogoutMove ι → Bool :=
  stepIs fun w _ c => decide (w.1 ≠ .refused) && c.appends sid clientId

/-- The append is executed while the session is there. -/
def appendExecuted (cfg : LogoutConfig ι) : LogoutMove ι → Bool
  | .drift (.settle index true) =>
      decide (cfg.store.unawaited[index]? = some ⟨sid, clientId⟩) &&
        (clientsOf cfg.store sid).isSome
  | _ => false

/-- The row of the session is deleted. -/
def rowDeleted : LogoutConfig ι → LogoutMove ι → Bool :=
  stepIs fun w s c => decide (w.1 ≠ .refused) && c.deletesRow s sid

/-- It is deleted, but without an answer or under another text than its id. -/
def rowLost : LogoutConfig ι → LogoutMove ι → Bool :=
  stepIs fun w s c => decide (w.1 ≠ .refused) && c.deletesRow s sid &&
    !(decide (w.1 = .answered) && c.spells sid)

/-- A request tries to enqueue the logout. -/
def logoutTried : LogoutConfig ι → LogoutMove ι → Bool :=
  stepIs fun _ _ c => c.tells sid clientId

/-- And it is enqueued. -/
def logoutEnqueued : LogoutConfig ι → LogoutMove ι → Bool :=
  stepIs fun w s c => decide (w.1 ≠ .refused) && (c.tells sid clientId && c.stores w.2 s)

/-- The client has been under the session while that was there. -/
def Recorded (start : Sso) (trace : List (LogoutEvent ι)) : Prop :=
  clientId ∈ (clientsOf start sid).getD [] ∨ Occurs (appendExecuted sid clientId) trace

/-- Of the appends that are issued one is executed in time, the row is not lost, and of the
enqueues that are tried one succeeds. -/
structure FanOutHolds (start : Sso) (trace : List (LogoutEvent ι)) : Prop where
  recorded : Occurs (appendIssued sid clientId) trace → Recorded sid clientId start trace
  answered : ¬ Occurs (rowLost sid) trace
  enqueued : Occurs (logoutTried sid clientId) trace → Occurs (logoutEnqueued sid clientId) trace

end Kinds

section Runs

variable {ι : Type} [DecidableEq ι]

/-- Requests that issue and redeem codes and that end sessions, on a store whose commands may
fail. -/
def logoutRuns (P : Primitives) (calls : ι → LogoutCall) :
    System (LogoutConfig ι) (LogoutMove ι) :=
  (ssoServer P).faulty.system (fun _ => True) fun i => (calls i).program P

/-- Where the requests are after a log. -/
def fanOutPhases (log : List (Entry ι Command Command.Reply)) (i : ι) : FanOutPhase :=
  phases (fun _ => fanOutProtocol) (fun _ => .quiet) log i

/-- A request has the logout before it. -/
def Waiting (phase : ι → FanOutPhase) (clientId : ClientId) (sid : Uuid) : Prop :=
  ∃ i todo sub, phase i = .revoking todo ∧ (clientId, sub, sid.text) ∈ todo

variable {P : Primitives} {calls : ι → LogoutCall} {s : Sso} {i : ι} {c : Command}
  {w : Interleaving.Outcome × Outside} {log : List (Entry ι Command Command.Reply)}
  {clientId : ClientId} {sid : Uuid}

omit [DecidableEq ι] in
theorem next_revoking {g : FanOutPhase} {todo : List (ClientId × Uuid × JsString)}
    {r : Option c.Reply} (hok : g.Allows c) (hg : g = .revoking todo) :
    g.next c r = .revoking todo ∨
      ∃ x rest, todo = x :: rest ∧ c = .enqueueLogout x.1 x.2.1 x.2.2 ∧
        g.next c r = .revoking rest := by
  subst hg
  cases c with
  | appendClient sid clientId => cases hok
  | deleteSessions filter => cases hok
  | enqueueLogout clientId sub sid =>
    obtain ⟨rest, hrest⟩ := hok
    obtain rfl := FanOutPhase.revoking.inj hrest
    exact .inr ⟨_, rest, rfl, rfl, rfl⟩
  | insertSession session => exact absurd hok id
  | roleTransaction transaction => exact absurd hok id
  | _ =>
    left
    rcases todo with _ | _ <;> rfl

omit [DecidableEq ι] in
theorem next_recorded {g : FanOutPhase} {r : Option c.Reply} (hok : g.Allows c)
    (h : g.next c r = .recorded sid clientId) :
    g = .recorded sid clientId ∨ (c = .appendClient sid clientId ∧ r.isSome = true) := by
  cases c with
  | appendClient sid' clientId' =>
    have hg : g = .quiet := hok
    subst hg
    cases r with
    | none => cases h
    | some u =>
      obtain ⟨rfl, rfl⟩ := FanOutPhase.recorded.inj h
      exact .inr ⟨rfl, rfl⟩
  | deleteSessions filter =>
    have hg : g = .quiet := hok
    subst hg
    cases r with
    | none => cases h
    | some revoked => cases h
  | enqueueLogout clientId' sub sid' =>
    obtain ⟨rest, rfl⟩ := hok
    cases h
  | insertSession session => exact absurd hok id
  | roleTransaction transaction => exact absurd hok id
  | _ =>
    left
    rcases g with _ | _ | ⟨_ | _⟩ <;> exact h

/-- The record after a command of a request. -/
def afterCommand (P : Primitives) (w : Interleaving.Outcome × Outside) (s : Sso)
    (log : List (Entry ι Command Command.Reply)) (i : ι) (c : Command) :
    List (Entry ι Command Command.Reply) :=
  log ++ [⟨i, c, ((ssoServer P).faulty.perform w c s).1⟩]

theorem fanOutPhases_other {j : ι} (hj : j ≠ i) :
    fanOutPhases (afterCommand P w s log i c) j = fanOutPhases log j := by
  unfold fanOutPhases afterCommand
  exact phases_other (Ne.symm hj) ..

theorem fanOutPhases_self :
    fanOutPhases (afterCommand P w s log i c) i =
      (fanOutPhases log i).next c ((ssoServer P).faulty.perform w c s).1 := by
  unfold fanOutPhases afterCommand
  exact phases_self (P := fun _ => fanOutProtocol) ..

omit [DecidableEq ι] in
/-- The store after a command that may fail. -/
theorem faulty_cases (P : Primitives) (w : Interleaving.Outcome × Outside) (s : Sso) (c : Command) :
    (w.1 = .refused ∧ ((ssoServer P).faulty.perform w c s).2 = s) ∨
      (w.1 ≠ .refused ∧ ((ssoServer P).faulty.perform w c s).2 = (Sso.perform P w.2 c s).2) := by
  obtain ⟨outcome, out⟩ := w
  cases outcome with
  | answered => exact .inr ⟨by simp, rfl⟩
  | refused => exact .inl ⟨rfl, rfl⟩
  | lost => exact .inr ⟨by simp, rfl⟩

/-- A row goes with its deletion alone. -/
theorem clientsOf_act (hok : (fanOutPhases log i).Allows c) :
    clientsOf ((ssoServer P).faulty.perform w c s).2 sid =
      if decide (w.1 ≠ .refused) && c.deletesRow s sid then none else clientsOf s sid := by
  rcases faulty_cases P w s c with ⟨hrefused, hstore⟩ | ⟨hexecuted, hstore⟩
  · rw [hstore]
    simp [hrefused]
  · rw [hstore]
    by_cases hc : ∃ filter, c = .deleteSessions filter
    · obtain ⟨filter, rfl⟩ := hc
      rw [clientsOf_deleteSessions]
      simp [hexecuted]
    · push Not at hc
      have hkept : c.deletesRow s sid = false := by
        cases c <;> first | rfl | exact absurd rfl (hc _)
      rw [clientsOf_perform hok hc, hkept]
      simp

theorem told_act (hok : (fanOutPhases log i).Allows c) :
    Told ((ssoServer P).faulty.perform w c s).2 clientId sid ↔ Told s clientId sid ∨
      (decide (w.1 ≠ .refused) && (c.tells sid clientId && c.stores w.2 s)) = true := by
  rcases faulty_cases P w s c with ⟨hrefused, hstore⟩ | ⟨hexecuted, hstore⟩
  · rw [hstore]
    simp [hrefused]
  · rw [hstore, told_perform hok]
    simp [hexecuted]

theorem recorded_act (hok : (fanOutPhases log i).Allows c) {j : ι}
    (h : fanOutPhases (afterCommand P w s log i c) j = .recorded sid clientId) :
    fanOutPhases log j = .recorded sid clientId ∨
      (decide (w.1 ≠ .refused) && c.appends sid clientId) = true := by
  by_cases hj : j = i
  · subst hj
    rw [fanOutPhases_self] at h
    rcases next_recorded hok h with hbefore | ⟨rfl, hreply⟩
    · exact .inl hbefore
    · right
      obtain ⟨outcome, out⟩ := w
      cases outcome with
      | refused => cases hreply
      | answered => simp [Command.appends]
      | lost => simp [Command.appends]
  · rw [fanOutPhases_other hj] at h
    exact .inl h

/-- The deletion of a row that the client is under puts its logout before the request. -/
theorem waiting_of_row (hok : (fanOutPhases log i).Allows c) (hanswered : w.1 = .answered)
    (hdeletes : c.deletesRow s sid = true) (hspells : c.spells sid = true)
    (hclient : ∃ clients, clientsOf s sid = some clients ∧ clientId ∈ clients) :
    Waiting (fanOutPhases (afterCommand P w s log i c)) clientId sid := by
  cases c with
  | deleteSessions filter =>
    obtain ⟨outcome, out⟩ := w
    obtain rfl : outcome = .answered := hanswered
    obtain ⟨sub, hsub⟩ := (told_by_deletion filter).mpr ⟨⟨hdeletes, hclient⟩, hspells⟩
    have hquiet : fanOutPhases log i = .quiet := hok
    refine ⟨i, logoutsOf filter (s.revoked filter), sub, ?_, hsub⟩
    rw [fanOutPhases_self, hquiet]
    rfl
  | _ => cases hdeletes

/-- It stays before it until it is tried. -/
theorem waiting_act (hok : (fanOutPhases log i).Allows c)
    (h : Waiting (fanOutPhases log) clientId sid) :
    Waiting (fanOutPhases (afterCommand P w s log i c)) clientId sid ∨
      c.tells sid clientId = true := by
  obtain ⟨j, todo, sub, hphase, htodo⟩ := h
  by_cases hj : j = i
  · subst hj
    obtain hsame | ⟨x, rest, rfl, rfl, hrest⟩ := next_revoking
      (r := ((ssoServer P).faulty.perform w c s).1) hok hphase
    · exact .inl ⟨j, todo, sub, fanOutPhases_self.trans hsame, htodo⟩
    · rcases List.mem_cons.mp htodo with rfl | hlater
      · exact .inr (by simp [Command.tells])
      · exact .inl ⟨j, rest, sub, fanOutPhases_self.trans hrest, hlater⟩
  · exact .inl ⟨j, todo, sub, (fanOutPhases_other hj).trans hphase, htodo⟩

/-- And no other step puts it there. -/
theorem waiting_before (hok : (fanOutPhases log i).Allows c)
    (h : Waiting (fanOutPhases (afterCommand P w s log i c)) clientId sid) :
    Waiting (fanOutPhases log) clientId sid ∨ w.1 = .answered ∧ c.deletesRow s sid = true ∧
      c.spells sid = true ∧ ∃ clients, clientsOf s sid = some clients ∧ clientId ∈ clients := by
  obtain ⟨j, todo, sub, hphase, htodo⟩ := h
  by_cases hj : j = i
  · subst hj
    rw [fanOutPhases_self] at hphase
    by_cases hapart : c.apart = true
    · have hsame : (fanOutPhases log j).next c ((ssoServer P).faulty.perform w c s).1 =
          fanOutPhases log j := (apart_keeps c hapart).2 _
      exact .inl ⟨j, todo, sub, hsame.symm.trans hphase, htodo⟩
    cases c with
    | deleteSessions filter =>
      have hquiet : fanOutPhases log j = .quiet := hok
      rw [hquiet] at hphase
      obtain ⟨outcome, out⟩ := w
      cases outcome with
      | refused => cases hphase
      | lost => cases hphase
      | answered =>
        obtain rfl := FanOutPhase.revoking.inj hphase
        obtain ⟨⟨hdeletes, hclient⟩, hspells⟩ := (told_by_deletion filter).mp ⟨sub, htodo⟩
        exact .inr ⟨rfl, hdeletes, hspells, hclient⟩
    | appendClient sid' clientId' =>
      have hquiet : fanOutPhases log j = .quiet := hok
      rw [hquiet] at hphase
      obtain ⟨outcome, out⟩ := w
      cases outcome <;> cases hphase
    | enqueueLogout clientId' sub' text =>
      obtain ⟨rest, hrest⟩ := hok
      rw [hrest] at hphase
      obtain rfl := FanOutPhase.revoking.inj hphase
      exact .inl ⟨j, _, sub, hrest, List.mem_cons_of_mem _ htodo⟩
    | insertSession session => exact absurd hok id
    | roleTransaction transaction => exact absurd hok id
    | _ => exact absurd rfl hapart
  · rw [fanOutPhases_other hj] at hphase
    exact .inl ⟨j, todo, sub, hphase, htodo⟩

/-- The row of the session has been deleted under the client, and the request knows it. -/
def GivenBack (sid : Uuid) (clientId : ClientId) (start : Sso) (trace : List (LogoutEvent ι)) :
    Prop :=
  Recorded sid clientId start trace ∧ Occurs (rowDeleted sid) trace ∧ ¬ Occurs (rowLost sid) trace

/-- What the steps of a run so far say about the state it has reached. -/
structure FanOutHistory (sid : Uuid) (clientId : ClientId) (start : Sso)
    (trace : List (LogoutEvent ι)) (cfg : LogoutConfig ι) : Prop where
  obeys : ∀ i, fanOutProtocol.Obeys fanOutPost (fanOutPhases cfg.log i) (cfg.requests i)
  issued : ∀ i, fanOutPhases cfg.log i = .recorded sid clientId →
    Occurs (appendIssued sid clientId) trace
  listed : ∀ clients, clientsOf cfg.store sid = some clients →
    (clientId ∈ clients ↔ Recorded sid clientId start trace)
  gone : clientsOf cfg.store sid = none → Recorded sid clientId start trace →
    Occurs (rowDeleted sid) trace
  deleted : Occurs (rowDeleted sid) trace → clientsOf cfg.store sid = none
  waiting : Waiting (fanOutPhases cfg.log) clientId sid → GivenBack sid clientId start trace
  tried : GivenBack sid clientId start trace →
    Waiting (fanOutPhases cfg.log) clientId sid ∨ Occurs (logoutTried sid clientId) trace
  told : Told cfg.store clientId sid ↔
    Told start clientId sid ∨ Occurs (logoutEnqueued sid clientId) trace
  enqueued : Occurs (logoutEnqueued sid clientId) trace → GivenBack sid clientId start trace

theorem FanOutHistory.initial {cfg : LogoutConfig ι} (h : (logoutRuns P calls).initial cfg) :
    FanOutHistory sid clientId cfg.store [] cfg := by
  obtain ⟨-, hlog, hprograms⟩ := h
  have hquiet : ∀ i, fanOutPhases cfg.log i = .quiet := by
    intro i
    rw [hlog]
    rfl
  have hstart : Recorded sid clientId cfg.store ([] : List (LogoutEvent ι)) ↔
      clientId ∈ (clientsOf cfg.store sid).getD [] := or_iff_left (occurs_nil _)
  constructor
  · intro i
    rw [hquiet, hprograms]
    exact keeps_logoutCall P (calls i)
  · intro i hphase
    rw [hquiet] at hphase
    cases hphase
  · intro clients hclients
    rw [hstart, hclients]
    rfl
  · intro hnone hrecorded
    rw [hstart, hnone] at hrecorded
    cases hrecorded
  · exact fun h => (occurs_nil _ h).elim
  · rintro ⟨i, todo, sub, hphase, -⟩
    rw [hquiet] at hphase
    cases hphase
  · exact fun h => (occurs_nil _ h.2.1).elim
  · exact (or_iff_left (occurs_nil _)).symm
  · exact fun h => (occurs_nil _ h).elim

section Step

variable {start : Sso} {trace : List (LogoutEvent ι)} {cfg cfg' : LogoutConfig ι}

omit [DecidableEq ι] in
theorem occurs_act {kind : Interleaving.Outcome × Outside → Sso → Command → Bool}
    {k : Option c.Reply → Handler Response} (hcall : cfg.requests i = .call c k) :
    Occurs (stepIs kind) (trace ++ [⟨cfg, .act i w, cfg'⟩]) ↔
      Occurs (stepIs kind) trace ∨ kind w cfg.store c = true := by
  rw [occurs_snoc]
  simp [stepIs, hcall]

omit [DecidableEq ι] in
theorem occurs_drift {kind : Interleaving.Outcome × Outside → Sso → Command → Bool}
    {e : Sso.Drift} : Occurs (stepIs kind) (trace ++ [⟨cfg, .drift e, cfg'⟩]) ↔
      Occurs (stepIs kind) trace := by
  rw [occurs_snoc]
  simp [stepIs]

omit [DecidableEq ι] in
theorem recorded_same {m : LogoutMove ι} (h : appendExecuted sid clientId cfg m = false) :
    Recorded sid clientId start (trace ++ [⟨cfg, m, cfg'⟩]) ↔
      Recorded sid clientId start trace := by
  unfold Recorded
  rw [occurs_snoc, h]
  simp

/-- A row that has been deleted is not lost any more. -/
theorem FanOutHistory.stays (h : FanOutHistory sid clientId start trace cfg)
    {k : Option c.Reply → Handler Response} (hcall : cfg.requests i = .call c k)
    (hgiven : GivenBack sid clientId start trace) :
    GivenBack sid clientId start (trace ++ [⟨cfg, .act i w, cfg'⟩]) := by
  obtain ⟨hrecorded, hdeleted, hlost⟩ := hgiven
  refine ⟨(recorded_same rfl).mpr hrecorded, (occurs_act hcall).mpr (.inl hdeleted), ?_⟩
  intro hnow
  rcases (occurs_act hcall).mp hnow with hbefore | hnow
  · exact hlost hbefore
  · have hnone := h.deleted hdeleted
    have hdeletes : c.deletesRow cfg.store sid = true := by
      simp only [Bool.and_eq_true] at hnow
      exact hnow.1.2
    cases c with
    | deleteSessions filter =>
      rw [clientsOf, Option.map_eq_none_iff] at hnone
      rw [Command.deletesRow, hnone] at hdeletes
      cases hdeletes
    | _ => cases hdeletes

omit [DecidableEq ι] in
theorem deleted_of_lost (h : Occurs (rowLost sid) trace) : Occurs (rowDeleted sid) trace := by
  obtain ⟨e, he, hlost⟩ := h
  refine ⟨e, he, ?_⟩
  unfold rowLost stepIs at hlost
  unfold rowDeleted stepIs
  split at hlost
  · split at hlost
    · exact ((Bool.and_eq_true _ _).mp hlost).1
    · cases hlost
    · cases hlost
  · cases hlost

omit [DecidableEq ι] in
theorem clients_of_deletesRow (h : c.deletesRow s sid = true) :
    ∃ clients, clientsOf s sid = some clients := by
  cases c with
  | deleteSessions filter =>
    obtain ⟨row, hrow, -⟩ := (Option.any_eq_true ..).mp h
    exact ⟨row.clients, by rw [clientsOf, hrow]; rfl⟩
  | _ => cases h

/-- Whoever tries to enqueue the logout has it before it. -/
theorem waiting_of_tells (hok : (fanOutPhases log i).Allows c)
    (h : c.tells sid clientId = true) : Waiting (fanOutPhases log) clientId sid := by
  cases c with
  | enqueueLogout clientId' sub text =>
    obtain ⟨rest, hrest⟩ := hok
    obtain ⟨rfl, rfl⟩ := of_decide_eq_true h
    exact ⟨i, _, sub, hrest, List.mem_cons_self⟩
  | _ => cases h

/-- The deletion that a step makes is the first, and puts the logout before the request. -/
theorem FanOutHistory.tried_act (h : FanOutHistory sid clientId start trace cfg)
    {k : Option c.Reply → Handler Response} (hcall : cfg.requests i = .call c k)
    (hok : (fanOutPhases cfg.log i).Allows c)
    (hgiven : GivenBack sid clientId start (trace ++ [⟨cfg, .act i w, cfg'⟩])) :
    Waiting (fanOutPhases (afterCommand P w cfg.store cfg.log i c)) clientId sid ∨
      Occurs (logoutTried sid clientId) (trace ++ [⟨cfg, .act i w, cfg'⟩]) := by
  obtain ⟨hrecorded, hdeleted, hlost⟩ := hgiven
  have hbefore : ¬ Occurs (rowLost sid) trace := fun hold =>
    hlost ((occurs_act hcall).mpr (.inl hold))
  rw [recorded_same rfl] at hrecorded
  rcases (occurs_act hcall).mp hdeleted with hold | hnow
  · rcases h.tried ⟨hrecorded, hold, hbefore⟩ with hwaiting | htried
    · rcases waiting_act (P := P) (w := w) (s := cfg.store) hok hwaiting with hstill | htells
      · exact .inl hstill
      · exact .inr ((occurs_act hcall).mpr (.inr htells))
    · exact .inr ((occurs_act hcall).mpr (.inl htried))
  · left
    have hfound : decide (w.1 = .answered) && c.spells sid := by
      by_contra hnot
      refine hlost ((occurs_act hcall).mpr (.inr ?_))
      rw [hnow, Bool.eq_false_iff.mpr hnot]
      rfl
    simp only [Bool.and_eq_true, decide_eq_true_eq] at hnow hfound
    obtain ⟨clients, hclients⟩ := clients_of_deletesRow hnow.2
    exact waiting_of_row hok hfound.1 hnow.2 hfound.2
      ⟨clients, hclients, (h.listed clients hclients).mpr hrecorded⟩

theorem FanOutHistory.waiting_now (h : FanOutHistory sid clientId start trace cfg)
    {k : Option c.Reply → Handler Response} (hcall : cfg.requests i = .call c k)
    (hok : (fanOutPhases cfg.log i).Allows c)
    (hwaiting : Waiting (fanOutPhases (afterCommand P w cfg.store cfg.log i c)) clientId sid) :
    GivenBack sid clientId start (trace ++ [⟨cfg, .act i w, cfg'⟩]) := by
  rcases waiting_before hok hwaiting with
    hold | ⟨hanswered, hdeletes, hspells, clients, hclients, hclient⟩
  · exact h.stays hcall (h.waiting hold)
  · refine ⟨(recorded_same rfl).mpr ((h.listed clients hclients).mp hclient),
      (occurs_act hcall).mpr (.inr (by simp [hanswered, hdeletes])), fun hlost => ?_⟩
    rcases (occurs_act hcall).mp hlost with hold | hnow
    · have hnone := h.deleted (deleted_of_lost hold)
      rw [hclients] at hnone
      cases hnone
    · simp [hanswered, hspells] at hnow

theorem FanOutHistory.act (h : FanOutHistory sid clientId start trace cfg)
    (hstep : (ssoServer P).faulty.step cfg (.act i w) = some cfg') :
    FanOutHistory sid clientId start (trace ++ [⟨cfg, .act i w, cfg'⟩]) cfg' := by
  have hobeys := Server.obeys_step (P := fun _ => fanOutProtocol) hstep h.obeys
  obtain ⟨c, k, hcall, hcfg⟩ := Server.step_act hstep
  have hobey := h.obeys i
  rw [hcall] at hobey
  have hok : (fanOutPhases cfg.log i).Allows c := hobey.1
  have hstore : cfg'.store = ((ssoServer P).faulty.perform w c cfg.store).2 := by rw [hcfg]; rfl
  have hlog : cfg'.log = afterCommand P w cfg.store cfg.log i c := by rw [hcfg]; rfl
  refine ⟨hobeys, ?_, ?_, ?_, ?_, ?_, ?_, ?_, ?_⟩
  · intro j hphase
    rw [hlog] at hphase
    rcases recorded_act hok hphase with hold | hnow
    · exact (occurs_act hcall).mpr (.inl (h.issued j hold))
    · exact (occurs_act hcall).mpr (.inr hnow)
  · intro clients hclients
    rw [hstore, clientsOf_act hok] at hclients
    split at hclients
    · cases hclients
    · rw [recorded_same rfl]
      exact h.listed clients hclients
  · intro hnone hrecorded
    rw [hstore, clientsOf_act hok] at hnone
    rw [recorded_same rfl] at hrecorded
    split at hnone
    · next hdeletes => exact (occurs_act hcall).mpr (.inr hdeletes)
    · exact (occurs_act hcall).mpr (.inl (h.gone hnone hrecorded))
  · intro hdeleted
    rw [hstore, clientsOf_act hok]
    rcases (occurs_act hcall).mp hdeleted with hold | hnow
    · rw [h.deleted hold, ite_self]
    · rw [if_pos hnow]
  · intro hwaiting
    rw [hlog] at hwaiting
    exact h.waiting_now hcall hok hwaiting
  · intro hgiven
    rw [hlog]
    exact h.tried_act hcall hok hgiven
  · rw [hstore, told_act hok, h.told, logoutEnqueued, occurs_act hcall, or_assoc]
  · intro henqueued
    rcases (occurs_act hcall).mp henqueued with hold | hnow
    · exact h.stays hcall (h.enqueued hold)
    · simp only [Bool.and_eq_true] at hnow
      exact h.stays hcall (h.waiting (waiting_of_tells hok hnow.2.1))

/-- What the append does to a row that is there. -/
theorem FanOutHistory.listed_settle (h : FanOutHistory sid clientId start trace cfg)
    {a : PendingAppend} {index : ℕ} (ha : cfg.store.unawaited[index]? = some a)
    {clients : List ClientId}
    (hclients : clientsOf (cfg.store.executeAppend a) sid = some clients) :
    clientId ∈ clients ↔ Recorded sid clientId start
      (trace ++ [⟨cfg, .drift (.settle index true), cfg'⟩]) := by
  rw [clientsOf_append] at hclients
  obtain ⟨old, hold, rfl⟩ := Option.map_eq_some_iff.mp hclients
  have hbefore := h.listed old hold
  have hnow : appendExecuted sid clientId cfg (.drift (.settle index true) : LogoutMove ι) = true ↔
      a = ⟨sid, clientId⟩ := by
    simp [appendExecuted, ha, hold]
  unfold Recorded at hbefore ⊢
  rw [occurs_snoc, hnow, ← or_assoc, ← hbefore]
  obtain ⟨sid', clientId'⟩ := a
  by_cases hsame : sid = sid'
  · subst hsame
    by_cases hclient : clientId' ∈ old
    · simp only [hclient, not_true_eq_false, and_false, if_false, PendingAppend.mk.injEq, true_and]
      exact ⟨.inl, fun h => h.elim id fun heq => heq ▸ hclient⟩
    · simp [hclient, eq_comm]
  · simp [hsame, Ne.symm hsame]

omit [DecidableEq ι] in
theorem Recorded.later {m : LogoutMove ι} (h : Recorded sid clientId start trace) :
    Recorded sid clientId start (trace ++ [⟨cfg, m, cfg'⟩]) := by
  rcases h with hstart | hexecuted
  · exact .inl hstart
  · exact .inr (occurs_snoc.mpr (.inl hexecuted))

omit [DecidableEq ι] in
/-- Nobody is recorded under a session that is gone. -/
theorem Recorded.before {m : LogoutMove ι}
    (h : Recorded sid clientId start (trace ++ [⟨cfg, m, cfg'⟩]))
    (hnone : clientsOf cfg.store sid = none) : Recorded sid clientId start trace := by
  refine (recorded_same ?_).mp h
  unfold appendExecuted
  split
  · rw [hnone]
    simp
  · rfl

/-- A step of no request: what matters is what becomes of the clients. -/
theorem FanOutHistory.outside (h : FanOutHistory sid clientId start trace cfg) {e : Sso.Drift}
    {s' : Sso} (hbox : s'.db.eventOutbox = cfg.store.db.eventOutbox)
    (hgone : clientsOf s' sid = none ↔ clientsOf cfg.store sid = none)
    (hlisted : ∀ clients, clientsOf s' sid = some clients → (clientId ∈ clients ↔
      Recorded sid clientId start (trace ++ [⟨cfg, .drift e, { cfg with store := s' }⟩]))) :
    FanOutHistory sid clientId start (trace ++ [⟨cfg, .drift e, { cfg with store := s' }⟩])
      { cfg with store := s' } := by
  refine ⟨h.obeys, ?_, hlisted, ?_, ?_, ?_, ?_, ?_, ?_⟩
  · exact fun j hphase => occurs_drift.mpr (h.issued j hphase)
  · intro hnone hrecorded
    have hbefore := hgone.mp hnone
    exact occurs_drift.mpr (h.gone hbefore (hrecorded.before hbefore))
  · exact fun hdeleted => hgone.mpr (h.deleted (occurs_drift.mp hdeleted))
  · intro hwaiting
    obtain ⟨hrecorded, hdeleted, hlost⟩ := h.waiting hwaiting
    exact ⟨hrecorded.later, occurs_drift.mpr hdeleted, fun hnow => hlost (occurs_drift.mp hnow)⟩
  · rintro ⟨hrecorded, hdeleted, hlost⟩
    have hbefore := occurs_drift.mp hdeleted
    refine (h.tried ⟨hrecorded.before (h.deleted hbefore), hbefore, fun hold => ?_⟩).imp id
      occurs_drift.mpr
    exact hlost (occurs_drift.mpr hold)
  · rw [told_same hbox, h.told, logoutEnqueued, occurs_drift]
  · intro henqueued
    obtain ⟨hrecorded, hdeleted, hlost⟩ := h.enqueued (occurs_drift.mp henqueued)
    exact ⟨hrecorded.later, occurs_drift.mpr hdeleted, fun hnow => hlost (occurs_drift.mp hnow)⟩

theorem FanOutHistory.drift (h : FanOutHistory sid clientId start trace cfg) {e : Sso.Drift}
    (hstep : (ssoServer P).faulty.step cfg (.drift e) = some cfg') :
    FanOutHistory sid clientId start (trace ++ [⟨cfg, .drift e, cfg'⟩]) cfg' := by
  obtain ⟨s', hdrift, rfl⟩ := Server.step_drift hstep
  change Sso.drift e cfg.store = some s' at hdrift
  cases e with
  | tick elapsed =>
    obtain rfl := Option.some.inj hdrift
    refine h.outside rfl Iff.rfl fun clients hclients => ?_
    rw [recorded_same rfl]
    exact h.listed clients hclients
  | settle index succeeds =>
    simp only [Sso.drift] at hdrift
    split at hdrift
    · cases hdrift
    · next a ha =>
      obtain rfl := Option.some.inj hdrift
      cases succeeds with
      | false =>
        refine h.outside rfl Iff.rfl fun clients hclients => ?_
        rw [recorded_same rfl]
        exact h.listed clients hclients
      | true =>
        refine h.outside rfl ?_ fun clients hclients => h.listed_settle ha hclients
        show clientsOf (cfg.store.executeAppend a) sid = none ↔ _
        rw [clientsOf_append, Option.map_eq_none_iff]

end Step

theorem FanOutHistory.run {start cfg : LogoutConfig ι} {trace : List (LogoutEvent ι)}
    (hstart : (logoutRuns P calls).initial start)
    (hrun : Exec (logoutRuns P calls) start trace cfg) :
    FanOutHistory sid clientId start.store trace cfg := by
  refine Exec.history (FanOutHistory sid clientId start.store) (.initial hstart) ?_ hrun
  intro trace cfg m cfg' _ h hstep
  cases m with
  | act i w => exact h.act hstep
  | drift e => exact h.drift hstep

/-- No request is going on and no statement is pending. -/
def AllEnded (cfg : LogoutConfig ι) : Prop :=
  (∀ i, (cfg.requests i).ended = true) ∧ cfg.store.unawaited = []

/-- A request that has ended has no logout before it. -/
theorem FanOutHistory.not_waiting {start : Sso} {trace : List (LogoutEvent ι)}
    {cfg : LogoutConfig ι} (h : FanOutHistory sid clientId start trace cfg)
    (hended : AllEnded cfg) : ¬ Waiting (fanOutPhases cfg.log) clientId sid := by
  rintro ⟨j, todo, sub, hphase, htodo⟩
  have hsettled : (fanOutPhases cfg.log j).Settled := by
    have hobey := h.obeys j
    have hend := hended.1 j
    cases hprogram : cfg.requests j with
    | done a =>
      rw [hprogram] at hobey
      exact hobey.1
    | thrown =>
      rw [hprogram] at hobey
      exact hobey.1
    | call c k =>
      rw [hprogram] at hend
      cases hend
  cases todo with
  | nil => cases htodo
  | cons x rest => exact hsettled x rest hphase

/-- A client that holds an ID token of a session that is gone has been told so when everything has
come to its end, exactly if nothing went wrong that its logout depends on. -/
theorem logout_fan_out (P : Primitives) (calls : ι → LogoutCall) {start cfg : LogoutConfig ι}
    {trace : List (LogoutEvent ι)} (hstart : (logoutRuns P calls).initial start)
    (hrun : Exec (logoutRuns P calls) start trace cfg) (hended : AllEnded cfg) (i : ι)
    (idToken : IdToken) (accessToken : AccessToken)
    (htokens : cfg.requests i = .done (.tokens idToken accessToken))
    (hgone : cfg.store.sessions.find? idToken.sid = none) :
    Told cfg.store idToken.clientId idToken.sid ↔
      Told start.store idToken.clientId idToken.sid ∨
        FanOutHolds idToken.sid idToken.clientId start.store trace := by
  have hhistory : FanOutHistory idToken.sid idToken.clientId start.store trace cfg :=
    .run hstart hrun
  rw [hhistory.told]
  refine or_congr_right ⟨fun henqueued => ?_, fun hholds => ?_⟩
  · obtain ⟨hrecorded, -, hlost⟩ := hhistory.enqueued henqueued
    exact ⟨fun _ => hrecorded, hlost, fun _ => henqueued⟩
  · have hpost := hhistory.obeys i
    rw [htokens] at hpost
    have hrecorded := hholds.recorded (hhistory.issued i (hpost.2 idToken accessToken rfl))
    have hnone : clientsOf cfg.store idToken.sid = none := by
      rw [clientsOf, hgone]
      rfl
    have hdeleted := hhistory.gone hnone hrecorded
    rcases hhistory.tried ⟨hrecorded, hdeleted, hholds.answered⟩ with hwaiting | htried
    · exact (hhistory.not_waiting hended hwaiting).elim
    · exact hholds.enqueued htried

end Runs

section Interleaved

instance {ι : Type} (sid : Uuid) (clientId : ClientId) (start : Sso)
    (trace : List (LogoutEvent ι)) : Decidable (FanOutHolds sid clientId start trace) :=
  decidable_of_iff
    ((Occurs (appendIssued sid clientId) trace → clientId ∈ (clientsOf start sid).getD [] ∨
        Occurs (appendExecuted sid clientId) trace) ∧ ¬ Occurs (rowLost sid) trace ∧
      (Occurs (logoutTried sid clientId) trace → Occurs (logoutEnqueued sid clientId) trace))
    ⟨fun h => ⟨h.1, h.2.1, h.2.2⟩, fun h => ⟨h.recorded, h.answered, h.enqueued⟩⟩

def aliceSid : Uuid where
  text := js "0b5c2a9e-0000-4000-8000-000000000000"
  shape := by decide

def aliceSession : SessionRow where
  userSub := Uuid.numbered 1
  tokenHash := js "hash"
  amr := [js "pwd"]
  acr := none
  authTime := 0
  lastSeen := 0
  createdAt := 0
  persistent := false
  stepupAt := none
  stepupMethod := none
  clients := []

/-- The session and a code of it. -/
def codeAndSessionSso : Sso :=
  { oneCodeSso with
    redis := ExpiringStore.setEx (fun _ => none) (.code (js "code"))
      { clientId := js "app", redirectUri := js "/cb", userSub := Uuid.numbered 1
        sid := aliceSid, codeChallenge := js "v", codeChallengeMethod := js "S256"
        nonce := none, scope := js "openid", amr := [js "pwd"], acr := none, authTime := 0 } 60000
    sessions := (∅ : Table _ _).upsert aliceSid aliceSession }

/-- One request redeems the code, the other ends the session that a text names. -/
def tokenAndTerminate (sid : JsString) : Bool → LogoutCall
  | false => .token oneCodeBody
  | true => .terminate (Uuid.numbered 1) sid

def tokenAndTerminateStart (sid : JsString) : LogoutConfig Bool :=
  ⟨codeAndSessionSso, [], fun i => (tokenAndTerminate sid i).program plainPrimitives⟩

def tokenAndTerminateEvents (sid : JsString) (moves : List (LogoutMove Bool)) :
    List (LogoutEvent Bool) :=
  eventsOf (ssoServer plainPrimitives).faulty.step (tokenAndTerminateStart sid) moves

/-- Both requests have come to their end, and the session of the tokens is gone. -/
def tokensOutlive (cfg : LogoutConfig Bool) : Bool :=
  (cfg.requests true).ended && cfg.store.unawaited.isEmpty &&
    match cfg.requests false with
    | .done (.tokens idToken _) => decide (idToken.sid = aliceSid) &&
        decide (idToken.clientId = js "app") && !cfg.store.sessions.contains idToken.sid
    | _ => false

theorem exists_outlived {cfg : LogoutConfig Bool} (h : tokensOutlive cfg = true) :
    AllEnded cfg ∧ ∃ idToken accessToken,
      cfg.requests false = .done (.tokens idToken accessToken) ∧
      idToken.sid = aliceSid ∧ idToken.clientId = js "app" ∧
      cfg.store.sessions.find? idToken.sid = none := by
  unfold tokensOutlive at h
  rw [Bool.and_eq_true, Bool.and_eq_true] at h
  obtain ⟨⟨hended, hsettled⟩, htokens⟩ := h
  split at htokens
  · next idToken accessToken hdone =>
    rw [Bool.and_eq_true, Bool.and_eq_true] at htokens
    obtain ⟨⟨hsid, hclient⟩, hgone⟩ := htokens
    refine ⟨⟨fun i => ?_, List.isEmpty_iff.mp hsettled⟩, idToken, accessToken, hdone,
      of_decide_eq_true hsid, of_decide_eq_true hclient, ?_⟩
    · cases i with
      | false =>
        rw [hdone]
        rfl
      | true => exact hended
    · have hnone : (cfg.store.sessions.find? idToken.sid).isSome = false :=
        (Bool.not_eq_true' _).mp hgone
      exact Option.isNone_iff_eq_none.mp (Option.isSome_eq_false_iff.mp hnone)
  · cases htokens

/-- The first statement nobody waits for comes to its end. -/
def settleFirst (succeeds : Bool) : LogoutMove Bool := .drift (.settle 0 succeeds)

def terminateStep (outcome : Interleaving.Outcome) : LogoutMove Bool :=
  .act true (outcome, agreeable)

/-- The code is redeemed, the append executed, and then the session ended. -/
def oneAfterAnother : List (LogoutMove Bool) :=
  tokenSteps (List.replicate 14 false) ++ [settleFirst true] ++ tokenSteps (List.replicate 3 true)

theorem logout_fan_out_oneAfterAnother :
    ∃ start trace cfg,
      (logoutRuns plainPrimitives (tokenAndTerminate aliceSid.text)).initial start ∧
      Exec (logoutRuns plainPrimitives (tokenAndTerminate aliceSid.text)) start trace cfg ∧
      AllEnded cfg ∧ ∃ idToken accessToken,
        cfg.requests false = .done (.tokens idToken accessToken) ∧
        cfg.store.sessions.find? idToken.sid = none ∧
        ¬ Told start.store idToken.clientId idToken.sid ∧
        Told cfg.store idToken.clientId idToken.sid := by
  have hrun : (oneAfterAnother.foldlM (ssoServer plainPrimitives).faulty.step
      (tokenAndTerminateStart aliceSid.text)).any tokensOutlive = true := by
    decide +kernel
  have hholds : FanOutHolds aliceSid (js "app") codeAndSessionSso
      (tokenAndTerminateEvents aliceSid.text oneAfterAnother) := by
    decide +kernel
  obtain ⟨cfg, hcfg, houtlive⟩ := (Option.any_eq_true ..).mp hrun
  have hexec : Exec (logoutRuns plainPrimitives (tokenAndTerminate aliceSid.text)) _ _ cfg :=
    exec_eventsOf (fun _ _ _ hstep => hstep) oneAfterAnother hcfg
  obtain ⟨hended, idToken, accessToken, htokens, hsid, hclient, hgone⟩ := exists_outlived houtlive
  have hinitial : (logoutRuns plainPrimitives (tokenAndTerminate aliceSid.text)).initial
      (tokenAndTerminateStart aliceSid.text) := ⟨trivial, rfl, rfl⟩
  have hmet : FanOutHolds idToken.sid idToken.clientId codeAndSessionSso
      (tokenAndTerminateEvents aliceSid.text oneAfterAnother) := by
    rw [hsid, hclient]
    exact hholds
  refine ⟨_, _, cfg, hinitial, hexec, hended, idToken, accessToken, htokens, hgone, ?_,
    (logout_fan_out plainPrimitives (tokenAndTerminate aliceSid.text) hinitial hexec hended false
      idToken accessToken htokens hgone).mpr (.inr hmet)⟩
  rintro ⟨sub, event, -, -, row, hrow, -⟩
  cases hrow

/-- The ways in which nobody is told. Two of them need no failure: the session is ended before
the code is redeemed, or its id stands in the URL in capitals. In the others the append fails,
the enqueue is refused, the deletion is executed without an answer. -/
def undelivered : List (JsString × List (LogoutMove Bool)) :=
  let token := tokenSteps (List.replicate 14 false)
  let ended := [terminateStep .answered, terminateStep .answered]
  [(aliceSid.text, ended ++ tokenSteps (List.replicate 11 false) ++ [settleFirst true]),
    (js "0B5C2A9E-0000-4000-8000-000000000000",
      token ++ [settleFirst true] ++ ended ++ [terminateStep .answered]),
    (aliceSid.text, token ++ [settleFirst false] ++ ended),
    (aliceSid.text, token ++ [settleFirst true] ++ ended ++ [terminateStep .refused]),
    (aliceSid.text, token ++ [settleFirst true, terminateStep .answered, terminateStep .lost])]

/-- The moves are a run in which the token outlives its session and its client is never told. -/
def NobodyTold (sid : JsString) (moves : List (LogoutMove Bool)) : Prop :=
  ∃ cfg, (logoutRuns plainPrimitives (tokenAndTerminate sid)).initial (tokenAndTerminateStart sid) ∧
    moves.foldlM (ssoServer plainPrimitives).faulty.step (tokenAndTerminateStart sid) = some cfg ∧
    Exec (logoutRuns plainPrimitives (tokenAndTerminate sid)) (tokenAndTerminateStart sid)
      (tokenAndTerminateEvents sid moves) cfg ∧
    AllEnded cfg ∧ ∃ idToken accessToken,
      cfg.requests false = .done (.tokens idToken accessToken) ∧
      cfg.store.sessions.find? idToken.sid = none ∧
      ¬ Told cfg.store idToken.clientId idToken.sid

theorem logout_undelivered : undelivered.Forall fun way => NobodyTold way.1 way.2 := by
  refine List.forall_iff_forall_mem.mpr ?_
  rintro ⟨sid, moves⟩ hway
  have hruns : (undelivered.all fun way => (way.2.foldlM (ssoServer plainPrimitives).faulty.step
      (tokenAndTerminateStart way.1)).any tokensOutlive &&
        !decide (Occurs (logoutEnqueued aliceSid (js "app"))
          (tokenAndTerminateEvents way.1 way.2))) = true := by
    decide +kernel
  obtain ⟨houtlive, hnever⟩ := (Bool.and_eq_true _ _).mp (List.all_eq_true.mp hruns _ hway)
  obtain ⟨cfg, hcfg, houtlive⟩ := (Option.any_eq_true ..).mp houtlive
  have hinitial : (logoutRuns plainPrimitives (tokenAndTerminate sid)).initial
      (tokenAndTerminateStart sid) := ⟨trivial, rfl, rfl⟩
  have hexec : Exec (logoutRuns plainPrimitives (tokenAndTerminate sid))
      (tokenAndTerminateStart sid) (tokenAndTerminateEvents sid moves) cfg :=
    exec_eventsOf (fun _ _ _ hstep => hstep) moves hcfg
  obtain ⟨hended, idToken, accessToken, htokens, hsid, hclient, hgone⟩ := exists_outlived houtlive
  refine ⟨cfg, hinitial, hcfg, hexec, hended, idToken, accessToken, htokens, hgone, fun htold => ?_⟩
  have hhistory : FanOutHistory idToken.sid idToken.clientId _
      (tokenAndTerminateEvents sid moves) cfg := .run hinitial hexec
  rcases hhistory.told.mp htold with ⟨sub, event, -, -, row, hrow, -⟩ | hnow
  · cases hrow
  · rw [hsid, hclient] at hnow
    simp only [Bool.not_eq_true', decide_eq_false_iff_not] at hnever
    exact hnever hnow

end Interleaved

end DreamSso
