import DreamSso.SessionReports
import DreamSso.Library.GuardedRuns

/-!
Reports never take the last use of a session back, nor ahead of the time, so a session is
live no longer than its idle window past its last use. A verdict is sound when the client
is recorded under the session before it reports it; the token route records it without
waiting.
-/
namespace DreamSso.Activity

open Interleaving JsStrings KeyedTables Transitions

section Frames

variable {P : Primitives} {out : Outside} {s s' : Sso}

def createsSession : Command → Bool
  | .insertSession _ => true
  | _ => false

/-- What a step that is no use of a session does to it. -/
def Kept (s s' : Sso) (sid : Uuid) : Prop :=
  ∀ r', s'.sessions.find? sid = some r' → ∃ r, s.sessions.find? sid = some r ∧
    r'.createdAt = r.createdAt ∧ r.clients ⊆ r'.clients ∧ r'.lastSeen = r.lastSeen

/-- What its use does. -/
def Used (s s' : Sso) (sid : Uuid) : Prop :=
  ∀ r', s'.sessions.find? sid = some r' → ∃ r, s.sessions.find? sid = some r ∧
    r'.createdAt = r.createdAt ∧ r.clients ⊆ r'.clients ∧ r'.lastSeen ≤ max r.lastSeen s.clock ∧
    (r.lastSeen ≤ s.clock → r.lastSeen ≤ r'.lastSeen)

theorem Kept.refl (s : Sso) (sid : Uuid) : Kept s s sid :=
  fun r h => ⟨r, h, rfl, List.Subset.refl _, rfl⟩

theorem Kept.of_sessions (h : s'.sessions = s.sessions) (sid : Uuid) : Kept s s' sid := by
  intro r hr
  rw [h] at hr
  exact ⟨r, hr, rfl, List.Subset.refl _, rfl⟩

theorem Kept.used {sid : Uuid} (h : Kept s s' sid) : Used s s' sid := by
  intro r' hr'
  obtain ⟨r, hr, hcreated, hclients, hseen⟩ := h r' hr'
  exact ⟨r, hr, hcreated, hclients, hseen ▸ le_max_left _ _, fun _ => hseen ▸ le_rfl⟩

theorem kept_of_update {p : Uuid → SessionRow → Bool} {f : Uuid → SessionRow → SessionRow}
    (h : s'.sessions = s.sessions.updateWhere p f)
    (hf : ∀ k r, (f k r).createdAt = r.createdAt ∧ r.clients ⊆ (f k r).clients ∧
      (f k r).lastSeen = r.lastSeen) (sid : Uuid) : Kept s s' sid := by
  intro r' hr'
  rw [h, Table.find?_updateWhere] at hr'
  obtain ⟨r, hr, hrow⟩ := Option.map_eq_some_iff.mp hr'
  refine ⟨r, hr, ?_⟩
  rw [← hrow]
  split_ifs
  · exact hf sid r
  · exact ⟨rfl, List.Subset.refl _, rfl⟩

theorem updateSession_kept {f : SessionRow → SessionRow}
    (hf : ∀ r, (f r).createdAt = r.createdAt ∧ r.clients ⊆ (f r).clients ∧
      (f r).lastSeen = r.lastSeen) (sid' sid : Uuid) : Kept s (s.updateSession sid' f) sid :=
  kept_of_update (p := fun k _ => decide (k = sid')) (f := fun _ => f) rfl (fun _ => hf) sid

theorem executeAppend_kept (a : PendingAppend) (sid : Uuid) : Kept s (s.executeAppend a) sid :=
  kept_of_update (p := fun k r => decide (k = a.sid) && !decide (a.clientId ∈ r.clients))
    (f := fun _ r => { r with clients := r.clients ++ [a.clientId] }) rfl
    (fun _ _ => ⟨rfl, List.subset_append_left _ _, rfl⟩) sid

theorem perform_kept {c : Command} (hc : createsSession c = false) (sid : Uuid) :
    Kept s (Sso.perform P out c s).2 sid := by
  cases c with
  | insertSession session => cases hc
  | updateProfile sub changes =>
    apply Kept.of_sessions
    simp only [Sso.perform, Sso.updateProfile]
    split_ifs <;> rfl
  | persistSession sid' tokenHash =>
    simp only [Sso.perform]
    split_ifs
    · refine updateSession_kept ?_ sid' sid
      exact fun r => ⟨rfl, List.Subset.refl _, rfl⟩
    · exact Kept.refl s sid
  | stampStepup sid' method =>
    refine updateSession_kept ?_ sid' sid
    exact fun r => ⟨rfl, List.Subset.refl _, rfl⟩
  | deleteSessions filter =>
    intro r' hr'
    have hkept : (s.sessions.deleteWhere filter.names).find? sid = some r' := hr'
    rw [Table.find?_deleteWhere, Option.filter_eq_some_iff] at hkept
    exact ⟨r', hkept.1, rfl, List.Subset.refl _, rfl⟩
  | enqueueLogout clientId sub sid' =>
    apply Kept.of_sessions
    simp only [Sso.perform, Sso.enqueueLogout]
    split <;> rfl
  | _ => exact Kept.of_sessions rfl sid

theorem settle_kept {e : Sso.Drift} (h : Sso.drift e s = some s') (sid : Uuid) : Kept s s' sid := by
  cases e with
  | tick ms =>
    cases h
    exact Kept.of_sessions rfl sid
  | settle index succeeds =>
    simp only [Sso.drift] at h
    split at h
    · cases h
    · cases h
      cases succeeds with
      | false => exact Kept.of_sessions rfl sid
      | true => exact executeAppend_kept (s := { s with unawaited := _ }) _ sid

theorem bump_lastSeen (reported clock : ℤ) (r : SessionRow) :
    r.lastSeen ≤ (bump reported clock r).lastSeen ∧
      (bump reported clock r).lastSeen ≤ max r.lastSeen clock := by
  refine ⟨le_max_left _ _, max_le (le_max_left _ _) ?_⟩
  exact (min_le_right _ _).trans (le_max_right _ _)

theorem report_used (r : Report) (sid : Uuid) : Used s (reportActivity s r).2 sid := by
  unfold reportActivity
  split_ifs
  · cases toTimestamp r.seconds with
    | none => exact (Kept.refl s sid).used
    | some reported =>
      intro r' hr'
      have hupdated : (s.sessions.updateWhere (r.names s) fun _ => bump reported s.clock).find? sid =
          some r' := hr'
      rw [Table.find?_updateWhere] at hupdated
      obtain ⟨row, hrow, heq⟩ := Option.map_eq_some_iff.mp hupdated
      refine ⟨row, hrow, ?_⟩
      rw [← heq]
      obtain ⟨hup, hdown⟩ := bump_lastSeen reported s.clock row
      split_ifs
      · exact ⟨rfl, List.Subset.refl _, hdown, fun _ => hup⟩
      · exact ⟨rfl, List.Subset.refl _, le_max_left _ _, fun _ => le_rfl⟩
  · exact (Kept.refl s sid).used

/-- A report leaves every session alone that its statement does not reach. -/
theorem report_kept (r : Report) {sid : Uuid}
    (h : ∀ row, s.sessions.find? sid = some row → r.names s sid row = false) :
    Kept s (reportActivity s r).2 sid := by
  unfold reportActivity
  split_ifs
  · cases toTimestamp r.seconds with
    | none => exact Kept.refl s sid
    | some reported =>
      intro r' hr'
      have hupdated : (s.sessions.updateWhere (r.names s) fun _ => bump reported s.clock).find? sid =
          some r' := hr'
      rw [Table.find?_updateWhere] at hupdated
      obtain ⟨row, hrow, heq⟩ := Option.map_eq_some_iff.mp hupdated
      rw [h row hrow, if_neg Bool.false_ne_true] at heq
      exact ⟨row, hrow, heq ▸ rfl, heq ▸ List.Subset.refl _, heq ▸ rfl⟩
  · exact Kept.refl s sid

theorem touch_used (sid sid' : Uuid) : Used s (touchSession s sid') sid := by
  intro r' hr'
  have hupdated : (s.sessions.updateWhere (fun k _ => decide (k = sid')) fun _ row =>
      { row with lastSeen := s.clock }).find? sid = some r' := hr'
  rw [Table.find?_updateWhere] at hupdated
  obtain ⟨row, hrow, heq⟩ := Option.map_eq_some_iff.mp hupdated
  refine ⟨row, hrow, ?_⟩
  rw [← heq]
  split_ifs
  · exact ⟨rfl, List.Subset.refl _, le_max_right _ _, id⟩
  · exact ⟨rfl, List.Subset.refl _, le_max_left _ _, fun _ => le_rfl⟩

theorem touch_kept {sid sid' : Uuid} (h : sid ≠ sid') : Kept s (touchSession s sid') sid := by
  intro r' hr'
  have hupdated : (s.sessions.updateWhere (fun k _ => decide (k = sid')) fun _ row =>
      { row with lastSeen := s.clock }).find? sid = some r' := hr'
  rw [Table.find?_updateWhere] at hupdated
  obtain ⟨row, hrow, heq⟩ := Option.map_eq_some_iff.mp hupdated
  rw [decide_eq_false h, if_neg Bool.false_ne_true] at heq
  exact ⟨row, hrow, heq ▸ rfl, heq ▸ List.Subset.refl _, heq ▸ rfl⟩

end Frames

section Requests

/-- A redemption, a report, or a request that opens no session. -/
inductive ActivityCall
  | token (b : TokenBody)
  | report (b : ActivityBody)
  | other (p : { p : Handler Response // p.Only fun c => createsSession c = false })

def respond (p : Handler Response) : ActivityHandler Answer := do
  let r ← sso p
  pure (.response r)

def ActivityCall.program (P : Primitives) : ActivityCall → ActivityHandler Answer
  | .token b => respond (postToken P b)
  | .report b => postSessionActivity P b
  | .other p => respond p.val

/-- A redemption has issued the append to the clients of the session; a report has read its
windows and the time; or its update has found no row. -/
inductive ActivityPhase
  | before
  | recorded (sid : Uuid) (clientId : ClientId)
  | timed (now : ℤ)
  | denied (r : Report)

def recordNext : ActivityPhase → (c : Command) → Option c.Reply → ActivityPhase
  | _, .appendClient sid clientId, _ => .recorded sid clientId
  | g, _, _ => g

def reportNext : ActivityPhase → (c : ActivityCommand) → Option c.Reply → ActivityPhase
  | .denied r, _, _ => .denied r
  | _, .sso .dateNow, some now => .timed now
  | _, .report r, some false => .denied r
  | g, _, _ => g

def activityNext : ActivityCall → ActivityPhase → (c : ActivityCommand) → Option c.Reply →
    ActivityPhase
  | .token _, g, .sso c, r => recordNext g c r
  | .report _, g, c, r => reportNext g c r
  | _, g, _, _ => g

/-- Reports read tables and issue their update with the time they have read; the other
requests issue no update and open no session. -/
def activityOk : ActivityCall → ActivityPhase → ActivityCommand → Prop
  | .report _, _, .sso c => c.plain = true
  | .report _, g, .report r => g = .timed r.computedAt
  | _, _, .sso c => createsSession c = false
  | _, _, .report _ => False

def activityProtocol (call : ActivityCall) :
    Protocol ActivityCommand ActivityCommand.Reply ActivityPhase where
  next := activityNext call
  ok := activityOk call

/-- An id token is issued behind the append, a verdict behind the update. -/
def activityPost : ActivityCall → ActivityPhase → Option Answer → Prop
  | .token _, g, some (.response (.tokens idToken _)) =>
    g = .recorded idToken.sid idToken.clientId
  | .report _, g, some (.gone verdict) =>
    ∃ r, g = .denied r ∧ r.clientId = verdict.clientId ∧ Uuid.parse? verdict.sid = some r.sid
  | _, _, some (.gone _) => False
  | _, _, _ => True

theorem createsSession_plain {c : Command} (h : c.plain = true) : createsSession c = false := by
  cases c <;> first | rfl | exact absurd h Bool.false_ne_true

section Token

/-- The part of the protocol of a redemption. -/
def recordProtocol : Protocol Command Command.Reply ActivityPhase where
  next := recordNext
  ok _ c := createsSession c = false

def recordPost (g : ActivityPhase) (a : Option Response) : Prop :=
  ∀ idToken access, a = some (.tokens idToken access) → g = .recorded idToken.sid idToken.clientId

theorem recordPost_of {g : ActivityPhase} {a : Option Response}
    (h : ∀ idToken access, a ≠ some (.tokens idToken access)) : recordPost g a :=
  fun idToken access heq => (h idToken access heq).elim

theorem record_plain {c : Command} (h : c.plain = true) (g : ActivityPhase) :
    recordProtocol.ok g c ∧ ∀ r, recordProtocol.next g c r = g := by
  refine ⟨createsSession_plain h, fun r => ?_⟩
  cases c <;> first | rfl | exact absurd h Bool.false_ne_true

theorem mintTokens_obeys (clientId : ClientId) (ac : AuthCode) (extra : IdTokenExtra) :
    recordProtocol.Obeys recordPost (.recorded ac.sid clientId) (mintTokens clientId ac extra) := by
  rw [mintTokens, ask, await, Protocol.obeys_await_bind]
  refine ⟨rfl, recordPost_of (by simp), fun _ => ?_⟩
  rw [Protocol.obeys_await_bind]
  refine ⟨rfl, recordPost_of (by simp), fun _ => ?_⟩
  rintro idToken access ⟨⟩
  rfl

/-- The append is issued before the session is read. -/
theorem sessionClaims_obeys (clientId : ClientId) (ac : AuthCode) (extra : IdTokenExtra) :
    recordProtocol.Obeys (fun g a => a.isSome = true → g = .recorded ac.sid clientId) .before
      (sessionClaims clientId ac extra) := by
  rw [sessionClaims, await, Protocol.obeys_await_bind]
  refine ⟨rfl, fun hsome => (by cases hsome), fun _ => ?_⟩
  refine Protocol.Obeys.of_only ?_ (fun c (hc : c.plain = true) => record_plain hc _) fun _ _ => rfl
  refine only_await_bind rfl fun row => ?_
  split
  · trivial
  · exact getSessionWindows_only.bind fun _ => trivial

theorem issueTokens_obeys {P : Primitives} (b : TokenBody) (clientId : ClientId) (ac : AuthCode) :
    recordProtocol.Obeys recordPost .before (issueTokens P b clientId ac) := by
  unfold issueTokens
  split
  · exact recordPost_of (by simp)
  · refine Protocol.Obeys.only_bind (identityClaims_only ac) (fun c hc => record_plain hc _)
      (recordPost_of (by simp)) fun identity => ?_
    rw [Protocol.obeys_bind]
    refine (sessionClaims_obeys clientId ac identity).mono fun g session hrecorded => ?_
    cases session with
    | none => exact recordPost_of (by simp)
    | some session =>
      rw [hrecorded rfl]
      refine Protocol.Obeys.only_bind (roleClaims_only clientId ac session)
        (fun c hc => record_plain hc _) (recordPost_of (by simp)) fun outcome => ?_
      split
      · exact recordPost_of (by simp)
      · exact mintTokens_obeys clientId ac _

theorem postToken_obeys (P : Primitives) (b : TokenBody) :
    recordProtocol.Obeys recordPost .before (postToken P b) := by
  unfold postToken
  split_ifs
  · exact recordPost_of (by simp)
  · refine Protocol.Obeys.only_bind authenticateClient_only (fun c hc => record_plain hc _)
      (recordPost_of (by simp)) fun client => ?_
    split
    · exact recordPost_of (by simp)
    · rw [Protocol.obeys_bind, consumeCode, await, Protocol.obeys_await_bind]
      refine ⟨rfl, recordPost_of (by simp), fun found => ?_⟩
      cases found with
      | none => exact recordPost_of (by simp)
      | some ac =>
        rw [await, Protocol.obeys_await_bind]
        exact ⟨rfl, recordPost_of (by simp), fun _ => issueTokens_obeys b _ ac⟩

end Token

section Report

variable {P : Primitives} {b : ActivityBody}

/-- The command reads a table or asks the surroundings, but not the time. -/
def timeless : ActivityCommand → Bool
  | .sso .dateNow => false
  | .sso c => c.plain
  | .report _ => false

theorem assertedClient_only : (assertedClient P b).Only fun c => timeless (.sso c) = true := by
  unfold assertedClient
  split_ifs
  · trivial
  · split
    · trivial
    · split
      · trivial
      · refine only_await_bind rfl fun client => ?_
        split
        · trivial
        · split_ifs
          · trivial
          · refine only_await_bind rfl fun keySet => ?_
            split_ifs
            · trivial
            · exact only_await_bind rfl fun verified => trivial

theorem getSetting_timeless (key : String) :
    (getSetting key).Only fun c => timeless (.sso c) = true :=
  only_await_bind rfl fun _ => trivial

theorem getSessionWindows_timeless : getSessionWindows.Only fun c => timeless (.sso c) = true := by
  unfold getSessionWindows
  exact (getSetting_timeless _).bind fun _ => (getSetting_timeless _).bind fun _ =>
    (getSetting_timeless _).bind fun _ => trivial

theorem within_only {α : Type} {p : Handler α} {only : Command → Prop}
    {only' : ActivityCommand → Prop} (h : p.Only only) (himp : ∀ c, only c → only' (.sso c)) :
    (sso p).Only only' := by
  induction p with
  | done a => trivial
  | thrown => trivial
  | call c k ih => exact ⟨himp c h.1, fun r => ih _ (h.2 _)⟩

/-- A command of a report that is neither of the two keeps its phase. -/
theorem report_steady {c : ActivityCommand} (h : timeless c = true) (g : ActivityPhase) :
    (activityProtocol (.report b)).ok g c ∧ ∀ r, (activityProtocol (.report b)).next g c r = g := by
  cases c with
  | report r => cases h
  | sso c =>
    constructor
    · cases c <;> first | exact h | rfl
    · intro r
      cases c <;> cases g <;> first | rfl | cases h

theorem obeys_sso_await_bind {α : Type} {Q : Protocol ActivityCommand ActivityCommand.Reply ActivityPhase}
    {post : ActivityPhase → Option α → Prop} {g : ActivityPhase} {c : Command}
    {f : c.Reply → ActivityHandler α} :
    Q.Obeys post g (sso (await c) >>= f) ↔ Q.ok g (.sso c) ∧ post (Q.next g (.sso c) none) none ∧
      ∀ r, Q.Obeys post (Q.next g (.sso c) (some r)) (f r) := by
  constructor
  · intro h
    exact ⟨h.1, h.2 none, fun r => h.2 (some r)⟩
  · rintro ⟨hok, hnone, hsome⟩
    refine ⟨hok, fun r => ?_⟩
    cases r with
    | none => exact hnone
    | some r => exact hsome r

/-- The part of the protocol of a report that concerns tables. -/
def readProtocol : Protocol Command Command.Reply ActivityPhase where
  next g c r := reportNext g (.sso c) r
  ok _ c := c.plain = true

/-- A verdict names the client and the session it was asked for. -/
theorem signVerdict_obeys (clientId : ClientId) (sid : JsString) (r : Report) :
    readProtocol.Obeys (fun g a => ∀ verdict ∈ a, g = .denied r ∧ verdict.clientId = clientId ∧
      verdict.sid = sid) (.denied r) (signVerdict clientId sid) := by
  rw [signVerdict, ask, await, Protocol.obeys_await_bind]
  refine ⟨rfl, fun verdict h => (by cases h), fun _ => ?_⟩
  rw [await, Protocol.obeys_await_bind]
  refine ⟨rfl, fun verdict h => (by cases h), fun now => ?_⟩
  rintro verdict ⟨⟩
  exact ⟨rfl, rfl, rfl⟩

/-- Behind an update without a row all that follows is the verdict. -/
theorem report_obeys {r : Report} (hsid : Uuid.parse? b.sid = some r.sid) :
    (activityProtocol (.report b)).Obeys (activityPost (.report b)) (.timed r.computedAt)
      (report r.clientId b.sid r) := by
  unfold report awaitUpdate
  rw [Protocol.obeys_await_bind]
  refine ⟨rfl, trivial, fun found => ?_⟩
  cases found with
  | true => trivial
  | false =>
    have hphase : (activityProtocol (.report b)).next (.timed r.computedAt) (.report r)
        (some false) = .denied r := rfl
    rw [hphase, Protocol.obeys_bind]
    have hsigned := Protocol.obeys_within (f := ActivityCommand.sso) (g := fun _ reply => reply)
      (Q := activityProtocol (.report b)) (fun _ _ h => h)
      (fun phase c reply => by cases reply <;> rfl) (signVerdict_obeys r.clientId b.sid r)
    refine Protocol.Obeys.mono (fun g verdict h => ?_) hsigned
    cases verdict with
    | none => trivial
    | some verdict =>
      obtain ⟨hg, hclient, hverdict⟩ := h verdict rfl
      exact ⟨r, hg, hclient.symm, hverdict ▸ hsid⟩

theorem reportAs_obeys {clientId : ClientId} {sid : Uuid} (hsid : Uuid.parse? b.sid = some sid) :
    (activityProtocol (.report b)).Obeys (activityPost (.report b)) .before
      (reportAs b clientId sid) := by
  unfold reportAs
  refine Protocol.Obeys.only_bind (within_only getSessionWindows_timeless fun c hc => hc)
    (fun c hc => report_steady hc _) trivial fun windows => ?_
  rw [obeys_sso_await_bind]
  exact ⟨rfl, trivial, fun now => report_obeys (r := ⟨sid, clientId, _, windows, now⟩) hsid⟩

theorem postSessionActivity_obeys :
    (activityProtocol (.report b)).Obeys (activityPost (.report b)) .before
      (postSessionActivity P b) := by
  unfold postSessionActivity
  refine Protocol.Obeys.only_bind (within_only assertedClient_only fun c hc => hc)
    (fun c hc => report_steady hc _) trivial fun clientId => ?_
  cases clientId with
  | none => trivial
  | some clientId =>
    cases hsid : Uuid.parse? b.sid with
    | none => trivial
    | some sid => exact reportAs_obeys hsid

end Report

theorem program_obeys (P : Primitives) (call : ActivityCall) :
    (activityProtocol call).Obeys (activityPost call) .before (call.program P) := by
  cases call with
  | token b =>
    rw [ActivityCall.program, respond, Protocol.obeys_bind]
    have htoken := Protocol.obeys_within (f := ActivityCommand.sso) (g := fun _ reply => reply)
      (Q := activityProtocol (.token b)) (fun _ _ h => h)
      (fun phase c reply => by cases reply <;> rfl) (postToken_obeys P b)
    refine Protocol.Obeys.mono (fun g response h => ?_) htoken
    cases response with
    | none => trivial
    | some response =>
      cases response with
      | tokens idToken access => exact h idToken access rfl
      | _ => trivial
  | report b => exact postSessionActivity_obeys
  | other p =>
    rw [ActivityCall.program, respond, Protocol.obeys_bind]
    have hok : ∀ c, activityOk (.other p) .before c →
        (activityProtocol (.other p)).ok .before c ∧
          ∀ r, (activityProtocol (.other p)).next .before c r = .before := fun c hc => ⟨hc, fun _ => rfl⟩
    refine Protocol.Obeys.of_only (within_only p.property fun c hc => hc) hok fun a => ?_
    cases a <;> trivial

end Requests

section Runs

variable {ι : Type} [DecidableEq ι]

/-- Redemptions, reports and other requests on sessions none of which has been used later than
now. -/
def activityRuns (P : Primitives) (calls : ι → ActivityCall) :
    System (Config ι ActivityCommand ActivityCommand.Reply Sso Answer)
      (Move ι (Interleaving.Outcome × Outside) ActivityDrift) :=
  (activityServer P).faulty.system
    (fun s => ∀ sid r, s.sessions.find? sid = some r → r.lastSeen ≤ s.clock)
    fun i => (calls i).program P

abbrev activityPhases (calls : ι → ActivityCall)
    (log : List (Entry ι ActivityCommand ActivityCommand.Reply)) : ι → ActivityPhase :=
  phases (fun i => activityProtocol (calls i)) (fun _ => .before) log

abbrev ActivityEvent (ι : Type) :=
  Event (Config ι ActivityCommand ActivityCommand.Reply Sso Answer)
    (Move ι (Interleaving.Outcome × Outside) ActivityDrift)

/-- The step uses the session: a report of it is accepted, or it has been loaded. -/
def Uses (sid : Uuid) (e : ActivityEvent ι) : Prop :=
  match e.label with
  | .act i _ => ∃ r k, e.before.requests i = .call (.report r) k ∧
      ∃ row, e.before.store.sessions.find? sid = some row ∧ r.names e.before.store sid row = true
  | .drift (.touch sid') => sid' = sid
  | .drift (.sso _) => False

/-- What a step does to a session. -/
def Advances (sid : Uuid) (e : ActivityEvent ι) : Prop :=
  e.before.store.clock ≤ e.after.store.clock ∧ (Kept e.before.store e.after.store sid ∨
    Uses sid e ∧ Used e.before.store e.after.store sid)

theorem report_clock (s : Sso) (r : Report) : (reportActivity s r).2.clock = s.clock := by
  unfold reportActivity
  split_ifs
  · split <;> rfl
  · rfl

theorem step_advances {P : Primitives} {calls : ι → ActivityCall}
    {cfg cfg' : Config ι ActivityCommand ActivityCommand.Reply Sso Answer}
    {m : Move ι (Interleaving.Outcome × Outside) ActivityDrift}
    (hobeys : ∀ i, (activityProtocol (calls i)).Obeys (activityPost (calls i))
      (activityPhases calls cfg.log i) (cfg.requests i))
    (hstep : (activityServer P).faulty.step cfg m = some cfg') (sid : Uuid) :
    Advances sid ⟨cfg, m, cfg'⟩ := by
  cases m with
  | drift e =>
    obtain ⟨s, hs, rfl⟩ := Server.step_drift hstep
    cases e with
    | sso e => exact ⟨Sso.drift_clock hs, .inl (settle_kept hs sid)⟩
    | touch sid' =>
      obtain rfl : touchSession cfg.store sid' = s := Option.some.inj hs
      refine ⟨le_rfl, ?_⟩
      by_cases hsid : sid' = sid
      · exact .inr ⟨hsid, touch_used sid sid'⟩
      · exact .inl (touch_kept (Ne.symm hsid))
  | act i w =>
    obtain ⟨c, k, hprog, rfl⟩ := Server.step_act hstep
    have hok := hobeys i
    rw [hprog] at hok
    show cfg.store.clock ≤ ((activityServer P).faulty.perform w c cfg.store).2.clock ∧
      (Kept cfg.store ((activityServer P).faulty.perform w c cfg.store).2 sid ∨ _ ∧
        Used cfg.store ((activityServer P).faulty.perform w c cfg.store).2 sid)
    rcases Server.faulty_store w c cfg.store with hnot | hdone
    · rw [hnot]
      exact ⟨le_rfl, .inl (Kept.refl _ _)⟩
    · rw [hdone]
      cases c with
      | sso c =>
        have hcreates : createsSession c = false := by
          have hissued := hok.1
          cases hcall : calls i with
          | report b =>
            rw [hcall] at hissued
            exact createsSession_plain hissued
          | _ =>
            rw [hcall] at hissued
            exact hissued
        exact ⟨(Sso.perform_clock c).ge, .inl (perform_kept hcreates sid)⟩
      | report r =>
        refine ⟨(report_clock _ _).ge, ?_⟩
        by_cases hreached : ∃ row, cfg.store.sessions.find? sid = some row ∧
            r.names cfg.store sid row = true
        · exact .inr ⟨⟨r, k, hprog, hreached⟩, report_used r sid⟩
        · refine .inl (report_kept r fun row hrow => ?_)
          by_contra hnames
          exact hreached ⟨row, hrow, by simpa using hnames⟩

variable {P : Primitives} {calls : ι → ActivityCall}
  {cfg cfg' : Config ι ActivityCommand ActivityCommand.Reply Sso Answer}
  {trace : List (ActivityEvent ι)}

theorem run_advances (hinit : (activityRuns P calls).initial cfg)
    (hrun : Exec (activityRuns P calls) cfg trace cfg') :
    ∀ e ∈ trace, ∀ sid, Advances sid e := by
  obtain ⟨-, hlog, hprograms⟩ := hinit
  refine (hrun.history (fun trace cfg' => (∀ i, (activityProtocol (calls i)).Obeys
    (activityPost (calls i)) (activityPhases calls cfg'.log i) (cfg'.requests i)) ∧
      ∀ e ∈ trace, ∀ sid, Advances sid e) ⟨fun i => ?_, fun e he => (by cases he)⟩ ?_).2
  · rw [hlog, hprograms]
    exact program_obeys P (calls i)
  · rintro trace cfg m cfg' - ⟨hobeys, hall⟩ hstep
    refine ⟨Server.obeys_step hstep hobeys, fun e he sid => ?_⟩
    rcases List.mem_append.mp he with hold | hnew
    · exact hall e hold sid
    · obtain rfl := List.mem_singleton.mp hnew
      exact step_advances hobeys hstep sid

/-- What has become of a session in a run. -/
structure Outlives (sid : Uuid) (trace : List (ActivityEvent ι)) (before after : Sso)
    (r' : SessionRow) : Prop where
  past : r'.lastSeen ≤ after.clock
  origin : ∃ r, before.sessions.find? sid = some r ∧ r'.createdAt = r.createdAt ∧
    (r'.lastSeen = r.lastSeen ∨ ∃ e ∈ trace, Uses sid e ∧ r'.lastSeen ≤ e.before.store.clock)

theorem run_outlives (hinit : (activityRuns P calls).initial cfg)
    (hrun : Exec (activityRuns P calls) cfg trace cfg') :
    ∀ sid r', cfg'.store.sessions.find? sid = some r' →
      Outlives sid trace cfg.store cfg'.store r' := by
  refine hrun.history (fun trace cfg' => ∀ sid r', cfg'.store.sessions.find? sid = some r' →
    Outlives sid trace cfg.store cfg'.store r') ?_ ?_
  · intro sid r hr
    exact ⟨hinit.1 sid r hr, r, hr, rfl, .inl rfl⟩
  · intro trace cfg₁ m cfg₂ hbefore ih hstep sid r₂ hr₂
    obtain ⟨hclock, hstepped⟩ := run_advances hinit (hbefore.snoc hstep) ⟨cfg₁, m, cfg₂⟩
      (List.mem_append_right _ (List.mem_singleton_self _)) sid
    rcases hstepped with hkept | ⟨huses, hused⟩
    · obtain ⟨r₁, hr₁, hcreated, -, hseen⟩ := hkept r₂ hr₂
      obtain ⟨hpast, r, hr, hcreated₁, hseen₁⟩ := ih sid r₁ hr₁
      refine ⟨hseen ▸ hpast.trans hclock, r, hr, hcreated.trans hcreated₁, ?_⟩
      rcases hseen₁ with hsame | ⟨e, he, huses, hle⟩
      · exact .inl (hseen.trans hsame)
      · exact .inr ⟨e, List.mem_append_left _ he, huses, hseen ▸ hle⟩
    · obtain ⟨r₁, hr₁, hcreated, -, hle, -⟩ := hused r₂ hr₂
      obtain ⟨hpast, r, hr, hcreated₁, -⟩ := ih sid r₁ hr₁
      have hnow : r₂.lastSeen ≤ cfg₁.store.clock := hle.trans (max_le hpast le_rfl)
      exact ⟨hnow.trans hclock, r, hr, hcreated.trans hcreated₁,
        .inr ⟨_, List.mem_append_right _ (List.mem_singleton_self _), huses, hnow⟩⟩

/-- The last use of a session never moves back, and its clients stay. -/
theorem run_forward (hinit : (activityRuns P calls).initial cfg)
    (hrun : Exec (activityRuns P calls) cfg trace cfg') {e : ActivityEvent ι} (he : e ∈ trace)
    {sid : Uuid} {r r' : SessionRow} (hr : e.before.store.sessions.find? sid = some r)
    (hr' : e.after.store.sessions.find? sid = some r') :
    r.lastSeen ≤ r'.lastSeen ∧ r.clients ⊆ r'.clients := by
  obtain ⟨first, second, -, hfirst, hstep, -⟩ := hrun.split he
  rcases (run_advances hinit hrun e he sid).2 with hkept | ⟨-, hused⟩
  · obtain ⟨r₁, hr₁, -, hclients, hseen⟩ := hkept r' hr'
    obtain rfl : r = r₁ := Option.some.inj (hr.symm.trans hr₁)
    exact ⟨hseen.ge, hclients⟩
  · obtain ⟨r₁, hr₁, -, hclients, -, hforward⟩ := hused r' hr'
    obtain rfl : r = r₁ := Option.some.inj (hr.symm.trans hr₁)
    exact ⟨hforward (run_outlives hinit hfirst sid r hr).past, hclients⟩

/-- A session that is live has been used within its idle window, and has been opened within
the window for its kind. -/
theorem live_bounded (hinit : (activityRuns P calls).initial cfg)
    (hrun : Exec (activityRuns P calls) cfg trace cfg') {sid : Uuid} {windows : SessionWindows}
    {r' : SessionRow} (hr' : cfg'.store.sessions.find? sid = some r')
    (hlive : r'.live windows cfg'.store.clock = true) :
    ∃ r, cfg.store.sessions.find? sid = some r ∧
      (hoursBefore cfg'.store.clock windows.idleHours < r.lastSeen ∨ ∃ e ∈ trace, Uses sid e ∧
        hoursBefore cfg'.store.clock windows.idleHours < e.before.store.clock) ∧
      hoursBefore cfg'.store.clock
        (if r'.persistent then windows.maxHours else windows.transientMaxHours) < r.createdAt := by
  obtain ⟨-, r, hr, hcreated, hseen⟩ := run_outlives hinit hrun sid r' hr'
  rw [SessionRow.live, Bool.and_eq_true, decide_eq_true_eq, decide_eq_true_eq, hcreated] at hlive
  refine ⟨r, hr, ?_, hlive.2⟩
  rcases hseen with hsame | ⟨e, he, huses, hle⟩
  · exact .inl (hsame ▸ hlive.1)
  · exact .inr ⟨e, he, huses, hlive.1.trans_le hle⟩

/-- The command issues the append of a client to the clients of a session. -/
def appends (sid : Uuid) (clientId : ClientId) : ActivityCommand → Bool
  | .sso (.appendClient sid' clientId') => decide (sid' = sid) && decide (clientId' = clientId)
  | _ => false

/-- The report whose update has found no row. -/
def ActivityPhase.denied? : ActivityPhase → Option Report
  | .denied r => some r
  | _ => none

/-- A client for which an append to a session has been issued reports the session once one has
been executed, and no append is issued for it while a verdict on the session is under way. -/
def recordedFirst (calls : ι → ActivityCall) :
    Condition ι ActivityCommand ActivityCommand.Reply Sso ActivityDrift where
  act s log _ c := match c with
    | .report r => (∃ x ∈ log, appends r.sid r.clientId x.command = true) →
        ∀ row ∈ s.sessions.find? r.sid, r.clientId ∈ row.clients
    | .sso c => ∀ j, ∀ r ∈ (activityPhases calls log j).denied?,
        appends r.sid r.clientId (.sso c) = false
  drift _ _ _ := True

/-- The client of the report, for which an append has been issued, has lost a session that is
not live. -/
def Justified (log : List (Entry ι ActivityCommand ActivityCommand.Reply)) (s : Sso)
    (r : Report) : Prop :=
  (∃ x ∈ log, appends r.sid r.clientId x.command = true) →
    loadSessionBySid s r.windows r.sid = none

structure Judged (calls : ι → ActivityCall)
    (hist : List (Sso × Entry ι ActivityCommand ActivityCommand.Reply)) (s : Sso) : Prop where
  timed : ∀ i now, activityPhases calls (entries hist) i = .timed now → now ≤ s.clock
  recorded : ∀ i sid clientId, activityPhases calls (entries hist) i = .recorded sid clientId →
    ∃ x ∈ entries hist, appends sid clientId x.command = true
  denied : ∀ i r, activityPhases calls (entries hist) i = .denied r →
    ∃ before, (before, ⟨i, .report r, some false⟩) ∈ hist ∧ Justified (entries hist) before r

theorem live_of_later {r : SessionRow} {windows : SessionWindows} {t t' : ℤ} (h : t ≤ t')
    (hlive : r.live windows t' = true) : r.live windows t = true := by
  rw [SessionRow.live, Bool.and_eq_true, decide_eq_true_eq, decide_eq_true_eq] at hlive ⊢
  unfold hoursBefore at hlive ⊢
  omega

/-- An update that finds no row has met no live session of its client. -/
theorem not_live_of_denied {s : Sso} {r : Report} (hnow : r.computedAt ≤ s.clock)
    (hmember : ∀ row ∈ s.sessions.find? r.sid, r.clientId ∈ row.clients)
    (h : (reportActivity s r).1 = some false) : loadSessionBySid s r.windows r.sid = none := by
  rw [loadSessionBySid, Option.filter_eq_none_iff]
  intro row hrow hlive
  rw [Bool.and_eq_true] at hlive
  have hnames : r.names s r.sid row = true := by
    rw [Report.names, decide_eq_true rfl, decide_eq_true (hmember row hrow),
      live_of_later hnow hlive.1, hlive.2]
    rfl
  have hany : s.sessions.any (r.names s) = true :=
    (Table.any_eq_true_iff _ _).mpr ⟨r.sid, row, hrow, hnames⟩
  rw [reportActivity, if_pos hany] at h
  split at h <;> cases h

omit [DecidableEq ι] in
theorem record_next (g : ActivityPhase) (c : Command) (r : Option c.Reply) :
    recordNext g c r = g ∨ ∃ sid clientId, c = .appendClient sid clientId ∧
      recordNext g c r = .recorded sid clientId := by
  cases c <;> first | exact .inl rfl | exact .inr ⟨_, _, rfl, rfl⟩

omit [DecidableEq ι] in
/-- A command of a report keeps the phase, reads the time or is the update. -/
theorem report_next {b : ActivityBody} {g : ActivityPhase} {c : ActivityCommand}
    (hok : activityOk (.report b) g c) : (∀ r, reportNext g c r = g) ∨ c = .sso .dateNow ∨
      ∃ r, c = .report r ∧ g = .timed r.computedAt := by
  cases c with
  | report r => exact .inr (.inr ⟨r, rfl, hok⟩)
  | sso c =>
    by_cases htimeless : timeless (.sso c) = true
    · exact .inl (report_steady (b := b) htimeless g).2
    · have hplain : c.plain = true := hok
      cases c <;> first | exact .inr (.inl rfl) | exact absurd hplain htimeless

omit [DecidableEq ι] in
/-- What a step makes of the phase of its request. -/
theorem next_cases (i : ι) {call : ActivityCall} {g : ActivityPhase} {c : ActivityCommand} {s : Sso}
    (w : Interleaving.Outcome × Outside) (hok : activityOk call g c) :
    let reply := ((activityServer P).faulty.perform w c s).1
    activityNext call g c reply = g ∨ activityNext call g c reply = .timed s.clock ∨
      (∃ sid clientId, c = .sso (.appendClient sid clientId) ∧
        activityNext call g c reply = .recorded sid clientId) ∨
      ∃ r, c = .report r ∧ g = .timed r.computedAt ∧ activityNext call g c reply = .denied r ∧
        (reportActivity s r).1 = some false ∧
        (⟨i, c, reply⟩ : Entry ι ActivityCommand ActivityCommand.Reply) =
          ⟨i, .report r, some false⟩ := by
  intro reply
  cases call with
  | other p => exact .inl rfl
  | token b =>
    cases c with
    | report r => exact .inl rfl
    | sso c =>
      rcases record_next g c reply with hsame | ⟨sid, clientId, rfl, hnext⟩
      · exact .inl hsame
      · exact .inr (.inr (.inl ⟨sid, clientId, rfl, hnext⟩))
  | report b =>
    rcases report_next hok with hsame | rfl | ⟨r, rfl, rfl⟩
    · exact .inl (hsame _)
    · cases hreply : reply with
      | none => exact .inl (by cases g <;> rfl)
      | some now =>
        have hnow : some s.clock = some now := Server.faulty_reply hreply
        obtain rfl := Option.some.inj hnow
        cases g with
        | denied r => exact .inl rfl
        | _ => exact .inr (.inl rfl)
    · cases hreply : reply with
      | none => exact .inl rfl
      | some found =>
        cases found with
        | true => exact .inl rfl
        | false =>
          have hdenied : (reportActivity s r).1 = some false := Server.faulty_reply hreply
          exact .inr (.inr (.inr ⟨r, rfl, rfl, rfl, hdenied, rfl⟩))

theorem faulty_clock (w : Interleaving.Outcome × Outside) (c : ActivityCommand) (s : Sso) :
    ((activityServer P).faulty.perform w c s).2.clock = s.clock := by
  rcases Server.faulty_store (S := activityServer P) w c s with hnot | hdone
  · rw [hnot]
  · rw [hdone]
    cases c with
    | sso c => exact Sso.perform_clock c
    | report r => exact report_clock s r

omit [DecidableEq ι] in
/-- A command that issues no append for the client changes nothing about it. -/
theorem Justified.append {log : List (Entry ι ActivityCommand ActivityCommand.Reply)} {s : Sso}
    {r : Report} (h : Justified log s r) {x : Entry ι ActivityCommand ActivityCommand.Reply}
    (hx : appends r.sid r.clientId x.command = false) : Justified (log ++ [x]) s r := by
  rintro ⟨y, hy, happends⟩
  rcases List.mem_append.mp hy with hold | hnew
  · exact h ⟨y, hold, happends⟩
  · obtain rfl := List.mem_singleton.mp hnew
    rw [hx] at happends
    cases happends

theorem Judged.step {hist : List (Sso × Entry ι ActivityCommand ActivityCommand.Reply)} {s : Sso}
    {i : ι} {c : ActivityCommand} (w : Interleaving.Outcome × Outside) (h : Judged calls hist s)
    (hok : activityOk (calls i) (activityPhases calls (entries hist) i) c)
    (hfirst : (recordedFirst calls).act s (entries hist) i c) :
    Judged calls (hist ++ [(s, ⟨i, c, ((activityServer P).faulty.perform w c s).1⟩)])
      ((activityServer P).faulty.perform w c s).2 := by
  obtain ⟨reply, hreply⟩ : ∃ reply, reply = ((activityServer P).faulty.perform w c s).1 := ⟨_, rfl⟩
  have hnext := next_cases (P := P) i (s := s) w hok
  rw [← hreply] at hnext ⊢
  have hphases : ∀ j, (j = i ∧ activityPhases calls (entries (hist ++ [(s, ⟨i, c, reply⟩)])) j =
      activityNext (calls i) (activityPhases calls (entries hist) i) c reply) ∨
        (j ≠ i ∧ activityPhases calls (entries (hist ++ [(s, ⟨i, c, reply⟩)])) j =
          activityPhases calls (entries hist) j) := by
    intro j
    rw [entries_append]
    exact phases_cases _ _ _ _ _ _ j
  have happends : ∀ j r, activityPhases calls (entries hist) j = .denied r →
      appends r.sid r.clientId c = false := by
    intro j r hj
    cases c with
    | report r' => rfl
    | sso c => exact hfirst j r (by rw [hj]; rfl)
  have hkept : ∀ j r, activityPhases calls (entries hist) j = .denied r → ∃ before,
      (before, ⟨j, .report r, some false⟩) ∈ hist ++ [(s, ⟨i, c, reply⟩)] ∧
        Justified (entries (hist ++ [(s, ⟨i, c, reply⟩)])) before r := by
    intro j r hj
    obtain ⟨before, hmem, hjustified⟩ := h.denied j r hj
    rw [entries_append]
    exact ⟨before, List.mem_append_left _ hmem, hjustified.append (happends j r hj)⟩
  constructor
  · intro j now hj
    rw [faulty_clock]
    rcases hphases j with ⟨rfl, hphase⟩ | ⟨-, hphase⟩
    · rw [hphase] at hj
      rcases hnext with hsame | htimed | ⟨_, _, _, hother⟩ | ⟨_, _, _, hother, _⟩
      · exact h.timed j now (hsame ▸ hj)
      · rw [htimed] at hj
        cases hj
        exact le_rfl
      · rw [hother] at hj
        cases hj
      · rw [hother] at hj
        cases hj
    · exact h.timed j now (hphase ▸ hj)
  · intro j sid clientId hj
    rw [entries_append]
    have hold : activityPhases calls (entries hist) j = .recorded sid clientId →
        ∃ x ∈ entries hist ++ [⟨i, c, reply⟩], appends sid clientId x.command = true := by
      intro hj
      obtain ⟨x, hx, hissued⟩ := h.recorded j sid clientId hj
      exact ⟨x, List.mem_append_left _ hx, hissued⟩
    rcases hphases j with ⟨rfl, hphase⟩ | ⟨-, hphase⟩
    · rw [hphase] at hj
      rcases hnext with hsame | hother | ⟨_, _, rfl, hrecorded⟩ | ⟨_, _, _, hother, _⟩
      · exact hold (hsame ▸ hj)
      · rw [hother] at hj
        cases hj
      · rw [hrecorded] at hj
        cases hj
        exact ⟨_, List.mem_append_right _ (List.mem_singleton_self _), by simp [appends]⟩
      · rw [hother] at hj
        cases hj
    · exact hold (hphase ▸ hj)
  · intro j r hj
    rcases hphases j with ⟨rfl, hphase⟩ | ⟨-, hphase⟩
    · rw [hphase] at hj
      rcases hnext with hsame | hother | ⟨_, _, _, hother⟩ |
        ⟨r', rfl, htimed, hdenied, hupdate, hentry⟩
      · exact hkept j r (hsame ▸ hj)
      · rw [hother] at hj
        cases hj
      · rw [hother] at hj
        cases hj
      · rw [hdenied] at hj
        cases hj
        rw [hentry, entries_append]
        refine ⟨s, List.mem_append_right _ (List.mem_singleton_self _), ?_⟩
        have hjustified : Justified (entries hist) s r := fun hissued =>
          not_live_of_denied (h.timed j _ htimed) (hfirst hissued) hupdate
        exact hjustified.append rfl
    · exact hkept j r (hphase ▸ hj)

theorem run_judged (hinit : (activityRuns P calls).initial cfg)
    (hrun : Exec (activityRuns P calls) cfg trace cfg')
    (hfirst : ∀ e ∈ trace, (recordedFirst calls).Meets e.before e.label) :
    (Judged calls (recorded trace) cfg'.store ∧ cfg'.log = entries (recorded trace)) ∧
      ∀ i, (activityProtocol (calls i)).Obeys (activityPost (calls i))
        (activityPhases calls cfg'.log i) (cfg'.requests i) := by
  obtain ⟨-, hlog, hprograms⟩ := hinit
  refine Server.run_recorded (P := fun i => activityProtocol (calls i)) (J := Judged calls)
    (fun hist s i c w h hok hmeets => h.step w hok hmeets) ?_ hrun hfirst hlog
    (fun i => by rw [hprograms]; exact program_obeys P (calls i)) ?_
  · intro hist s s' e h _ hdrift
    refine ⟨fun i now hi => (h.timed i now hi).trans ?_, h.recorded, h.denied⟩
    cases e with
    | sso e => exact Sso.drift_clock hdrift
    | touch sid => exact (Option.some.inj hdrift) ▸ le_rfl
  · exact ⟨fun _ _ hi => (by cases hi), fun _ _ _ hi => (by cases hi), fun _ _ hi => by cases hi⟩

/-- The client of the verdict has been issued an id token with its sid. -/
def HoldsIdToken (calls : ι → ActivityCall) (verdict : Verdict)
    (cfg : Config ι ActivityCommand ActivityCommand.Reply Sso Answer) : Prop :=
  ∃ j b idToken access, calls j = .token b ∧
    cfg.requests j = .done (.response (.tokens idToken access)) ∧
    idToken.clientId = verdict.clientId ∧ Uuid.parse? verdict.sid = some idToken.sid

/-- The verdict goes out in this step. -/
def Issues (i : ι) (verdict : Verdict) (e : ActivityEvent ι) : Prop :=
  e.before.requests i ≠ .done (.gone verdict) ∧ e.after.requests i = .done (.gone verdict)

theorem verdict_sound (hinit : (activityRuns P calls).initial cfg)
    (hrun : Exec (activityRuns P calls) cfg trace cfg')
    (hfirst : ∀ e ∈ trace, (recordedFirst calls).Meets e.before e.label)
    {e : ActivityEvent ι} (he : e ∈ trace) {i : ι} {verdict : Verdict}
    (hissues : Issues i verdict e) (hholds : HoldsIdToken calls verdict e.after) :
    ∃ s r, (s, ⟨i, .report r, some false⟩) ∈ recorded trace ∧ r.clientId = verdict.clientId ∧
      Uuid.parse? verdict.sid = some r.sid ∧ loadSessionBySid s r.windows r.sid = none := by
  obtain ⟨first, second, rfl, hbefore, hstep, -⟩ := hrun.split he
  have hsplit : first ++ e :: second = (first ++ [e]) ++ second := by
    rw [List.append_assoc, List.singleton_append]
  have hmeets : ∀ e' ∈ first ++ [e], (recordedFirst calls).Meets e'.before e'.label :=
    fun e' he' => hfirst e' (hsplit ▸ List.mem_append_left _ he')
  obtain ⟨⟨hjudged, hlog⟩, hobeys⟩ := run_judged hinit (hbefore.snoc hstep) hmeets
  have hi := hobeys i
  rw [hissues.2] at hi
  obtain ⟨j, b, idToken, access, hcall, hdone, hclient, hsid⟩ := hholds
  have hj := hobeys j
  rw [hcall, hdone] at hj
  have hrecorded : activityPhases calls e.after.log j = .recorded idToken.sid idToken.clientId := hj
  obtain ⟨x, hx, happends⟩ := hjudged.recorded j _ _ (hlog ▸ hrecorded)
  cases hreport : calls i with
  | token b' =>
    rw [hreport] at hi
    exact hi.elim
  | other p =>
    rw [hreport] at hi
    exact hi.elim
  | report b' =>
    rw [hreport] at hi
    obtain ⟨r, hphase, hrclient, hrsid⟩ := hi
    obtain ⟨s, hmem, hjustified⟩ := hjudged.denied i r (hlog ▸ hphase)
    have hsame : r.sid = idToken.sid := Option.some.inj (hrsid.symm.trans hsid)
    refine ⟨s, r, ?_, hrclient, hrsid, hjustified ⟨x, hx, ?_⟩⟩
    · rw [hsplit, recorded_append]
      exact List.mem_append_left _ hmem
    · rw [hsame, hrclient, ← hclient]
      exact happends

/-- In every run the last use of a session moves forward only, stays behind the time and keeps
the session live within its windows only. A verdict to a client with an id token for the
session means that it was not live, in every run whose reports come behind an executed append
to the clients of the session. -/
theorem session_activity (P : Primitives) (calls : ι → ActivityCall)
    {cfg cfg' : Config ι ActivityCommand ActivityCommand.Reply Sso Answer}
    {trace : List (ActivityEvent ι)} (hinit : (activityRuns P calls).initial cfg)
    (hrun : Exec (activityRuns P calls) cfg trace cfg') :
    (∀ e ∈ trace, ∀ sid r r', e.before.store.sessions.find? sid = some r →
      e.after.store.sessions.find? sid = some r' →
        r.lastSeen ≤ r'.lastSeen ∧ r.clients ⊆ r'.clients) ∧
    (∀ sid r, cfg'.store.sessions.find? sid = some r → r.lastSeen ≤ cfg'.store.clock) ∧
    (∀ sid (windows : SessionWindows) r', cfg'.store.sessions.find? sid = some r' →
      r'.live windows cfg'.store.clock = true →
        ∃ r, cfg.store.sessions.find? sid = some r ∧
          (hoursBefore cfg'.store.clock windows.idleHours < r.lastSeen ∨
            ∃ e ∈ trace, Uses sid e ∧
              hoursBefore cfg'.store.clock windows.idleHours < e.before.store.clock) ∧
          hoursBefore cfg'.store.clock
            (if r'.persistent then windows.maxHours else windows.transientMaxHours) <
              r.createdAt) ∧
    ((∀ e ∈ trace, (recordedFirst calls).Meets e.before e.label) →
      ∀ e ∈ trace, ∀ i verdict, Issues i verdict e → HoldsIdToken calls verdict e.after →
        ∃ s r, (s, ⟨i, .report r, some false⟩) ∈ recorded trace ∧
          r.clientId = verdict.clientId ∧ Uuid.parse? verdict.sid = some r.sid ∧
          loadSessionBySid s r.windows r.sid = none) := by
  refine ⟨?_, ?_, ?_, ?_⟩
  · intro e he sid r r' hr hr'
    exact run_forward hinit hrun he hr hr'
  · intro sid r hr
    exact (run_outlives hinit hrun sid r hr).past
  · intro sid windows r' hr' hlive
    exact live_bounded hinit hrun hr' hlive
  · intro hfirst e he i verdict hissues hholds
    exact verdict_sound hinit hrun hfirst he hissues hholds

end Runs

section Examples

instance (calls : Bool → ActivityCall) (s : Sso)
    (log : List (Entry Bool ActivityCommand ActivityCommand.Reply)) (i : Bool)
    (c : ActivityCommand) : Decidable ((recordedFirst calls).act s log i c) :=
  match c with
  | .report r => inferInstanceAs (Decidable ((∃ x ∈ log, _) → ∀ row ∈ s.sessions.find? r.sid, _))
  | .sso _ => inferInstanceAs (Decidable (∀ j, ∀ r ∈ (activityPhases calls log j).denied?, _))

instance (calls : Bool → ActivityCall) (s : Sso)
    (log : List (Entry Bool ActivityCommand ActivityCommand.Reply)) (e : ActivityDrift) :
    Decidable ((recordedFirst calls).drift s log e) := inferInstanceAs (Decidable True)

def usedSession : SessionRow where
  userSub := Uuid.numbered 1
  tokenHash := []
  amr := [js "pwd"]
  acr := none
  authTime := 0
  lastSeen := 0
  createdAt := 0
  persistent := false
  stepupAt := none
  stepupMethod := none
  clients := []

/-- The code of `oneCodeSso` belongs to this session. -/
def oneSessionSso : Sso :=
  { oneCodeSso with sessions := (∅ : Table _ _).upsert (Uuid.numbered 2) usedSession }

def oneReport : ActivityBody where
  clientAssertionType := some (js "urn:ietf:params:oauth:client-assertion-type:jwt-bearer")
  clientAssertion := some (js "app")
  sid := (Uuid.numbered 2).text
  lastSeen := none

def redeemAndReport : Bool → ActivityCall
  | false => .token oneCodeBody
  | true => .report oneReport

def activityStart : Config Bool ActivityCommand ActivityCommand.Reply Sso Answer :=
  ⟨oneSessionSso, [], fun i => (redeemAndReport i).program plainPrimitives⟩

def stepsOf (i : Bool) (n : ℕ) : List (Move Bool (Interleaving.Outcome × Outside) ActivityDrift) :=
  List.replicate n (.act i (.answered, agreeable))

theorem activityStart_initial :
    (activityRuns plainPrimitives redeemAndReport).initial activityStart := by
  refine ⟨fun sid r hr => ?_, rfl, rfl⟩
  have hupserted : ((∅ : Table Uuid SessionRow).upsert (Uuid.numbered 2) usedSession).find? sid =
      some r := hr
  rw [Table.find?_upsert, Table.find?_empty] at hupserted
  split_ifs at hupserted
  cases hupserted
  exact le_rfl

/-- The id token and the verdict that two requests have been answered with fit together. -/
def addressed (earlier later : Config Bool ActivityCommand ActivityCommand.Reply Sso Answer) : Bool :=
  match earlier.requests false, later.requests true with
  | .done (.response (.tokens idToken _)), .done (.gone verdict) =>
    decide (idToken.clientId = verdict.clientId) &&
      decide (Uuid.parse? verdict.sid = some idToken.sid)
  | _, _ => false

theorem addressed_iff {earlier later : Config Bool ActivityCommand ActivityCommand.Reply Sso Answer}
    (h : addressed earlier later = true) : ∃ idToken access verdict,
      earlier.requests false = .done (.response (.tokens idToken access)) ∧
      later.requests true = .done (.gone verdict) ∧ idToken.clientId = verdict.clientId ∧
      Uuid.parse? verdict.sid = some idToken.sid := by
  unfold addressed at h
  split at h
  · next idToken access verdict hearlier hlater =>
    rw [Bool.and_eq_true, decide_eq_true_eq, decide_eq_true_eq] at h
    exact ⟨idToken, access, verdict, hearlier, hlater, h.1, h.2⟩
  · cases h

/-- An update of the report finds no row although the session is live. -/
def deniesLive (x : Sso × Entry Bool ActivityCommand ActivityCommand.Reply) : Bool :=
  match x with
  | (s, ⟨true, .report r, some false⟩) => (loadSessionBySid s r.windows r.sid).isSome
  | _ => false

theorem deniesLive_iff {x : Sso × Entry Bool ActivityCommand ActivityCommand.Reply}
    (h : deniesLive x = true) : ∃ s r, x = (s, ⟨true, .report r, some false⟩) ∧
      (loadSessionBySid s r.windows r.sid).isSome = true := by
  unfold deniesLive at h
  split at h
  · exact ⟨_, _, rfl, h⟩
  · cases h

/-- The report comes before the append is executed: the client that has just been issued an
id token is told that its live session is gone. -/
theorem live_session_declared_gone :
    ∃ start earlier mid later cfg, (activityRuns plainPrimitives redeemAndReport).initial start ∧
      Exec (activityRuns plainPrimitives redeemAndReport) start earlier mid ∧
      Exec (activityRuns plainPrimitives redeemAndReport) mid later cfg ∧
      ∃ idToken access verdict s r,
        mid.requests false = .done (.response (.tokens idToken access)) ∧
        cfg.requests true = .done (.gone verdict) ∧ idToken.clientId = verdict.clientId ∧
        Uuid.parse? verdict.sid = some idToken.sid ∧
        (s, ⟨true, .report r, some false⟩) ∈ recorded later ∧
        (loadSessionBySid s r.windows r.sid).isSome = true := by
  have hruns : ((stepsOf false 14).foldlM (activityServer plainPrimitives).faulty.step
      activityStart).any (fun mid => ((stepsOf true 10).foldlM
        (activityServer plainPrimitives).faulty.stepRecorded (mid, [])).any fun so =>
          addressed mid so.1 && so.2.any deniesLive) = true := by
    decide +kernel
  obtain ⟨mid, hmid, hlater⟩ := (Option.any_eq_true ..).mp hruns
  obtain ⟨⟨cfg, hist⟩, hcfg, hboth⟩ := (Option.any_eq_true ..).mp hlater
  rw [Bool.and_eq_true] at hboth
  obtain ⟨earlier, hearlier⟩ := Server.exec_of_moves hmid
    (fun s => ∀ sid r, s.sessions.find? sid = some r → r.lastSeen ≤ s.clock)
    fun i => (redeemAndReport i).program plainPrimitives
  obtain ⟨later, hexec, rfl⟩ := Server.exec_of_moves_recorded hcfg
    (fun s => ∀ sid r, s.sessions.find? sid = some r → r.lastSeen ≤ s.clock)
    fun i => (redeemAndReport i).program plainPrimitives
  obtain ⟨idToken, access, verdict, htokens, hgone, hclient, hsid⟩ := addressed_iff hboth.1
  obtain ⟨x, hx, hdenies⟩ := List.any_eq_true.mp hboth.2
  obtain ⟨s, r, rfl, hlive⟩ := deniesLive_iff hdenies
  exact ⟨activityStart, earlier, mid, later, cfg, activityStart_initial, hearlier, hexec, idToken,
    access, verdict, s, r, htokens, hgone, hclient, hsid, hx, hlive⟩

/-- The append is executed, and the session has long been idle when it is reported. -/
theorem session_activity_idle :
    ∃ start trace cfg, (activityRuns plainPrimitives redeemAndReport).initial start ∧
      Exec (activityRuns plainPrimitives redeemAndReport) start trace cfg ∧
      ∃ verdict s r, cfg.requests true = .done (.gone verdict) ∧
        (s, ⟨true, .report r, some false⟩) ∈ recorded trace ∧
        loadSessionBySid s r.windows r.sid = none := by
  have hruns : ((stepsOf false 14 ++ [Move.drift (ActivityDrift.sso (.settle 0 true)),
      Move.drift (ActivityDrift.sso (.tick 1000000000))]).foldlM
        ((activityServer plainPrimitives).faulty.stepMeeting
        (recordedFirst redeemAndReport)) activityStart).any (fun mid => ((stepsOf true 10).foldlM
          ((activityServer plainPrimitives).faulty.stepMeeting
            (recordedFirst redeemAndReport)) mid).any fun cfg =>
              addressed mid cfg && !(mid.requests true).ended) = true := by
    decide +kernel
  obtain ⟨mid, hmid, hlater⟩ := (Option.any_eq_true ..).mp hruns
  obtain ⟨cfg, hcfg, hboth⟩ := (Option.any_eq_true ..).mp hlater
  rw [Bool.and_eq_true, Bool.not_eq_true'] at hboth
  obtain ⟨earlier, hearlier, hmeets⟩ := Server.exec_of_moves_meeting hmid
    (fun s => ∀ sid r, s.sessions.find? sid = some r → r.lastSeen ≤ s.clock)
    fun i => (redeemAndReport i).program plainPrimitives
  obtain ⟨later, hexec, hmeets'⟩ := Server.exec_of_moves_meeting hcfg
    (fun s => ∀ sid r, s.sessions.find? sid = some r → r.lastSeen ≤ s.clock)
    fun i => (redeemAndReport i).program plainPrimitives
  obtain ⟨idToken, access, verdict, htokens, hgone, hclient, hsid⟩ := addressed_iff hboth.1
  have hwaiting : mid.requests true ≠ .done (.gone verdict) := by
    intro hdone
    rw [hdone] at hboth
    cases hboth.2
  obtain ⟨e, he, hissues⟩ := hexec.enters
    (Q := fun cfg => cfg.requests true = .done (.gone verdict)) hwaiting hgone
  obtain ⟨first, second, -, hfirst, hstep, -⟩ := hexec.split he
  have hrun : Exec (activityRuns plainPrimitives redeemAndReport) activityStart (earlier ++ later)
      cfg := hearlier.append hexec
  obtain ⟨s, r, hmem, -, -, hdead⟩ := (session_activity plainPrimitives redeemAndReport
    activityStart_initial hrun).2.2.2
    (fun e he => (List.mem_append.mp he).elim (hmeets e) (hmeets' e)) e (List.mem_append_right _ he)
    true verdict hissues
    ⟨false, oneCodeBody, idToken, access, rfl, Server.done_kept (hfirst.snoc hstep) htokens, hclient,
      hsid⟩
  exact ⟨activityStart, earlier ++ later, cfg, activityStart_initial, hrun, verdict, s, r, hgone, hmem,
    hdead⟩

end Examples

end DreamSso.Activity
