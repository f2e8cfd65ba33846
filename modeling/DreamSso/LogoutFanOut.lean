import DreamSso.AccountRoutes
import DreamSso.CodeRedemption
import DreamSso.Library.GuardedRuns
import DreamSso.OutboxEnqueue

/-!
Back-channel logout when a session ends. A token request records its client under the
session by a statement it does not wait for; whatever deletes sessions gets their clients
back with the rows and enqueues a logout for each of them.
-/
namespace DreamSso

open Interleaving JsStrings KeyedTables Transitions

section Phases

/-- How far a request is: it has had its client recorded, or it has deleted sessions and
these logouts are still to be enqueued. -/
inductive FanOutPhase
  | quiet
  | recorded (sid : Uuid) (clientId : ClientId)
  | revoking (todo : List (ClientId × Uuid × JsString))

def logouts (revoked : List RevokedSession) : List (ClientId × Uuid × JsString) :=
  revoked.flatMap fun r => r.clients.map fun clientId => (clientId, r.userSub, r.sid.text)

/-- The logouts that follow a deletion; one session is told of by the text that named it. -/
def logoutsOf : SessionFilter → List RevokedSession → List (ClientId × Uuid × JsString)
  | .one sid sub, revoked => match revoked with
    | [] => []
    | r :: _ => r.clients.map fun clientId => (clientId, sub, sid)
  | _, revoked => logouts revoked

def FanOutPhase.next : FanOutPhase → (c : Command) → Option c.Reply → FanOutPhase
  | _, .appendClient sid clientId, some _ => .recorded sid clientId
  | _, .deleteSessions filter, some revoked => .revoking (logoutsOf filter revoked)
  | .revoking (_ :: rest), .enqueueLogout _ _ _, _ => .revoking rest
  | g, _, _ => g

def FanOutPhase.Allows : FanOutPhase → Command → Prop
  | g, .appendClient _ _ => g = .quiet
  | g, .deleteSessions _ => g = .quiet
  | g, .enqueueLogout clientId sub sid => ∃ rest, g = .revoking ((clientId, sub, sid) :: rest)
  | _, .insertSession _ => False
  | _, .roleTransaction _ => False
  | _, _ => True

def fanOutProtocol : Protocol Command Command.Reply FanOutPhase where
  next := FanOutPhase.next
  ok := FanOutPhase.Allows

/-- No logout is left to be enqueued. -/
def FanOutPhase.Settled (g : FanOutPhase) : Prop := ∀ x rest, g ≠ .revoking (x :: rest)

/-- A request ends when its logouts are enqueued, and answers with tokens when its client has
been recorded. -/
def fanOutPost (g : FanOutPhase) (a : Option Response) : Prop :=
  g.Settled ∧ ∀ idToken accessToken, a = some (.tokens idToken accessToken) →
    g = .recorded idToken.sid idToken.clientId

def KeepsFanOut (g : FanOutPhase) (p : Handler Response) : Prop :=
  fanOutProtocol.Obeys fanOutPost g p

/-- The command has nothing to do with the clients of a session or the events for them. -/
def Command.apart : Command → Bool
  | .appendClient _ _ | .deleteSessions _ | .enqueueLogout _ _ _ => false
  | .insertSession _ | .roleTransaction _ => false
  | _ => true

theorem Command.apart_of_plain {c : Command} (h : c.plain = true) : c.apart = true := by
  cases c <;> first | exact absurd h Bool.false_ne_true | rfl

variable {g : FanOutPhase} {P : Primitives}

theorem apart_keeps (c : Command) (hc : c.apart = true) :
    fanOutProtocol.ok g c ∧ ∀ r, fanOutProtocol.next g c r = g := by
  cases c with
  | appendClient sid clientId => cases hc
  | deleteSessions filter => cases hc
  | enqueueLogout clientId sub sid => cases hc
  | insertSession session => cases hc
  | roleTransaction transaction => cases hc
  | _ =>
    refine ⟨trivial, fun r => ?_⟩
    rcases g with _ | _ | ⟨_ | _⟩ <;> rfl

theorem settled_quiet : FanOutPhase.quiet.Settled := nofun

theorem settled_recorded {sid : Uuid} {clientId : ClientId} :
    (FanOutPhase.recorded sid clientId).Settled := nofun

theorem settled_revoking : (FanOutPhase.revoking []).Settled := nofun

theorem post_none (hg : g.Settled) : fanOutPost g none := by
  refine ⟨hg, fun idToken accessToken h => ?_⟩
  cases h

theorem keeps_answer {a : Response} (hg : g.Settled)
    (ha : ∀ idToken accessToken, a ≠ .tokens idToken accessToken) :
    KeepsFanOut g (pure a) := by
  refine ⟨hg, fun idToken accessToken h => ?_⟩
  exact absurd (Option.some.inj h) (ha idToken accessToken)

theorem keeps_failed {refusal : Refusal} (hg : g.Settled) :
    KeepsFanOut g (pure (.failed refusal)) :=
  keeps_answer hg fun _ _ h => by cases h

theorem keeps_noContent (hg : g.Settled) : KeepsFanOut g (pure .noContent) :=
  keeps_answer hg fun _ _ h => by cases h

theorem keeps_apart {p : Handler α} {f : α → Handler Response} (hg : g.Settled)
    (h : p.Only fun c => c.apart = true) (hf : ∀ a, KeepsFanOut g (f a)) :
    KeepsFanOut g (p >>= f) :=
  Protocol.Obeys.only_bind h apart_keeps (post_none hg) hf

theorem keeps_plain {p : Handler α} {f : α → Handler Response} (hg : g.Settled)
    (h : p.Only fun c => c.plain = true) (hf : ∀ a, KeepsFanOut g (f a)) :
    KeepsFanOut g (p >>= f) :=
  keeps_apart hg (h.mono fun _ => Command.apart_of_plain) hf

theorem keeps_fanOutLogout {sub : Uuid} {sid : JsString} {clients : List ClientId}
    {todo : List (ClientId × Uuid × JsString)} {f : Unit → Handler Response}
    (hf : KeepsFanOut (.revoking todo) (f ())) :
    KeepsFanOut (.revoking (clients.map (fun clientId => (clientId, sub, sid)) ++ todo))
      (fanOutLogout sub sid clients >>= f) := by
  induction clients with
  | nil => exact hf
  | cons clientId rest ih =>
    rw [fanOutLogout, Prog.bind_assoc]
    exact Protocol.obeys_attempt_bind.mpr ⟨⟨_, rfl⟩, fun _ => ih⟩

theorem keeps_fanOutAll {revoked : List RevokedSession} {f : Unit → Handler Response}
    (hf : KeepsFanOut (.revoking []) (f ())) :
    KeepsFanOut (.revoking (logouts revoked)) (fanOutAll revoked >>= f) := by
  induction revoked with
  | nil => exact hf
  | cons r rest ih =>
    rw [fanOutAll, Prog.bind_assoc]
    exact keeps_fanOutLogout ih

theorem consumeCode_apart (code : JsString) :
    (consumeCode code).Only fun c => c.apart = true := by
  refine only_await_bind rfl fun found => ?_
  split
  · trivial
  · exact only_await_bind rfl fun _ => trivial

/-- From the code on the client is recorded first, and the tokens are minted after it. -/
theorem keeps_issueTokens (b : TokenBody) (clientId : ClientId) (ac : AuthCode) :
    KeepsFanOut .quiet (issueTokens P b clientId ac) := by
  unfold issueTokens
  split
  · exact keeps_failed settled_quiet
  · refine keeps_plain settled_quiet (identityClaims_only ac) fun identity => ?_
    rw [sessionClaims, Prog.bind_assoc]
    refine Protocol.obeys_await_bind.mpr ⟨rfl, post_none settled_quiet, fun _ => ?_⟩
    show KeepsFanOut (.recorded ac.sid clientId) _
    refine keeps_plain settled_recorded ?_ fun extra => ?_
    · refine only_await_bind rfl fun row => ?_
      split
      · trivial
      · exact getSessionWindows_only.bind fun _ => trivial
    · refine keeps_plain settled_recorded (roleClaims_only _ _ _) fun claims => ?_
      split
      · exact keeps_failed settled_recorded
      · refine keeps_plain settled_recorded (only_await.mpr rfl) fun _ => ?_
        refine keeps_plain settled_recorded (only_await.mpr rfl) fun _ => ?_
        refine ⟨settled_recorded, fun idToken accessToken h => ?_⟩
        obtain ⟨rfl, -⟩ := Response.tokens.inj (Option.some.inj h)
        rfl

theorem keeps_postToken (b : TokenBody) : KeepsFanOut .quiet (postToken P b) := by
  unfold postToken
  split
  · exact keeps_failed settled_quiet
  · refine keeps_plain settled_quiet authenticateClient_only fun client => ?_
    split
    · exact keeps_failed settled_quiet
    · refine keeps_apart settled_quiet (consumeCode_apart _) fun found => ?_
      split
      · exact keeps_failed settled_quiet
      · exact keeps_issueTokens b _ _

theorem keeps_deletion {filter : SessionFilter} {f : List RevokedSession → Handler Response}
    (hf : ∀ revoked, KeepsFanOut (.revoking (logoutsOf filter revoked)) (f revoked)) :
    KeepsFanOut .quiet (await (.deleteSessions filter) >>= f) :=
  Protocol.obeys_await_bind.mpr ⟨rfl, post_none settled_quiet, hf⟩

theorem keeps_deleteAccountSession (sub : Uuid) (sid : JsString) :
    KeepsFanOut .quiet (deleteAccountSession sub sid) := by
  unfold deleteAccountSession
  refine keeps_plain settled_quiet (only_await.mpr rfl) fun allowed => ?_
  split
  · exact keeps_failed settled_quiet
  · split
    · exact keeps_failed settled_quiet
    · refine keeps_deletion fun revoked => ?_
      cases revoked with
      | nil => exact keeps_failed settled_revoking
      | cons r rest =>
        have hall : KeepsFanOut
            (.revoking (r.clients.map (fun clientId => (clientId, sub, sid)) ++ []))
            (fanOutLogout sub sid r.clients >>= fun _ => pure .noContent) :=
          keeps_fanOutLogout (keeps_noContent settled_revoking)
        rw [List.append_nil] at hall
        exact hall

theorem keeps_terminateOthers (sub : Uuid) (keepSid : JsString) :
    KeepsFanOut .quiet (terminateOthers sub keepSid) := by
  unfold terminateOthers
  refine keeps_plain settled_quiet (only_await.mpr rfl) fun allowed => ?_
  split
  · exact keeps_failed settled_quiet
  · split
    · exact keeps_failed settled_quiet
    · exact keeps_deletion fun revoked =>
        keeps_fanOutAll (keeps_noContent settled_revoking)

theorem keeps_revokeOthers (sub : Uuid) (stepupSid : JsString) :
    KeepsFanOut .quiet (do
      let revoked ← revokeOthers sub stepupSid
      fanOutAll revoked
      pure Response.noContent) := by
  have hrest : ∀ revoked, KeepsFanOut (.revoking (logouts revoked)) (do
      fanOutAll revoked
      pure Response.noContent) := fun revoked =>
    keeps_fanOutAll (keeps_noContent settled_revoking)
  unfold revokeOthers
  split
  · split
    · exact post_none settled_quiet
    · exact keeps_deletion hrest
  · exact keeps_deletion hrest

theorem keeps_postAccountPassword (sub : Uuid) (newPassword : Option JsString)
    (stepupSid : JsString) :
    KeepsFanOut .quiet (postAccountPassword sub newPassword stepupSid) := by
  unfold postAccountPassword
  refine keeps_plain settled_quiet (only_await.mpr rfl) fun allowed => ?_
  split
  · exact keeps_failed settled_quiet
  · split
    · exact keeps_failed settled_quiet
    · refine keeps_plain settled_quiet (only_await.mpr rfl) fun row => ?_
      split
      · exact keeps_failed settled_quiet
      · refine keeps_plain settled_quiet (only_await.mpr rfl) fun hash => ?_
        refine keeps_apart settled_quiet (only_await.mpr rfl) fun _ => ?_
        exact keeps_revokeOthers sub stepupSid

/-- Pruning as a request that answers nothing. -/
def prune : Handler Response := do
  cleanExpiredSessions
  pure .noContent

theorem keeps_prune : KeepsFanOut .quiet prune := by
  rw [prune, cleanExpiredSessions, Prog.bind_assoc]
  refine keeps_plain settled_quiet getSessionWindows_only fun windows => ?_
  rw [Prog.bind_assoc]
  refine keeps_plain settled_quiet (only_await.mpr rfl) fun now => ?_
  rw [Prog.bind_assoc]
  exact keeps_deletion fun revoked =>
      keeps_fanOutAll (keeps_noContent settled_revoking)

theorem portalAssertion_apart (body : ResetBody) :
    (isPortalAssertion P body).Only fun c => c.apart = true := by
  unfold isPortalAssertion
  split
  · trivial
  · split_ifs
    · trivial
    · refine only_await_bind rfl fun client => ?_
      split
      · trivial
      · split_ifs
        · trivial
        · refine only_await_bind rfl fun keySet => ?_
          split_ifs
          · trivial
          · exact only_await.mpr rfl

theorem getResetToken_apart (token : JsString) :
    (getResetToken P token).Only fun c => c.apart = true := by
  unfold getResetToken
  split
  · trivial
  · exact only_await_bind rfl fun _ => trivial

theorem resetIdentity_apart (token : JsString) :
    (resetIdentity P token).Only fun c => c.apart = true := by
  refine (getResetToken_apart token).bind fun found => ?_
  split
  · trivial
  · exact Prog.Only.bind (only_await_bind rfl fun _ => trivial) fun _ => trivial

theorem challengeFailed_apart (record : ResetTokenRecord) (hash : Digest) :
    (challengeFailed record hash).Only fun c => c.apart = true := by
  refine Prog.Only.bind ?_ fun left => trivial
  unfold bumpResetAttempts
  dsimp only
  split
  · exact only_await_bind rfl fun _ => trivial
  · exact only_await_bind rfl fun _ => trivial

theorem verifyLoginAssertion_apart (assertion : Assertion) (challenge : JsString)
    (sub : Option Uuid) :
    (verifyLoginAssertion assertion challenge sub).Only fun c => c.apart = true := by
  unfold verifyLoginAssertion
  split
  · trivial
  · refine only_await_bind rfl fun row => ?_
    split
    · trivial
    · split
      · trivial
      · refine Prog.Only.bind (only_attempt.mpr (only_await.mpr rfl)) fun verified => ?_
        split
        · trivial
        · trivial
        · refine Prog.Only.bind (only_attempt.mpr (only_await.mpr rfl)) fun counted => ?_
          split <;> trivial

theorem challengeFor_apart (row : IdentityRow) :
    (challengeFor row).Only fun c => c.apart = true := by
  unfold challengeFor
  split
  · trivial
  · exact only_await_bind rfl fun _ => only_await_bind rfl fun _ => trivial

theorem confirmTotp_apart (body : ResetBody) (record : ResetTokenRecord) (hash : Digest)
    (row : IdentityRow) : (confirmTotp body record hash row).Only fun c => c.apart = true := by
  unfold confirmTotp
  split
  · exact challengeFailed_apart record hash
  · refine only_await_bind rfl fun valid => ?_
    split
    · trivial
    · exact challengeFailed_apart record hash

theorem confirmPasskey_apart (body : ResetBody) (record : ResetTokenRecord) (hash : Digest)
    (row : IdentityRow) : (confirmPasskey body record hash row).Only fun c => c.apart = true := by
  refine only_await_bind rfl fun expected => ?_
  split
  · trivial
  · split
    · exact challengeFailed_apart record hash
    · refine (verifyLoginAssertion_apart _ _ _).bind fun verified => ?_
      split
      · exact challengeFailed_apart record hash
      · trivial

theorem confirmChallenge_apart (body : ResetBody) (record : ResetTokenRecord) (hash : Digest)
    (row : IdentityRow) :
    (confirmChallenge body record hash row).Only fun c => c.apart = true := by
  refine (challengeFor_apart row).bind fun methods => ?_
  split
  · trivial
  · split
    · exact (confirmTotp_apart body record hash row).bind fun _ => trivial
    · split
      · exact (confirmPasskey_apart body record hash row).bind fun _ => trivial
      · trivial

theorem keeps_postConfirm (body : ResetBody) : KeepsFanOut .quiet (postConfirm P body) := by
  unfold postConfirm
  refine keeps_apart settled_quiet (portalAssertion_apart body) fun portal => ?_
  split
  · exact keeps_failed settled_quiet
  · refine keeps_apart settled_quiet (resetIdentity_apart body.token) fun found => ?_
    split
    · exact keeps_failed settled_quiet
    · next record hash row =>
      split
      · exact keeps_failed settled_quiet
      · refine keeps_apart settled_quiet (confirmChallenge_apart body record hash row) fun amr => ?_
        split
        · exact keeps_failed settled_quiet
        · unfold completeReset
          refine keeps_plain settled_quiet (only_await.mpr rfl) fun passwordHash => ?_
          refine keeps_apart settled_quiet (only_await.mpr rfl) fun _ => ?_
          refine keeps_apart settled_quiet (only_await.mpr rfl) fun _ => ?_
          refine keeps_deletion fun revoked => keeps_fanOutAll ?_
          refine keeps_apart settled_revoking ?_ fun ticket => ?_
          · exact only_await_bind rfl fun _ => only_await_bind rfl fun _ => trivial
          · exact keeps_answer settled_revoking fun _ _ h => by cases h

end Phases

inductive LogoutCall
  | code (data : AuthCode)
  | token (body : TokenBody)
  | terminate (sub : Uuid) (sid : JsString)
  | terminateOthers (sub : Uuid) (keepSid : JsString)
  | password (sub : Uuid) (newPassword : Option JsString) (stepupSid : JsString)
  | reset (body : ResetBody)
  | prune

def LogoutCall.program (P : Primitives) : LogoutCall → Handler Response
  | .code data => do
      let _code ← createCode data
      pure .noContent
  | .token body => postToken P body
  | .terminate sub sid => deleteAccountSession sub sid
  | .terminateOthers sub keepSid => DreamSso.terminateOthers sub keepSid
  | .password sub newPassword stepupSid => postAccountPassword sub newPassword stepupSid
  | .reset body => postConfirm P body
  | .prune => DreamSso.prune

theorem keeps_logoutCall (P : Primitives) (call : LogoutCall) :
    KeepsFanOut .quiet (call.program P) := by
  cases call with
  | code data =>
    refine keeps_apart settled_quiet ?_ fun _ => keeps_noContent settled_quiet
    exact only_await_bind rfl fun _ => only_await_bind rfl fun _ => trivial
  | token body => exact keeps_postToken body
  | terminate sub sid => exact keeps_deleteAccountSession sub sid
  | terminateOthers sub keepSid => exact keeps_terminateOthers sub keepSid
  | password sub newPassword stepupSid => exact keeps_postAccountPassword sub newPassword stepupSid
  | reset body => exact keeps_postConfirm body
  | prune => exact keeps_prune

section Sessions

variable {P : Primitives} {out : Outside} {s s' : Sso} {sid : Uuid} {clientId : ClientId}
  {g : FanOutPhase} {c : Command}

/-- The clients recorded under the session, if it is there. -/
def clientsOf (s : Sso) (sid : Uuid) : Option (List ClientId) :=
  (s.sessions.find? sid).map fun r => r.clients

theorem clientsOf_same (h : s'.sessions = s.sessions) : clientsOf s' sid = clientsOf s sid := by
  rw [clientsOf, h]
  rfl

theorem clientsOf_updateSession {f : SessionRow → SessionRow} (sid' : Uuid)
    (hf : ∀ r, (f r).clients = r.clients) :
    clientsOf (s.updateSession sid' f) sid = clientsOf s sid := by
  have hfind : (s.updateSession sid' f).sessions.find? sid =
      (s.sessions.find? sid).map fun r => if decide (sid = sid') then f r else r :=
    Table.find?_updateWhere ..
  rw [clientsOf, hfind, Option.map_map, clientsOf]
  congr 1
  funext r
  show (if decide (sid = sid') then f r else r).clients = r.clients
  split
  · exact hf r
  · rfl

/-- The statement that records a client finds the session or does nothing. -/
theorem clientsOf_append (s : Sso) (a : PendingAppend) (sid : Uuid) :
    clientsOf (s.executeAppend a) sid = (clientsOf s sid).map fun clients =>
      if sid = a.sid ∧ a.clientId ∉ clients then clients ++ [a.clientId] else clients := by
  have hfind : (s.executeAppend a).sessions.find? sid = (s.sessions.find? sid).map fun r =>
      if decide (sid = a.sid) && !decide (a.clientId ∈ r.clients)
        then { r with clients := r.clients ++ [a.clientId] } else r :=
    Table.find?_updateWhere ..
  rw [clientsOf, hfind, Option.map_map, clientsOf, Option.map_map]
  congr 1
  funext r
  by_cases h : sid = a.sid ∧ a.clientId ∉ r.clients <;> simp [h]

theorem clientsOf_perform (hok : g.Allows c) (hc : ∀ filter, c ≠ .deleteSessions filter) :
    clientsOf (Sso.perform P out c s).2 sid = clientsOf s sid := by
  cases c with
  | deleteSessions filter => exact absurd rfl (hc filter)
  | insertSession session => exact absurd hok id
  | updateProfile sub changes =>
    apply clientsOf_same
    simp only [Sso.perform, Sso.updateProfile]
    split_ifs <;> rfl
  | persistSession sid' tokenHash =>
    simp only [Sso.perform]
    split_ifs
    · exact clientsOf_updateSession sid' fun _ => rfl
    · rfl
  | stampStepup sid' method => exact clientsOf_updateSession sid' fun _ => rfl
  | enqueueLogout clientId sub sid' =>
    apply clientsOf_same
    simp only [Sso.perform, Sso.enqueueLogout]
    split <;> rfl
  | _ => exact clientsOf_same rfl

/-- The statement deletes the row of the session. -/
def Command.deletesRow (s : Sso) (sid : Uuid) : Command → Bool
  | .deleteSessions filter => (s.sessions.find? sid).any fun row => filter.names sid row
  | _ => false

/-- The sessions are not told of by another text than theirs. -/
def SessionFilter.spells (sid : Uuid) : SessionFilter → Bool
  | .one text _ => decide (text = sid.text)
  | _ => true

theorem clientsOf_deleteSessions (filter : SessionFilter) :
    clientsOf (Sso.perform P out (.deleteSessions filter) s).2 sid =
      if (Command.deleteSessions filter).deletesRow s sid then none else clientsOf s sid := by
  show ((s.sessions.deleteWhere filter.names).find? sid).map _ = _
  rw [Table.find?_deleteWhere, clientsOf, Command.deletesRow]
  cases hfind : s.sessions.find? sid with
  | none => rfl
  | some row => cases hnames : filter.names sid row <;> simp [hnames]

theorem mem_revoked {filter : SessionFilter} {r : RevokedSession} :
    r ∈ s.revoked filter ↔ ∃ row, s.sessions.find? r.sid = some row ∧
      filter.names r.sid row = true ∧ r = ⟨row.userSub, r.sid, row.clients⟩ := by
  unfold Sso.revoked
  rw [List.mem_map]
  constructor
  · rintro ⟨⟨key, row⟩, hrow, rfl⟩
    obtain ⟨hmem, hnames⟩ := List.mem_filter.mp hrow
    exact ⟨row, (Table.mem_rows_iff _ _ _).mp hmem, hnames, rfl⟩
  · rintro ⟨row, hfind, hnames, hr⟩
    exact ⟨(r.sid, row),
      List.mem_filter.mpr ⟨(Table.mem_rows_iff _ _ _).mpr hfind, hnames⟩, hr.symm⟩

theorem mem_logouts {revoked : List RevokedSession} {sub : Uuid} {text : JsString} :
    (clientId, sub, text) ∈ logouts revoked ↔
      ∃ r ∈ revoked, clientId ∈ r.clients ∧ sub = r.userSub ∧ text = r.sid.text := by
  simp only [logouts, List.mem_flatMap, List.mem_map, Prod.mk.injEq]
  constructor
  · rintro ⟨r, hr, _, hclient, rfl, rfl, rfl⟩
    exact ⟨r, hr, hclient, rfl, rfl⟩
  · rintro ⟨r, hr, hclient, rfl, rfl⟩
    exact ⟨r, hr, clientId, hclient, rfl, rfl, rfl⟩

theorem mem_logoutsOf_one {text told : JsString} {sub sub' : Uuid} {revoked : List RevokedSession} :
    (clientId, sub', told) ∈ logoutsOf (.one text sub) revoked ↔
      ∃ r, revoked.head? = some r ∧ clientId ∈ r.clients ∧ sub' = sub ∧ told = text := by
  cases revoked with
  | nil => simp [logoutsOf]
  | cons r rest => simp [logoutsOf, eq_comm]

theorem revoked_inj {filter : SessionFilter} {r r' : RevokedSession} (h : r ∈ s.revoked filter)
    (h' : r' ∈ s.revoked filter) (hsid : r.sid = r'.sid) : r = r' := by
  obtain ⟨row, hrow, -, hr⟩ := mem_revoked.mp h
  obtain ⟨row', hrow', -, hr'⟩ := mem_revoked.mp h'
  rw [← hsid, hrow] at hrow'
  rw [hr, hr', Option.some.inj hrow', hsid]

/-- A text names one session. -/
theorem revoked_one {text : JsString} {sub : Uuid} {r : RevokedSession}
    (h : r ∈ s.revoked (.one text sub)) : Uuid.parse? text = some r.sid := by
  obtain ⟨row, -, hnames, -⟩ := mem_revoked.mp h
  simp only [SessionFilter.names, Bool.and_eq_true, decide_eq_true_eq] at hnames
  exact hnames.1

/-- The clients of a row go with it. -/
theorem mem_logouts_revoked (filter : SessionFilter) :
    (∃ sub, (clientId, sub, sid.text) ∈ logouts (s.revoked filter)) ↔
      (Command.deleteSessions filter).deletesRow s sid = true ∧
        ∃ clients, clientsOf s sid = some clients ∧ clientId ∈ clients := by
  have hdeletes : ∀ row, s.sessions.find? sid = some row →
      ((Command.deleteSessions filter).deletesRow s sid = true ↔ filter.names sid row = true) := by
    intro row hrow
    simp [Command.deletesRow, hrow]
  simp only [mem_logouts]
  constructor
  · rintro ⟨_, r, hr, hclient, -, htext⟩
    obtain ⟨row, hrow, hnames, hr⟩ := mem_revoked.mp hr
    rw [← Uuid.text_injective htext] at hrow hnames
    rw [hr] at hclient
    exact ⟨(hdeletes row hrow).mpr hnames, row.clients, by simp [clientsOf, hrow], hclient⟩
  · rintro ⟨hgone, clients, hclients, hclient⟩
    obtain ⟨row, hrow, rfl⟩ := Option.map_eq_some_iff.mp hclients
    refine ⟨row.userSub, ⟨row.userSub, sid, row.clients⟩, mem_revoked.mpr ⟨row, hrow, ?_, rfl⟩,
      hclient, rfl, rfl⟩
    exact (hdeletes row hrow).mp hgone

/-- Who is told of the session after a deletion: the clients its row had, unless another text
than its own stands for it. -/
theorem told_by_deletion (filter : SessionFilter) :
    (∃ sub, (clientId, sub, sid.text) ∈ logoutsOf filter (s.revoked filter)) ↔
      ((Command.deleteSessions filter).deletesRow s sid = true ∧
        ∃ clients, clientsOf s sid = some clients ∧ clientId ∈ clients) ∧
        filter.spells sid = true := by
  have hall := @mem_logouts_revoked s sid clientId filter
  cases filter with
  | one text sub =>
    simp only [mem_logoutsOf_one, SessionFilter.spells, decide_eq_true_eq]
    constructor
    · rintro ⟨_, r, hhead, hclient, -, rfl⟩
      have hr := List.mem_of_head? hhead
      have hsid := revoked_one hr
      rw [Uuid.parse?_text] at hsid
      refine ⟨hall.mp ⟨r.userSub, mem_logouts.mpr ⟨r, hr, hclient, rfl, ?_⟩⟩, rfl⟩
      rw [Option.some.inj hsid]
    · rintro ⟨hrow, rfl⟩
      obtain ⟨_, htold⟩ := hall.mpr hrow
      obtain ⟨r, hr, hclient, -, -⟩ := mem_logouts.mp htold
      refine ⟨sub, r, ?_, hclient, rfl, rfl⟩
      cases hrevoked : s.revoked (.one sid.text sub) with
      | nil =>
        rw [hrevoked] at hr
        cases hr
      | cons first rest =>
        have hfirst : first ∈ s.revoked (.one sid.text sub) := by simp [hrevoked]
        have hsame := (revoked_one hfirst).symm.trans (revoked_one hr)
        rw [List.head?_cons, revoked_inj hfirst hr (Option.some.inj hsame)]
  | ofUser sub => exact hall.trans (and_iff_left rfl).symm
  | ofUserExcept sub keep => exact hall.trans (and_iff_left rfl).symm
  | expired idle max transient => exact hall.trans (and_iff_left rfl).symm

end Sessions

end DreamSso
