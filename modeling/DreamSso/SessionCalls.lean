import DreamSso.BffSessions
import DreamSso.Library.GuardedRuns

/-!
Concurrent calls of the session functions. Each call goes through a few phases;
what one command does to the store and to the phase of its call is stated once.
-/
namespace DreamSso.Bff

open Interleaving JsStrings Transitions

inductive SessionCall
  | create (data : SessionData) (ttlSeconds : ℕ)
  | get (sid : JsString)
  | update (sid : JsString) (data : SessionData)
  | refresh (sid : JsString)
  | destroy (sid : JsString)
  | revoke (ssoSid : JsString)
  deriving DecidableEq

inductive SessionAnswer
  | created (sid : JsString)
  | found (session : Option SessionData)
  | done
  | revoked (count : ℕ)
  deriving DecidableEq

def SessionCall.program (P : Primitives) : SessionCall → Handler SessionAnswer
  | .create data ttlSeconds => do
      let sid ← createSession data ttlSeconds
      pure (.created sid)
  | .get sid => do
      let session ← getSession sid
      pure (.found session)
  | .update sid data => do
      updateSession P sid data
      pure .done
  | .refresh sid => do
      let session ← requireSession P sid
      pure (.found session)
  | .destroy sid => do
      destroySession sid
      pure .done
  | .revoke ssoSid => do
      let count ← revokeBySsoSid ssoSid
      pure (.revoked count)

/-- The SSO session whose index the created session belongs in. -/
def SessionCall.boundTo : SessionCall → Option JsString
  | .create data _ => data.indexed
  | _ => none

/-- The SSO session whose sessions are revoked. -/
def SessionCall.revokes : SessionCall → Option JsString
  | .revoke ssoSid => some ssoSid
  | _ => none

/-- A creation has drawn its id, stored its session, listed it in the index; a
revocation has read the index, deleted what it lists; an update has read the time
to live. -/
inductive SessionPhase
  | before
  | drawn (sid : JsString)
  | stored (sid : JsString)
  | listed (sid : JsString)
  | read (sids : List JsString)
  | cleared
  | timed (sid : JsString) (ttl : ℤ)
  | ended
  deriving DecidableEq

namespace SessionPhase

/-- The creation has drawn its id and not listed its session yet. -/
def creating : SessionPhase → Bool
  | drawn _ => true
  | stored _ => true
  | _ => false

/-- The revocation has read the index and not deleted it yet. -/
def revoking : SessionPhase → Bool
  | read _ => true
  | cleared => true
  | _ => false

/-- The id the creation has drawn. -/
def sid? : SessionPhase → Option JsString
  | drawn sid => some sid
  | stored sid => some sid
  | listed sid => some sid
  | _ => none

/-- The id of a session the creation has stored. -/
def created : SessionPhase → Option JsString
  | stored sid => some sid
  | listed sid => some sid
  | _ => none

/-- What an update that has read the time to live is about to write. -/
def pending : SessionPhase → Option (JsString × ℤ)
  | timed sid ttl => some (sid, ttl)
  | _ => none

def afterRead (sids : List JsString) : SessionPhase := if sids = [] then .cleared else .read sids

theorem sid?_of_created {g : SessionPhase} {sid : JsString} (h : g.created = some sid) :
    g.sid? = some sid := by
  cases g with
  | stored sid' => exact h
  | listed sid' => exact h
  | _ => cases h

end SessionPhase

def sessionProtocol (P : Primitives) (call : SessionCall) :
    Protocol Command Command.Reply SessionPhase where
  next
    | .before, .randomBytes, some sid => .drawn sid
    | .before, .smembers _, some sids => .afterRead sids
    | .before, .ttl sid, some ttl => .timed sid ttl
    | .drawn sid, .setSession _ _ _, some _ => .stored sid
    | .stored sid, .sadd _ _, _ => .listed sid
    | .listed sid, .expire _ _, _ => .listed sid
    | .read _, .del _, _ => .cleared
    | .before, _, _ => .before
    | _, _, _ => .ended
  ok
    | .before, .randomBytes => ∃ data ttlSeconds, call = .create data ttlSeconds
    | .drawn sid, .setSession sid' data ttlSeconds => sid' = sid ∧ call = .create data ttlSeconds
    | .stored sid, .sadd ssoSid sid' => sid' = sid ∧ call.boundTo = some ssoSid
    | .listed _, .expire k ttlSeconds =>
        ∃ data ssoSid, call = .create data ttlSeconds ∧ k = .ssoSid ssoSid
    | .before, .smembers ssoSid => call.revokes = some ssoSid
    | .read sids, .del keys => keys = sids.map .session
    | .cleared, .del keys => ∃ ssoSid, call.revokes = some ssoSid ∧ keys = [.ssoSid ssoSid]
    | .before, .ttl _ => True
    | .timed sid ttl, .setSession sid' _ ttlSeconds =>
        sid' = sid ∧ ttlSeconds = updateTtl P ttl ∧ ∀ data t, call ≠ .create data t
    | .before, .del keys => ∃ sid, keys = [.session sid]
    | .before, .getSession _ => True
    | .before, .renew _ => True
    | .before, .dateNow => True
    | _, _ => False

section Program

variable {P : Primitives} {call : SessionCall}

theorem createSession_obeys (data : SessionData) (ttlSeconds : ℕ) :
    (sessionProtocol P (.create data ttlSeconds)).Obeys (fun _ _ => True) .before
      (createSession data ttlSeconds) := by
  refine Protocol.obeys_await_bind.mpr ⟨⟨data, ttlSeconds, rfl⟩, trivial, fun sid => ?_⟩
  refine Protocol.obeys_await_bind.mpr ⟨⟨rfl, rfl⟩, trivial, fun _ => ?_⟩
  show (sessionProtocol P (.create data ttlSeconds)).Obeys _ (.stored sid) _
  cases hbound : data.indexed with
  | none => trivial
  | some ssoSid =>
    refine Protocol.obeys_await_bind.mpr ⟨⟨rfl, hbound⟩, trivial, fun _ => ?_⟩
    exact Protocol.obeys_await_bind.mpr ⟨⟨data, ssoSid, rfl, rfl⟩, trivial, fun _ => trivial⟩

theorem revokeBySsoSid_obeys (ssoSid : JsString) :
    (sessionProtocol P (.revoke ssoSid)).Obeys (fun _ _ => True) .before
      (revokeBySsoSid ssoSid) := by
  refine Protocol.obeys_await_bind.mpr ⟨rfl, trivial, fun sids => ?_⟩
  change List JsString at sids
  show (sessionProtocol P (.revoke ssoSid)).Obeys _ (.afterRead sids) _
  by_cases hempty : sids = []
  · rw [if_neg (not_not.mpr hempty), SessionPhase.afterRead, if_pos hempty]
    exact Protocol.obeys_await_bind.mpr ⟨⟨ssoSid, rfl, rfl⟩, trivial, fun _ => trivial⟩
  · rw [if_pos hempty, SessionPhase.afterRead, if_neg hempty]
    refine Protocol.obeys_await_bind.mpr ⟨rfl, trivial, fun _ => ?_⟩
    exact Protocol.obeys_await_bind.mpr ⟨⟨ssoSid, rfl, rfl⟩, trivial, fun _ => trivial⟩

theorem updateSession_obeys (hcall : ∀ data t, call ≠ .create data t) (sid : JsString)
    (data : SessionData) : (sessionProtocol P call).Obeys (fun _ _ => True) .before
      (updateSession P sid data) := by
  refine Protocol.obeys_await_bind.mpr ⟨trivial, trivial, fun ttl => ?_⟩
  exact Protocol.obeys_await.mpr ⟨⟨rfl, rfl, hcall⟩, fun _ => trivial⟩

theorem getSession_obeys {β : Type} {post : SessionPhase → Option β → Prop} (sid : JsString)
    {f : Option SessionData → Handler β} (hnone : post .before none)
    (hf : ∀ found, (sessionProtocol P call).Obeys post .before (f found)) :
    (sessionProtocol P call).Obeys post .before (getSession sid >>= f) := by
  unfold getSession
  split_ifs
  · exact hf none
  · exact Protocol.obeys_await_bind.mpr ⟨trivial, hnone, hf⟩

theorem renewAccessToken_obeys {β : Type} {post : SessionPhase → Option β → Prop} (s : SessionData)
    {f : Option SessionData → Handler β} (hnone : post .before none)
    (hf : ∀ found, (sessionProtocol P call).Obeys post .before (f found)) :
    (sessionProtocol P call).Obeys post .before (renewAccessToken s >>= f) := by
  unfold renewAccessToken
  split_ifs
  · exact hf none
  · rw [Interleaving.Prog.bind_assoc]
    refine Protocol.obeys_attempt_bind.mpr ⟨trivial, fun r => ?_⟩
    have hkept : (sessionProtocol P call).next .before (.renew s) r = .before := by
      cases r <;> rfl
    rw [hkept]
    generalize r.join.filter (fun d => decide (d.1 ≠ [])) = answer
    cases answer with
    | none => exact hf none
    | some answer =>
      show (sessionProtocol P call).Obeys post .before ((await .dateNow >>= _) >>= f)
      rw [Interleaving.Prog.bind_assoc]
      exact Protocol.obeys_await_bind.mpr ⟨trivial, hnone, fun now => hf _⟩

theorem requireSession_obeys (hcall : ∀ data t, call ≠ .create data t) (sid : JsString) :
    (sessionProtocol P call).Obeys (fun _ _ => True) .before (requireSession P sid) := by
  refine getSession_obeys sid trivial fun found => ?_
  cases found with
  | none => trivial
  | some sess =>
    refine Protocol.obeys_await_bind.mpr ⟨trivial, trivial, fun now => ?_⟩
    show (sessionProtocol P call).Obeys _ .before (ite _ _ _)
    split_ifs
    · refine renewAccessToken_obeys sess trivial fun renewed => ?_
      cases renewed with
      | none => trivial
      | some renewed =>
        refine Protocol.obeys_bind.mpr ((updateSession_obeys hcall sid renewed).mono ?_)
        intro g a _
        cases a <;> trivial
    · trivial

theorem destroySession_obeys (sid : JsString) :
    (sessionProtocol P call).Obeys (fun _ _ => True) .before (destroySession sid) := by
  unfold destroySession
  split_ifs
  · trivial
  · exact Protocol.obeys_await.mpr ⟨⟨sid, rfl⟩, fun _ => trivial⟩

theorem SessionCall.program_obeys (call : SessionCall) :
    (sessionProtocol P call).Obeys (fun _ _ => True) .before (call.program P) := by
  have hthen : ∀ {α : Type} {p : Handler α} {f : α → SessionAnswer},
      (sessionProtocol P call).Obeys (fun _ _ => True) .before p →
      (sessionProtocol P call).Obeys (fun _ _ => True) .before (p >>= fun a => pure (f a)) := by
    intro α p f hp
    refine Protocol.obeys_bind.mpr (hp.mono ?_)
    intro g a _
    cases a <;> trivial
  cases call with
  | create data ttlSeconds => exact hthen (createSession_obeys data ttlSeconds)
  | get sid => exact getSession_obeys sid trivial fun _ => trivial
  | update sid data =>
    exact hthen (updateSession_obeys (fun _ _ h => SessionCall.noConfusion h) sid data)
  | refresh sid => exact hthen (requireSession_obeys (fun _ _ h => SessionCall.noConfusion h) sid)
  | destroy sid => exact hthen (destroySession_obeys sid)
  | revoke ssoSid => exact hthen (revokeBySsoSid_obeys ssoSid)

end Program

/-- What one command of a call in a phase does: the reply, the store and the phase
after it. -/
inductive SessionStep (P : Primitives) (call : SessionCall) (s : BffDb) :
    SessionPhase → (c : Command) → Option c.Reply → BffDb → SessionPhase → Prop
  | draw (data : SessionData) (ttlSeconds : ℕ) (hcall : call = .create data ttlSeconds) :
      SessionStep P call s .before .randomBytes (some (P.randomBytes s.draws))
        { s with draws := s.draws + 1 } (.drawn (P.randomBytes s.draws))
  | store (sid : JsString) (data : SessionData) (ttlSeconds : ℕ)
      (hcall : call = .create data ttlSeconds) (hpos : ttlSeconds ≠ 0) :
      SessionStep P call s (.drawn sid) (.setSession sid data ttlSeconds) (some ())
        (s.storeSession sid data ttlSeconds) (.stored sid)
  | refuse (sid : JsString) (data : SessionData) (hcall : call = .create data 0) :
      SessionStep P call s (.drawn sid) (.setSession sid data 0) none s .ended
  | list (sid ssoSid : JsString) (hbound : call.boundTo = some ssoSid) :
      SessionStep P call s (.stored sid) (.sadd ssoSid sid) (some ()) (s.sadd ssoSid sid)
        (.listed sid)
  | limit (sid ssoSid : JsString) (data : SessionData) (ttlSeconds : ℕ)
      (hcall : call = .create data ttlSeconds) :
      SessionStep P call s (.listed sid) (.expire (.ssoSid ssoSid) ttlSeconds) (some ())
        (s.expire (.ssoSid ssoSid) ttlSeconds) (.listed sid)
  | read (ssoSid : JsString) (sids : List JsString) (hrevokes : call.revokes = some ssoSid)
      (hsids : (ExpiringStore.get s.redis s.clock (.ssoSid ssoSid)).getD [] = sids) :
      SessionStep P call s .before (.smembers ssoSid) (some sids) s (.afterRead sids)
  | clear (sids : List JsString) :
      SessionStep P call s (.read sids) (.del (sids.map .session)) (some ())
        (s.del (sids.map .session)) .cleared
  | unindex (ssoSid : JsString) (hrevokes : call.revokes = some ssoSid) :
      SessionStep P call s .cleared (.del [.ssoSid ssoSid]) (some ())
        (s.del [.ssoSid ssoSid]) .ended
  | time (sid : JsString) (ttl : ℤ)
      (httl : ExpiringStore.ttl s.redis s.clock (.session sid) = ttl) :
      SessionStep P call s .before (.ttl sid) (some ttl) s (.timed sid ttl)
  | rewrite (sid : JsString) (ttl : ℤ) (data : SessionData)
      (hcall : ∀ data t, call ≠ .create data t) :
      SessionStep P call s (.timed sid ttl) (.setSession sid data (updateTtl P ttl))
        (s.setSession sid data (updateTtl P ttl)).1 (s.setSession sid data (updateTtl P ttl)).2 .ended
  | destroy (sid : JsString) :
      SessionStep P call s .before (.del [.session sid]) (some ())
        (s.del [.session sid]) .before
  | look (sid : JsString) :
      SessionStep P call s .before (.getSession sid)
        (some (ExpiringStore.get s.redis s.clock (.session sid))) s .before
  | renew (data : SessionData) (r : Option (Option (JsString × Option ℤ))) :
      SessionStep P call s .before (.renew data) r s .before
  | dateNow : SessionStep P call s .before .dateNow (some s.clock) s .before

theorem session_step {P : Primitives} {call : SessionCall} {s : BffDb} {g : SessionPhase}
    {c : Command} (out : Outside) (hok : (sessionProtocol P call).ok g c) :
    SessionStep P call s g c (BffDb.perform P out c s).1 (BffDb.perform P out c s).2
      ((sessionProtocol P call).next g c (BffDb.perform P out c s).1) := by
  cases g with
  | before =>
    cases c with
    | randomBytes =>
      obtain ⟨data, ttlSeconds, hcall⟩ := hok
      exact .draw data ttlSeconds hcall
    | smembers ssoSid => exact .read ssoSid _ hok rfl
    | ttl sid => exact .time sid _ rfl
    | del keys =>
      obtain ⟨sid, rfl⟩ := hok
      exact .destroy sid
    | getSession sid => exact .look sid
    | renew data =>
      have hkept : (sessionProtocol P call).next .before (.renew data)
          (BffDb.perform P out (.renew data) s).1 = .before := by
        cases (BffDb.perform P out (.renew data) s).1 <;> rfl
      rw [hkept]
      exact .renew data _
    | dateNow => exact .dateNow
    | _ => cases hok
  | drawn sid =>
    cases c with
    | setSession sid' data ttlSeconds =>
      obtain ⟨rfl, hcall⟩ := hok
      by_cases hzero : ttlSeconds = 0
      · subst hzero
        exact .refuse sid' data hcall
      · have hanswer : BffDb.perform P out (.setSession sid' data ttlSeconds) s =
            (some (), s.storeSession sid' data ttlSeconds) := if_neg hzero
        rw [hanswer]
        exact .store sid' data ttlSeconds hcall hzero
    | _ => cases hok
  | stored sid =>
    cases c with
    | sadd ssoSid sid' =>
      obtain ⟨rfl, hbound⟩ := hok
      exact .list sid' ssoSid hbound
    | _ => cases hok
  | listed sid =>
    cases c with
    | expire k ttlSeconds =>
      obtain ⟨data, ssoSid, hcall, rfl⟩ := hok
      exact .limit sid ssoSid data ttlSeconds hcall
    | _ => cases hok
  | read sids =>
    cases c with
    | del keys =>
      obtain rfl : keys = sids.map .session := hok
      exact .clear sids
    | _ => cases hok
  | cleared =>
    cases c with
    | del keys =>
      obtain ⟨ssoSid, hrevokes, rfl⟩ := hok
      exact .unindex ssoSid hrevokes
    | _ => cases hok
  | timed sid ttl =>
    cases c with
    | setSession sid' data ttlSeconds =>
      obtain ⟨rfl, rfl, hcall⟩ := hok
      have hover : (sessionProtocol P call).next (.timed sid' ttl)
          (.setSession sid' data (updateTtl P ttl))
          (BffDb.perform P out (.setSession sid' data (updateTtl P ttl)) s).1 = .ended := by
        cases (BffDb.perform P out (.setSession sid' data (updateTtl P ttl)) s).1 <;> rfl
      rw [hover]
      exact .rewrite sid' ttl data hcall
    | _ => cases hok
  | ended => cases c <;> cases hok

end DreamSso.Bff
