import DreamSso.ResetRoutes
import DreamSso.CodeRedemption

/-!
The requests on the reset tokens of one user and the protocol they keep to: a new
link replaces the one its pointer names, and a confirmation that has read a token
either counts a failed challenge, burns the token, or writes the password and
deletes the token right after it.
-/
namespace DreamSso

open Interleaving JsStrings

/-- Issuing a link, and the three routes that take one. -/
inductive ResetCall
  | issue
  | validate (body : ResetBody)
  | options (body : ResetBody)
  | confirm (body : ResetBody)

namespace ResetCall

def handler (P : Primitives) (sub : Uuid) : ResetCall → Handler Unit
  | .issue => do
      let _token ← issueResetToken P sub
      pure ()
  | .validate body => do
      let _response ← postValidate P body
      pure ()
  | .options body => do
      let _response ← postPasskeyOptions P body
      pure ()
  | .confirm body => do
      let _response ← postConfirm P body
      pure ()

/-- The hash of the token the request presents. -/
def hash? (P : Primitives) : ResetCall → Option Digest
  | .issue => none
  | .validate body => some (P.sha256 body.token)
  | .options body => some (P.sha256 body.token)
  | .confirm body => some (P.sha256 body.token)

end ResetCall

/-- The command belongs to a strong-factor challenge of a reset. -/
def Command.challenges : Command → Bool
  | .ask (.totp _ _) => true
  | .verifyAuthentication _ _ _ => true
  | _ => false

def Key.ofReset : Key → Bool
  | .resetToken _ => true
  | .resetUser _ => true
  | _ => false

/-- The command changes a token or a pointer, evaluates a challenge or writes the
password. -/
def Command.usesReset : Command → Bool
  | .set k _ _ => k.ofReset
  | .setKeepTtl k _ => k.ofReset
  | .del keys => keys.any Key.ofReset
  | .getdel k => k.ofReset
  | .expire k _ => k.ofReset
  | .setPassword _ _ => true
  | c => c.challenges

def Command.readsReset : Command → Bool
  | .get k => k.ofReset
  | _ => false

/-- The command has nothing to do with a token. -/
def Command.besides : Command → Bool
  | .set (.resetPasskey _) _ _ | .getdel (.resetPasskey _) | .set (.ticket _) _ _ => true
  | .randomBytes | .updateSignCount _ _ | .deleteSessions _ | .enqueueLogout _ _ _ => true
  | c => c.plain && !c.challenges

/-- How far a request has come: a link with its hash drawn, the pointer read, the
previous link dropped, the new one placed; a token read, its challenge refused,
the password written; the attempt counted. -/
inductive ResetPhase
  | before
  | drew (hash : Digest)
  | renewing (hash prev : Digest)
  | placing (hash : Digest)
  | pointing (hash : Digest)
  | holding (hash : Digest) (record : ResetTokenRecord)
  | refused (hash : Digest) (record : ResetTokenRecord)
  | changed (hash : Digest) (record : ResetTokenRecord)
  | bumped
  | ended
  deriving DecidableEq

namespace ResetPhase

/-- The record still has to be written or deleted. -/
def critical : ResetPhase → Bool
  | .renewing _ _ | .placing _ | .pointing _ | .refused _ _ | .changed _ _ => true
  | _ => false

/-- A token or the pointer has not been read yet. -/
def unread : ResetPhase → Bool
  | .before | .drew _ => true
  | _ => false

def attempting : ResetPhase → Option (Digest × ResetTokenRecord)
  | .holding hash record => some (hash, record)
  | .refused hash record => some (hash, record)
  | _ => none

def drawn (P : Primitives) (call : ResetCall) : Option JsString → ResetPhase
  | some token =>
    match call with
    | .issue => .drew (P.sha256 token)
    | _ => .before
  | none => .before

def found (hash : Digest) : Option (Option ResetTokenRecord) → ResetPhase
  | some (some record) => .holding hash record
  | _ => .ended

def pointed (hash : Digest) : Option (Option Digest) → ResetPhase
  | some (some prev) => .renewing hash prev
  | some none => .placing hash
  | none => .ended

/-- The next phase of a command that was answered. -/
def ifAnswered (g : ResetPhase) (r : Option Unit) : ResetPhase := if r.isSome then g else .ended

def judged (hash : Digest) (record : ResetTokenRecord) (accepted : Bool) : ResetPhase :=
  if accepted then .holding hash record else .refused hash record

def next (P : Primitives) (call : ResetCall) :
    ResetPhase → (c : Command) → Option c.Reply → ResetPhase
  | .before, .randomBytes, r => drawn P call r
  | .before, .get (.resetToken hash), r => found hash r
  | .drew hash, .get (.resetUser _), r => pointed hash r
  | .renewing hash _, .del _, r => ifAnswered (.placing hash) r
  | .placing hash, .set (.resetToken _) _ _, r => ifAnswered (.pointing hash) r
  | .pointing _, .set (.resetUser _) _ _, _ => .ended
  | .holding hash record, .ask (.totp _ _), r => judged hash record (r.getD true)
  | .holding hash record, .verifyAuthentication _ _ _, r =>
      judged hash record (r.any Option.isSome)
  | .holding _ _, .setKeepTtl _ _, _ => .bumped
  | .holding _ _, .del _, _ => .bumped
  | .holding hash record, .setPassword _ _, r => ifAnswered (.changed hash record) r
  | .refused _ _, .setKeepTtl _ _, _ => .bumped
  | .refused _ _, .del _, _ => .bumped
  | .changed _ _, .del _, _ => .ended
  | g, _, _ => g

end ResetPhase

/-- What a request may do with the record in each phase. -/
inductive ResetOk (P : Primitives) (sub : Uuid) (call : ResetCall) : ResetPhase → Command → Prop
  | besides {g : ResetPhase} {c : Command} (hg : g.critical = false) (hc : c.besides = true) :
      ResetOk P sub call g c
  | lookup {hash : Digest} (h : call.hash? P = some hash) :
      ResetOk P sub call .before (.get (.resetToken hash))
  | pointer {hash : Digest} : ResetOk P sub call (.drew hash) (.get (.resetUser sub))
  | drop {hash prev : Digest} : ResetOk P sub call (.renewing hash prev)
      (.del [.resetToken prev, .resetPasskey prev])
  | place {hash : Digest} : ResetOk P sub call (.placing hash)
      (.set (.resetToken hash) ⟨sub, 0⟩ TOKEN_TTL_SECONDS)
  | point {hash : Digest} : ResetOk P sub call (.pointing hash)
      (.set (.resetUser sub) hash TOKEN_TTL_SECONDS)
  | challenge {hash : Digest} {record : ResetTokenRecord} {c : Command} (h : c.challenges = true) :
      ResetOk P sub call (.holding hash record) c
  | count {g : ResetPhase} {hash : Digest} {record : ResetTokenRecord}
      (hg : g.attempting = some (hash, record))
      (h : record.attempts + 1 < MAX_CHALLENGE_ATTEMPTS) :
      ResetOk P sub call g (.setKeepTtl (.resetToken hash) ⟨record.sub, record.attempts + 1⟩)
  | burn {g : ResetPhase} {hash : Digest} {record : ResetTokenRecord}
      (hg : g.attempting = some (hash, record)) :
      ResetOk P sub call g (.del (resetKeys record hash))
  | password {hash : Digest} {record : ResetTokenRecord} {sub' : Uuid} {passwordHash : JsString} :
      ResetOk P sub call (.holding hash record) (.setPassword sub' passwordHash)
  | consume {hash : Digest} {record : ResetTokenRecord} :
      ResetOk P sub call (.changed hash record) (.del (resetKeys record hash))

def resetProtocol (P : Primitives) (sub : Uuid) (call : ResetCall) :
    Protocol Command Command.Reply ResetPhase where
  next := ResetPhase.next P call
  ok := ResetOk P sub call

/-- No request ends where the record still has to be written. -/
def resetPost (g : ResetPhase) (_ : Option Unit) : Prop := g.critical = false

section Programs

variable {P : Primitives} {sub : Uuid} {call : ResetCall} {hash : Digest}
  {record : ResetTokenRecord}

theorem drawn_presenting (h : call.hash? P ≠ none) (r : Option JsString) :
    ResetPhase.drawn P call r = .before := by
  cases r with
  | none => rfl
  | some token =>
    cases call with
    | issue => exact absurd rfl h
    | _ => rfl

/-- Commands besides keep a request where it is, unless it draws a link. -/
theorem besides_next {g : ResetPhase} (hg : g.critical = false) {c : Command}
    (hc : c.besides = true) (hissue : g = .before → call.hash? P ≠ none)
    (r : Option c.Reply) : (resetProtocol P sub call).next g c r = g := by
  cases g with
  | before =>
    cases c with
    | randomBytes => exact drawn_presenting (hissue rfl) r
    | _ => first | rfl | exact absurd hc Bool.false_ne_true
  | holding hash record =>
    cases c with
    | ask q => cases q <;> first | rfl | exact absurd hc Bool.false_ne_true
    | _ => first | rfl | exact absurd hc Bool.false_ne_true
  | drew hash =>
    cases c with
    | _ => first | rfl | exact absurd hc Bool.false_ne_true
  | bumped => rfl
  | ended => rfl
  | renewing hash prev => cases hg
  | placing hash => cases hg
  | pointing hash => cases hg
  | refused hash record => cases hg
  | changed hash record => cases hg

/-- A part of a request that has nothing to do with the token. -/
theorem besides_bind {α : Type} {g : ResetPhase} {p : Handler α} {f : α → Handler Unit}
    (hg : g.critical = false) (hissue : g = .before → call.hash? P ≠ none)
    (h : p.Only fun c => c.besides = true)
    (hf : ∀ a, (resetProtocol P sub call).Obeys resetPost g (f a)) :
    (resetProtocol P sub call).Obeys resetPost g (p >>= f) :=
  Protocol.Obeys.only_bind h (fun _ hc => ⟨.besides hg hc, besides_next hg hc hissue⟩) hg hf

theorem isPortalAssertion_only (body : ResetBody) :
    (isPortalAssertion P body).Only fun c => c.besides = true := by
  unfold isPortalAssertion
  split
  · trivial
  · split_ifs
    · trivial
    · refine only_await_bind rfl fun client => ?_
      split
      · trivial
      · split_ifs
        · trivial
        · refine only_await_bind rfl fun keySet => ?_
          split_ifs
          · trivial
          · exact only_await.mpr rfl

theorem liveIdentity_only (sub : Uuid) : (liveIdentity sub).Only fun c => c.besides = true :=
  only_await_bind rfl fun _ => trivial

theorem challengeFor_only (row : IdentityRow) :
    (challengeFor row).Only fun c => c.besides = true := by
  unfold challengeFor
  split_ifs
  · trivial
  · exact only_await_bind rfl fun _ => only_await_bind rfl fun _ => trivial

theorem fanOutLogout_only (sub : Uuid) (sid : JsString) (clients : List ClientId) :
    (fanOutLogout sub sid clients).Only fun c => c.besides = true := by
  induction clients with
  | nil => trivial
  | cons clientId rest ih =>
    refine Prog.Only.bind ?_ fun _ => ih
    exact only_attempt.mpr (only_await.mpr rfl)

theorem fanOutAll_only (revoked : List RevokedSession) :
    (fanOutAll revoked).Only fun c => c.besides = true := by
  induction revoked with
  | nil => trivial
  | cons r rest ih => exact (fanOutLogout_only _ _ _).bind fun _ => ih

theorem mintLoginTicket_only (t : LoginTicket) :
    (mintLoginTicket P t).Only fun c => c.besides = true :=
  only_await_bind rfl fun _ => only_await_bind rfl fun _ => trivial

theorem loginAuthOptions_only (sub : Option Uuid) :
    (loginAuthOptions sub).Only fun c => c.besides = true := by
  cases sub with
  | none => exact only_await.mpr rfl
  | some sub => exact only_await_bind rfl fun _ => only_await.mpr rfl

/-- A new link: the pointer, the link it names, the token and the pointer again. -/
theorem issueResetToken_obeys :
    (resetProtocol P sub .issue).Obeys resetPost .before (ResetCall.handler P sub .issue) := by
  unfold ResetCall.handler issueResetToken
  dsimp only
  rw [Prog.bind_assoc]
  refine Protocol.obeys_await_bind.mpr ⟨.besides rfl rfl, rfl, fun token => ?_⟩
  show (resetProtocol P sub .issue).Obeys resetPost (.drew (P.sha256 token)) _
  rw [Prog.bind_assoc]
  refine Protocol.obeys_await_bind.mpr ⟨.pointer, rfl, fun prev => ?_⟩
  have hplace : (resetProtocol P sub .issue).Obeys resetPost (.placing (P.sha256 token))
      (((await (.set (.resetToken (P.sha256 token)) ⟨sub, 0⟩ TOKEN_TTL_SECONDS) >>= fun _ =>
        await (.set (.resetUser sub) (P.sha256 token) TOKEN_TTL_SECONDS) >>= fun _ => pure token) :
          Handler JsString) >>= fun _ => pure ()) := by
    rw [Prog.bind_assoc]
    refine Protocol.obeys_await_bind.mpr ⟨.place, rfl, fun _ => ?_⟩
    rw [Prog.bind_assoc]
    exact Protocol.obeys_await_bind.mpr ⟨.point, rfl, fun _ => rfl⟩
  cases prev with
  | none => exact hplace
  | some prev =>
    rw [Prog.bind_assoc]
    exact Protocol.obeys_await_bind.mpr ⟨.drop, rfl, fun _ => hplace⟩

/-- The token the request presents, and the active identity of its record. -/
theorem resetIdentity_bind {token : JsString} (hcall : call.hash? P = some (P.sha256 token))
    {f : Option (ResetTokenRecord × Digest × IdentityRow) → Handler Unit}
    (hnone : ∀ g : ResetPhase, g.critical = false →
      (resetProtocol P sub call).Obeys resetPost g (f none))
    (hsome : ∀ record row, (resetProtocol P sub call).Obeys resetPost
      (.holding (P.sha256 token) record) (f (some (record, P.sha256 token, row)))) :
    (resetProtocol P sub call).Obeys resetPost .before (resetIdentity P token >>= f) := by
  unfold resetIdentity getResetToken
  split_ifs
  · exact hnone _ rfl
  · rw [Prog.bind_assoc, Prog.bind_assoc]
    refine Protocol.obeys_await_bind.mpr ⟨.lookup hcall, rfl, fun found => ?_⟩
    cases found with
    | none => exact hnone _ rfl
    | some record =>
      show (resetProtocol P sub call).Obeys resetPost (.holding (P.sha256 token) record)
        ((liveIdentity record.sub >>= _) >>= f)
      rw [Prog.bind_assoc]
      refine besides_bind rfl nofun (liveIdentity_only _) fun identity => ?_
      cases identity with
      | none => exact hnone _ rfl
      | some row => exact hsome record row

/-- A failed challenge is counted at once. -/
theorem challengeFailed_bind {g : ResetPhase} (hg : g.attempting = some (hash, record))
    {f : Except Refusal JsString → Handler Unit}
    (hf : ∀ e, (resetProtocol P sub call).Obeys resetPost .bumped (f (.error e))) :
    (resetProtocol P sub call).Obeys resetPost g (challengeFailed record hash >>= f) := by
  have hkeep : ∀ r, (resetProtocol P sub call).next g (.setKeepTtl (.resetToken hash)
      ⟨record.sub, record.attempts + 1⟩) r = .bumped := by
    cases g with
    | holding hash record => exact fun _ => rfl
    | refused hash record => exact fun _ => rfl
    | _ => cases hg
  have hdel : ∀ r, (resetProtocol P sub call).next g (.del (resetKeys record hash)) r = .bumped := by
    cases g with
    | holding hash record => exact fun _ => rfl
    | refused hash record => exact fun _ => rfl
    | _ => cases hg
  unfold challengeFailed
  by_cases hmax : record.attempts + 1 ≥ MAX_CHALLENGE_ATTEMPTS
  · have hprog : bumpResetAttempts record hash = _ := if_pos hmax
    rw [hprog, Prog.bind_assoc, Prog.bind_assoc]
    refine Protocol.obeys_await_bind.mpr ⟨.burn hg, ?_, fun r => ?_⟩
    · rw [hdel]
      rfl
    · rw [hdel]
      exact hf _
  · have hprog : bumpResetAttempts record hash = _ := if_neg hmax
    rw [hprog, Prog.bind_assoc, Prog.bind_assoc]
    refine Protocol.obeys_await_bind.mpr ⟨.count hg (Nat.lt_of_not_ge hmax), ?_, fun r => ?_⟩
    · rw [hkeep]
      rfl
    · rw [hkeep]
      exact hf _

theorem confirmTotp_bind {body : ResetBody} {row : IdentityRow}
    {f : Except Refusal JsString → Handler Unit}
    (hfail : ∀ e, (resetProtocol P sub call).Obeys resetPost .bumped (f (.error e)))
    (hok : ∀ amr, (resetProtocol P sub call).Obeys resetPost (.holding hash record) (f (.ok amr))) :
    (resetProtocol P sub call).Obeys resetPost (.holding hash record)
      (confirmTotp body record hash row >>= f) := by
  unfold confirmTotp
  split_ifs
  · exact challengeFailed_bind rfl hfail
  · rw [Prog.bind_assoc]
    refine Protocol.obeys_await_bind.mpr ⟨.challenge rfl, rfl, fun valid => ?_⟩
    cases valid with
    | true => exact hok _
    | false => exact challengeFailed_bind rfl hfail

theorem verifyAndCount_reset {a : Assertion} {challenge : JsString} {i : Uuid} {row : PasskeyRow}
    {f : Except String Uuid → Handler Unit}
    (hfail : ∀ g : ResetPhase, g.attempting = some (hash, record) → ∀ e,
      (resetProtocol P sub call).Obeys resetPost g (f (.error e)))
    (hok : ∀ sub', (resetProtocol P sub call).Obeys resetPost (.holding hash record)
      (f (.ok sub'))) :
    (resetProtocol P sub call).Obeys resetPost (.holding hash record)
      (verifyAndCount a challenge i row >>= f) := by
  unfold verifyAndCount
  rw [Prog.bind_assoc]
  refine Protocol.obeys_attempt_bind.mpr ⟨.challenge rfl, fun r => ?_⟩
  match r with
  | none => exact hfail _ rfl _
  | some none => exact hfail _ rfl _
  | some (some newCounter) =>
    show (resetProtocol P sub call).Obeys resetPost (.holding hash record) _
    rw [Prog.bind_assoc]
    refine Protocol.obeys_attempt_bind.mpr ⟨.besides rfl rfl, fun r => ?_⟩
    cases r with
    | none => exact hfail _ rfl _
    | some _ => exact hok _

theorem confirmPasskey_bind {body : ResetBody} {row : IdentityRow}
    {f : Except Refusal JsString → Handler Unit}
    (hfail : ∀ g : ResetPhase, g.critical = false → ∀ e,
      (resetProtocol P sub call).Obeys resetPost g (f (.error e)))
    (hok : ∀ amr, (resetProtocol P sub call).Obeys resetPost (.holding hash record) (f (.ok amr))) :
    (resetProtocol P sub call).Obeys resetPost (.holding hash record)
      (confirmPasskey body record hash row >>= f) := by
  have hcounted : ∀ g : ResetPhase, g.attempting = some (hash, record) →
      (resetProtocol P sub call).Obeys resetPost g (challengeFailed record hash >>= f) :=
    fun g hg => challengeFailed_bind hg (hfail _ rfl)
  unfold confirmPasskey takeResetPasskeyChallenge
  rw [Prog.bind_assoc]
  refine Protocol.obeys_await_bind.mpr ⟨.besides rfl rfl, rfl, fun expected => ?_⟩
  cases expected with
  | none => exact hfail _ rfl _
  | some expected =>
    dsimp only
    split
    · exact hcounted _ rfl
    · rename_i credential
      rw [Prog.bind_assoc]
      unfold verifyLoginAssertion
      split_ifs
      · exact hcounted _ rfl
      · rw [Prog.bind_assoc]
        refine Protocol.obeys_await_bind.mpr ⟨.besides rfl rfl, rfl, fun found => ?_⟩
        cases found with
        | none => exact hcounted _ rfl
        | some found =>
          dsimp only
          split_ifs
          · exact hcounted _ rfl
          · exact verifyAndCount_reset (fun g hg e => hcounted g hg) fun sub' => hok _

theorem confirmChallenge_bind {body : ResetBody} {row : IdentityRow}
    {f : Except Refusal (Option JsString) → Handler Unit}
    (hfail : ∀ g : ResetPhase, g.critical = false → ∀ e,
      (resetProtocol P sub call).Obeys resetPost g (f (.error e)))
    (hok : ∀ amr, (resetProtocol P sub call).Obeys resetPost (.holding hash record) (f (.ok amr))) :
    (resetProtocol P sub call).Obeys resetPost (.holding hash record)
      (confirmChallenge body record hash row >>= f) := by
  unfold confirmChallenge
  rw [Prog.bind_assoc]
  refine besides_bind rfl nofun (challengeFor_only row) fun methods => ?_
  cases methods with
  | none => exact hok _
  | some methods =>
    dsimp only
    split_ifs
    · rw [Prog.bind_assoc]
      exact confirmTotp_bind (fun e => hfail _ rfl e) fun amr => hok _
    · rw [Prog.bind_assoc]
      exact confirmPasskey_bind (fun g hg e => hfail g hg e) fun amr => hok _
    · exact hfail _ rfl _

/-- The password, then the token, then everything else. -/
theorem completeReset_obeys {row : IdentityRow} {password : JsString} {amr : Option JsString}
    {f : Response → Handler Unit}
    (hf : ∀ r, (resetProtocol P sub call).Obeys resetPost .ended (f r)) :
    (resetProtocol P sub call).Obeys resetPost (.holding hash record)
      (completeReset P record hash row password amr >>= f) := by
  unfold completeReset
  rw [Prog.bind_assoc]
  refine Protocol.obeys_await_bind.mpr ⟨.besides rfl rfl, rfl, fun passwordHash => ?_⟩
  rw [Prog.bind_assoc]
  refine Protocol.obeys_await_bind.mpr ⟨.password, rfl, fun _ => ?_⟩
  show (resetProtocol P sub call).Obeys resetPost (.changed hash record) _
  rw [Prog.bind_assoc]
  refine Protocol.obeys_await_bind.mpr ⟨.consume, rfl, fun _ => ?_⟩
  show (resetProtocol P sub call).Obeys resetPost .ended _
  rw [Prog.bind_assoc]
  refine besides_bind rfl nofun (only_await.mpr rfl) fun revoked => ?_
  rw [Prog.bind_assoc]
  refine besides_bind rfl nofun (fanOutAll_only _) fun _ => ?_
  rw [Prog.bind_assoc]
  exact besides_bind rfl nofun (mintLoginTicket_only _) fun _ => hf _

/-- Every request on the reset tokens keeps to the protocol. -/
theorem resetCall_obeys (call : ResetCall) :
    (resetProtocol P sub call).Obeys resetPost .before (call.handler P sub) := by
  have hdone : ∀ call : ResetCall, ∀ g : ResetPhase, g.critical = false →
      (resetProtocol P sub call).Obeys resetPost g (pure () : Handler Unit) := fun _ _ hg => hg
  cases call with
  | issue => exact issueResetToken_obeys
  | validate body =>
    have hpresents : (ResetCall.validate body).hash? P ≠ none := nofun
    unfold ResetCall.handler postValidate
    dsimp only
    rw [Prog.bind_assoc]
    refine besides_bind rfl (fun _ => hpresents) (isPortalAssertion_only body) fun portal => ?_
    split_ifs
    · exact hdone _ _ rfl
    · rw [Prog.bind_assoc]
      refine resetIdentity_bind rfl (fun g hg => hdone _ g hg) fun record row => ?_
      rw [Prog.bind_assoc]
      exact besides_bind rfl nofun (challengeFor_only row) fun _ => hdone _ _ rfl
  | options body =>
    have hpresents : (ResetCall.options body).hash? P ≠ none := nofun
    unfold ResetCall.handler postPasskeyOptions
    dsimp only
    rw [Prog.bind_assoc]
    refine besides_bind rfl (fun _ => hpresents) (isPortalAssertion_only body) fun portal => ?_
    split_ifs
    · exact hdone _ _ rfl
    · rw [Prog.bind_assoc]
      refine resetIdentity_bind rfl (fun g hg => hdone _ g hg) fun record row => ?_
      dsimp only
      rw [Prog.bind_assoc]
      refine besides_bind rfl nofun (challengeFor_only row) fun methods => ?_
      split_ifs
      · rw [Prog.bind_assoc]
        refine besides_bind rfl nofun (loginAuthOptions_only _) fun challenge => ?_
        rw [Prog.bind_assoc]
        exact besides_bind rfl nofun (only_await.mpr rfl) fun _ => hdone _ _ rfl
      · exact hdone _ _ rfl
  | confirm body =>
    have hpresents : (ResetCall.confirm body).hash? P ≠ none := nofun
    unfold ResetCall.handler postConfirm
    dsimp only
    rw [Prog.bind_assoc]
    refine besides_bind rfl (fun _ => hpresents) (isPortalAssertion_only body) fun portal => ?_
    split_ifs
    · exact hdone _ _ rfl
    · rw [Prog.bind_assoc]
      refine resetIdentity_bind rfl (fun g hg => hdone _ g hg) fun record row => ?_
      dsimp only
      split
      · exact hdone _ _ rfl
      · rw [Prog.bind_assoc]
        refine confirmChallenge_bind (fun g hg e => hdone _ g hg) fun amr => ?_
        exact completeReset_obeys fun _ => hdone _ _ rfl

end Programs

end DreamSso
