import DreamSso.LoginRoutes
import DreamSso.CodeRedemption

/-!
The requests on one login transaction and the protocol they keep to: the record
is looked up once, a refused factor is counted or burns the transaction before
anything else happens, an accepted assertion is followed by a record without a
challenge, and a code is created only right before the transaction is deleted.
-/
namespace DreamSso

open Interleaving JsStrings

inductive CardCall
  | form (use : Option JsString)
  | passkeyForm
  | password (username password : JsString)
  | stay (choice : JsString)
  | passkey (credential : Option Assertion)
  | sendEmail
  | challenge (method code : JsString) (credential : Option Assertion)

/-- The handler of a request on the transaction its form names. -/
def CardCall.handler (P : Primitives) (req : CardRequest) : CardCall → Handler Response
  | .form use => getLogin req.txn use
  | .passkeyForm => getLoginPasskey req.txn
  | .password username pw => postLogin P req username pw
  | .stay choice => postLoginStay P req choice
  | .passkey credential => postLoginPasskey P req credential
  | .sendEmail => postSendEmail req
  | .challenge method code credential => postLoginChallenge P req method code credential

def LoginTxn.attempts (t : LoginTxn) : ℕ := (t.mfa.map TxnMfa.attempts).getD 0

/-- The challenge an assertion can be presented for. -/
def LoginTxn.challenge? (t : LoginTxn) : Option JsString :=
  match t.kmsi, t.mfa with
  | some _, _ => none
  | none, some mfa => mfa.passkeyChallenge
  | none, none => t.passkey

/-- The command belongs to the evaluation of a strong factor. -/
def Command.evaluates : Command → Bool
  | .ask (.totp _ _) => true
  | .passkeyRow _ => true
  | .verifyAuthentication _ _ _ => true
  | _ => false

def Command.createsCode : Command → Bool
  | .set (.code _) _ _ => true
  | _ => false

/-- The command changes the transaction, evaluates a factor or creates a code. -/
def Command.usesTxn (id : JsString) (c : Command) : Bool :=
  c.writesKey (.txn id) || c.evaluates || c.createsCode

/-- The command reads a table, asks the surroundings or writes a session. -/
def Command.steady : Command → Bool
  | .clientRow _ | .identityByUsername _ | .identityByEmail _ | .identityRow _ _ => true
  | .countPasskeys _ | .countAuthenticators _ | .passkeyIds _ | .dateNow => true
  | .insertSession _ | .persistSession _ _ | .stampStepup _ _ => true
  | .ask (.totp _ _) => false
  | .ask _ => true
  | _ => false

/-- The command has nothing to do with a transaction. -/
def Command.idle : Command → Bool
  | .randomBytes => true
  | .updateSignCount _ _ => true
  | c => c.steady

/-- How far a request has come: with the record as it last read or wrote it and
the last value it has drawn, after a refused factor, after an accepted assertion,
between a code and the deletion of the transaction. -/
inductive CardPhase
  | before
  | read (txn : LoginTxn) (drawn : Option JsString)
  | refused (txn : LoginTxn)
  | accepted (txn : LoginTxn) (challenge : JsString)
  | coded
  | ended

namespace CardPhase

/-- The record still has to be written or deleted. -/
def pending : CardPhase → Bool
  | .refused _ => true
  | .coded => true
  | _ => false

/-- The record in hand, while the request is free to go on with it. -/
def record : CardPhase → Option LoginTxn
  | .read t _ => some t
  | .accepted t _ => some t
  | _ => none

theorem record_cases {g : CardPhase} {t : LoginTxn} (h : g.record = some t) :
    (∃ drawn, g = .read t drawn) ∨ ∃ challenge, g = .accepted t challenge := by
  cases g with
  | read t drawn =>
    cases h
    exact .inl ⟨drawn, rfl⟩
  | accepted t challenge =>
    cases h
    exact .inr ⟨challenge, rfl⟩
  | before => cases h
  | refused t => cases h
  | coded => cases h
  | ended => cases h

def written (t : LoginTxn) (r : Option Unit) : CardPhase := if r.isSome then .read t none else .ended

def code (r : Option Unit) : CardPhase := if r.isSome then .coded else .ended

end CardPhase

namespace CardCall

variable (req : CardRequest) (call : CardCall)

/-- A POST /login/challenge with a passkey that fails before any lookup: the
transaction has no challenge, or the request no usable credential. -/
def refusedAtOnce (t : LoginTxn) : Bool :=
  match call, t.kmsi, t.mfa with
  | .challenge method _ credential, none, some mfa =>
      csrfOk req t && decide (method ∈ mfa.methods) && decide (method = js "passkey") &&
        ((mfa.passkeyChallenge.filter fun c => decide (c ≠ [])).isNone ||
          credential.all fun a => decide (a.credentialId = []))
  | _, _, _ => false

/-- A refused factor is an attempt of POST /login/challenge only. -/
def refusal (t : LoginTxn) (drawn : Option JsString) : CardPhase :=
  match call with
  | .challenge _ _ _ => .refused t
  | _ => .read t drawn

def afterLookup : Option (Option LoginTxn) → CardPhase
  | some (some t) => if call.refusedAtOnce req t then .refused t else .read t none
  | _ => .ended

/-- The credential is unknown, or belongs to somebody else than the challenge. -/
def rejectsRow (t : LoginTxn) (found : Option (Uuid × PasskeyRow)) : Bool :=
  match found with
  | none => true
  | some (_, row) =>
    match call with
    | .challenge _ _ _ => t.mfa.any fun mfa => decide (row.userSub ≠ mfa.sub)
    | _ => false

def afterRow (t : LoginTxn) (drawn : Option JsString) :
    Option (Option (Uuid × PasskeyRow)) → CardPhase
  | some found => if call.rejectsRow t found then call.refusal t drawn else .read t drawn
  | none => .read t drawn

def afterTotp (t : LoginTxn) (drawn : Option JsString) (r : Option Bool) : CardPhase :=
  if r = some false then call.refusal t drawn else .read t drawn

def afterVerify (t : LoginTxn) (drawn : Option JsString) (expected : JsString) :
    Option (Option ℕ) → CardPhase
  | some (some _) => .accepted t expected
  | _ => call.refusal t drawn

def next (id : JsString) : CardPhase → (c : Command) → Option c.Reply → CardPhase
  | .before, .get (.txn id'), r => if id' = id then call.afterLookup req r else .before
  | .read t drawn, .passkeyRow _, r => call.afterRow t drawn r
  | .read t drawn, .ask (.totp _ _), r => call.afterTotp t drawn r
  | .read t drawn, .verifyAuthentication _ expected _, r => call.afterVerify t drawn expected r
  | .read t _, .randomBytes, r => .read t r
  | .accepted t expected, .updateSignCount _ _, r =>
      if r.isSome then .accepted t expected else call.refusal t none
  | .read _ _, .setKeepTtl (.txn _) t', r => .written t' r
  | .accepted _ _, .setKeepTtl (.txn _) t', r => .written t' r
  | .refused _, .setKeepTtl (.txn _) t', r => .written t' r
  | .read _ _, .set (.code _) _ _, r => .code r
  | .accepted _ _, .set (.code _) _ _, r => .code r
  | .read _ _, .del _, _ => .ended
  | .accepted _ _, .del _, _ => .ended
  | .accepted t expected, _, r => if r.isSome then .accepted t expected else .ended
  | .refused _, _, _ => .ended
  | .coded, _, _ => .ended
  | g, _, _ => g

end CardCall

/-- What a request may do with the record in each phase. -/
inductive CardOk (id : JsString) : CardPhase → Command → Prop
  | lookup : CardOk id .before (.get (.txn id))
  | idle {g : CardPhase} {c : Command} (hg : g.pending = false) (hc : c.idle = true) :
      CardOk id g c
  | totp {t : LoginTxn} {drawn : Option JsString} {sub : Uuid} {code : JsString} :
      CardOk id (.read t drawn) (.ask (.totp sub code))
  | credential {t : LoginTxn} {drawn : Option JsString} {credentialId : JsString} :
      CardOk id (.read t drawn) (.passkeyRow credentialId)
  | verify {t : LoginTxn} {drawn : Option JsString} {a : Assertion} {challenge : JsString}
      {row : PasskeyRow} (h : t.challenge? = some challenge) :
      CardOk id (.read t drawn) (.verifyAuthentication a challenge row)
  | rewrite {t t' : LoginTxn} {drawn : Option JsString} (hattempts : t.attempts ≤ t'.attempts)
      (hchallenge : t'.challenge? ∈ [none, t.challenge?, drawn]) :
      CardOk id (.read t drawn) (.setKeepTtl (.txn id) t')
  | settle {t t' : LoginTxn} {challenge : JsString} (hattempts : t.attempts ≤ t'.attempts)
      (hchallenge : t'.challenge? = none) :
      CardOk id (.accepted t challenge) (.setKeepTtl (.txn id) t')
  | count {t t' : LoginTxn} (hattempts : t'.attempts = t.attempts + 1)
      (hleft : t'.attempts < MAX_CHALLENGE_ATTEMPTS)
      (hchallenge : t'.challenge? ∈ [none, t.challenge?]) :
      CardOk id (.refused t) (.setKeepTtl (.txn id) t')
  | burn {t : LoginTxn} (h : MAX_CHALLENGE_ATTEMPTS ≤ t.attempts + 1) :
      CardOk id (.refused t) (.del [.txn id])
  | remove {g : CardPhase} {t : LoginTxn} (hg : g.record = some t) : CardOk id g (.del [.txn id])
  | code {g : CardPhase} {t : LoginTxn} {code : JsString} {data : AuthCode} {ttl : ℕ}
      (hg : g.record = some t) : CardOk id g (.set (.code code) data ttl)
  | removeCoded : CardOk id .coded (.del [.txn id])

def cardProtocol (id : JsString) (req : CardRequest) (call : CardCall) :
    Protocol Command Command.Reply CardPhase where
  next := CardCall.next req call id
  ok := CardOk id

/-- No request ends with a refused factor uncounted or a code on a live transaction. -/
def cardPost (g : CardPhase) (_ : Option Response) : Prop := g.pending = false

section Programs

variable {P : Primitives} {id : JsString} {req : CardRequest} {call : CardCall}
  {t txn : LoginTxn} {drawn : Option JsString}

theorem steady_idle {c : Command} (h : c.steady = true) : c.idle = true := by
  cases c with
  | _ => first | exact h | rfl

theorem steady_read {c : Command} (h : c.steady = true) :
    (cardProtocol id req call).ok (.read t drawn) c ∧
      ∀ r, (cardProtocol id req call).next (.read t drawn) c r = .read t drawn := by
  refine ⟨.idle rfl (steady_idle h), fun r => ?_⟩
  cases c with
  | ask q => cases q <;> first | rfl | exact absurd h Bool.false_ne_true
  | _ => first | rfl | exact absurd h Bool.false_ne_true

theorem steady_over {c : Command} (h : c.steady = true) :
    (cardProtocol id req call).ok .ended c ∧
      ∀ r, (cardProtocol id req call).next .ended c r = .ended :=
  ⟨.idle rfl (steady_idle h), fun _ => rfl⟩

theorem steady_accepted {challenge : JsString} {c : Command} (h : c.steady = true)
    (r : Option c.Reply) :
    (cardProtocol id req call).next (.accepted t challenge) c r =
      if r.isSome then .accepted t challenge else .ended := by
  cases c with
  | _ => first | rfl | exact absurd h Bool.false_ne_true

theorem getSetting_straight (key : String) : (getSetting key).Straight fun c => c.steady = true :=
  straight_await_bind rfl fun _ => trivial

theorem siteNameSetting_straight : siteNameSetting.Straight fun c => c.steady = true :=
  (getSetting_straight _).bind fun _ => trivial

theorem getSessionWindows_straight : getSessionWindows.Straight fun c => c.steady = true :=
  (getSetting_straight _).bind fun _ => (getSetting_straight _).bind fun _ =>
    (getSetting_straight _).bind fun _ => trivial

theorem txnExpired_straight : txnExpired.Straight fun c => c.steady = true :=
  siteNameSetting_straight.bind fun _ => trivial

theorem avatarOf_straight (sub : Uuid) : (avatarOf sub).Straight fun c => c.steady = true :=
  straight_await_bind rfl fun _ => trivial

theorem renderKmsi_straight (kmsi : TxnKmsi) :
    (renderKmsi kmsi).Straight fun c => c.steady = true :=
  (avatarOf_straight _).bind fun _ => siteNameSetting_straight.bind fun _ => trivial

theorem liveIdentity_straight (sub : Uuid) :
    (liveIdentity sub).Straight fun c => c.steady = true :=
  straight_await_bind rfl fun _ => trivial

/-- Steady programs keep a phase in which nothing is pending. -/
theorem obeys_read {p : Handler Response} (h : p.Straight fun c => c.steady = true) :
    (cardProtocol id req call).Obeys cardPost (.read t drawn) p :=
  Protocol.Obeys.of_only h.toOnly (fun _ hc => steady_read hc) fun _ => rfl

theorem obeys_over {p : Handler Response} (h : p.Straight fun c => c.steady = true) :
    (cardProtocol id req call).Obeys cardPost .ended p :=
  Protocol.Obeys.of_only h.toOnly (fun _ hc => steady_over hc) fun _ => rfl

theorem read_bind {α : Type} {p : Handler α} {f : α → Handler Response}
    (h : p.Only fun c => c.steady = true)
    (hf : ∀ a, (cardProtocol id req call).Obeys cardPost (.read t drawn) (f a)) :
    (cardProtocol id req call).Obeys cardPost (.read t drawn) (p >>= f) :=
  Protocol.Obeys.only_bind h (fun _ hc => steady_read hc) rfl hf

/-- Steady programs keep the record in hand; after an accepted assertion only if
they are answered. -/
theorem holds_bind {α : Type} {g : CardPhase} (hg : g.record = some t) {p : Handler α}
    {f : α → Handler Response} (h : p.Straight fun c => c.steady = true)
    (hf : ∀ a, (cardProtocol id req call).Obeys cardPost g (f a)) :
    (cardProtocol id req call).Obeys cardPost g (p >>= f) := by
  obtain ⟨drawn, rfl⟩ | ⟨challenge, rfl⟩ := CardPhase.record_cases hg
  · exact read_bind h.toOnly hf
  · refine Protocol.Obeys.straight_bind h (fun c hc => ⟨.idle rfl (steady_idle hc), fun r => ?_⟩)
      (fun c hc => ?_) rfl hf
    · rw [steady_accepted hc]
      rfl
    · rw [steady_accepted hc]
      rfl

/-- A draw keeps it as well. -/
theorem draw_bind {g : CardPhase} (hg : g.record = some t) {f : JsString → Handler Response}
    (hf : ∀ g' r, g'.record = some t → (cardProtocol id req call).Obeys cardPost g' (f r)) :
    (cardProtocol id req call).Obeys cardPost g (await .randomBytes >>= f) := by
  obtain ⟨drawn, rfl⟩ | ⟨challenge, rfl⟩ := CardPhase.record_cases hg
  · exact Protocol.obeys_await_bind.mpr ⟨.idle rfl rfl, rfl, fun r => hf _ r hg⟩
  · exact Protocol.obeys_await_bind.mpr ⟨.idle rfl rfl, rfl, fun r => hf _ r hg⟩

/-- A write of the record in hand. -/
theorem rewrite_bind {t' : LoginTxn} {f : Unit → Handler Response}
    (hattempts : t.attempts ≤ t'.attempts) (hchallenge : t'.challenge? ∈ [none, t.challenge?, drawn])
    (hf : (cardProtocol id req call).Obeys cardPost (.read t' none) (f ())) :
    (cardProtocol id req call).Obeys cardPost (.read t drawn) (updateTxn id t' >>= f) :=
  Protocol.obeys_await_bind.mpr ⟨.rewrite hattempts hchallenge, rfl, fun _ => hf⟩

/-- Fresh options draw the challenge that is written next. -/
theorem options_bind {sub : Option Uuid} {f : JsString → Handler Response}
    (hf : ∀ challenge,
      (cardProtocol id req call).Obeys cardPost (.read t (some challenge)) (f challenge)) :
    (cardProtocol id req call).Obeys cardPost (.read t drawn) (loginAuthOptions sub >>= f) := by
  have hdraw : (cardProtocol id req call).Obeys cardPost (.read t drawn)
      (await .randomBytes >>= f) :=
    Protocol.obeys_await_bind.mpr ⟨.idle rfl rfl, rfl, hf⟩
  cases sub with
  | none => exact hdraw
  | some sub =>
    show (cardProtocol id req call).Obeys cardPost (.read t drawn)
      ((await (.passkeyIds sub) >>= fun _ => await .randomBytes) >>= f)
    rw [Prog.bind_assoc]
    exact read_bind (only_await.mpr rfl) fun _ => hdraw

theorem attempts_of_mfa {mfa : TxnMfa} (h : t.mfa = some mfa) : t.attempts = mfa.attempts := by
  rw [LoginTxn.attempts, h]
  rfl

/-- A write of the challenge state gives the record the challenge it carries, or
none when the transaction is past authentication. -/
theorem challenge_of_mfa (t : LoginTxn) (mfa : TxnMfa) :
    ({ t with mfa := some mfa } : LoginTxn).challenge? ∈ [none, mfa.passkeyChallenge] := by
  rw [LoginTxn.challenge?]
  cases t.kmsi with
  | none => exact List.mem_cons_of_mem _ (List.mem_singleton_self _)
  | some kmsi => exact List.mem_cons_self

theorem renderChallenge_obeys {mfa : TxnMfa} (hmfa : txn.mfa = some mfa)
    (method : Option JsString) (status : ℕ) :
    (cardProtocol id req call).Obeys cardPost (.read txn drawn)
      (renderChallenge id txn mfa method status) := by
  have hpage : ∀ t drawn, (cardProtocol id req call).Obeys cardPost (.read t drawn)
      (avatarOf mfa.sub >>= fun _ => siteNameSetting >>= fun _ =>
        pure (.page status "challenge")) := fun t drawn =>
    obeys_read ((avatarOf_straight _).bind fun _ => siteNameSetting_straight.bind fun _ => trivial)
  unfold renderChallenge mintChallenge
  split_ifs
  · rw [Prog.bind_assoc]
    refine options_bind fun challenge => rewrite_bind ?_ ?_ (hpage _ _)
    · exact (attempts_of_mfa hmfa).le
    · have hnew := challenge_of_mfa txn { mfa with passkeyChallenge := some challenge }
      simp only [List.mem_cons, List.not_mem_nil, or_false] at hnew ⊢
      rcases hnew with h | h
      · exact .inl h
      · exact .inr (.inr h)
  · exact hpage _ _

theorem challenge_of_passkey (t : LoginTxn) (passkey : Option JsString) :
    ({ t with passkey := passkey } : LoginTxn).challenge? ∈ [t.challenge?, passkey] := by
  unfold LoginTxn.challenge?
  cases t.kmsi with
  | some kmsi => exact List.mem_cons_self
  | none =>
    cases t.mfa with
    | some mfa => exact List.mem_cons_self
    | none => exact List.mem_cons_of_mem _ (List.mem_singleton_self _)

theorem loginPasskeyOptions_bind {f : JsString → Handler Response}
    (hf : ∀ t drawn challenge,
      (cardProtocol id req call).Obeys cardPost (.read t drawn) (f challenge)) :
    (cardProtocol id req call).Obeys cardPost (.read txn drawn)
      (loginPasskeyOptions id txn >>= f) := by
  unfold loginPasskeyOptions
  split
  · exact hf _ _ _
  · rw [Prog.bind_assoc]
    refine options_bind fun challenge => ?_
    rw [Prog.bind_assoc]
    refine rewrite_bind le_rfl ?_ (hf _ _ _)
    have hnew := challenge_of_passkey txn (some challenge)
    simp only [List.mem_cons, List.not_mem_nil, or_false] at hnew ⊢
    exact .inr hnew

theorem renderLogin_obeys (status : ℕ) :
    (cardProtocol id req call).Obeys cardPost (.read txn drawn) (renderLogin id txn status) := by
  refine loginPasskeyOptions_bind fun t drawn _ => obeys_read ?_
  exact siteNameSetting_straight.bind fun _ => (getSetting_straight _).bind fun _ =>
    (getSetting_straight _).bind fun _ => trivial

theorem renderPhase_obeys {otherwise : Handler Response}
    (h : txn.kmsi = none → txn.mfa = none →
      (cardProtocol id req call).Obeys cardPost (.read txn drawn) otherwise) :
    (cardProtocol id req call).Obeys cardPost (.read txn drawn)
      (renderPhase id txn otherwise) := by
  unfold renderPhase
  split
  · exact obeys_read (renderKmsi_straight _)
  · rename_i mfa hkmsi hmfa
    exact renderChallenge_obeys hmfa _ _
  · rename_i hkmsi hmfa
    exact h hkmsi hmfa

/-- A record past authentication has no challenge. -/
theorem challenge_of_kmsi (t : LoginTxn) (kmsi : TxnKmsi) :
    ({ t with kmsi := some kmsi } : LoginTxn).challenge? = none := rfl

theorem insertSession_straight (session : NewSession) :
    (getSessionWindows >>= fun _ => await (.insertSession session)).Straight
      fun c => c.steady = true :=
  getSessionWindows_straight.bind fun _ => straight_await rfl

/-- Whatever was in hand, it may be replaced by a record past authentication. -/
theorem settle_bind {g : CardPhase} (hg : g.record = some t) {t' : LoginTxn}
    {f : Unit → Handler Response} (hattempts : t.attempts ≤ t'.attempts)
    (hchallenge : t'.challenge? = none)
    (hf : (cardProtocol id req call).Obeys cardPost (.read t' none) (f ())) :
    (cardProtocol id req call).Obeys cardPost g (updateTxn id t' >>= f) := by
  obtain ⟨drawn, rfl⟩ | ⟨challenge, rfl⟩ := CardPhase.record_cases hg
  · refine rewrite_bind hattempts ?_ hf
    rw [hchallenge]
    exact List.mem_cons_self
  · exact Protocol.obeys_await_bind.mpr ⟨.settle hattempts hchallenge, rfl, fun _ => hf⟩

theorem finishLogin_obeys {g : CardPhase} (hg : g.record = some t) {sub : Uuid}
    {amr : List JsString} {acr label : JsString} (hattempts : t.attempts ≤ txn.attempts) :
    (cardProtocol id req call).Obeys cardPost g (finishLogin P id txn sub amr acr label) := by
  unfold finishLogin createSession
  rw [Prog.bind_assoc]
  refine draw_bind hg fun g' token hg' => ?_
  refine holds_bind hg' (insertSession_straight _) fun sid => ?_
  refine holds_bind hg' (straight_await rfl) fun now => ?_
  exact settle_bind hg' hattempts (challenge_of_kmsi _ _) (obeys_read (renderKmsi_straight _))

/-- The record in hand is deleted. -/
theorem remove_bind {g : CardPhase} (hg : g.record = some t) {f : Unit → Handler Response}
    (hf : (cardProtocol id req call).Obeys cardPost .ended (f ())) :
    (cardProtocol id req call).Obeys cardPost g (consumeTxn id >>= f) := by
  have hnext : ∀ r, (cardProtocol id req call).next g (.del [.txn id]) r = .ended := by
    obtain ⟨drawn, rfl⟩ | ⟨challenge, rfl⟩ := CardPhase.record_cases hg
    · exact fun _ => rfl
    · exact fun _ => rfl
  refine Protocol.obeys_await_bind.mpr ⟨.remove hg, ?_, fun r => ?_⟩
  · rw [hnext]
    rfl
  · rw [hnext]
    exact hf

/-- A code, then the deletion. -/
theorem redirectWithCode_obeys {g : CardPhase} (hg : g.record = some t) {data : AuthCode} :
    (cardProtocol id req call).Obeys cardPost g (redirectWithCode id txn data) := by
  unfold redirectWithCode createCode
  rw [Prog.bind_assoc]
  refine draw_bind hg fun g' code hg' => ?_
  have hnext : ∀ r, (cardProtocol id req call).next g' (.set (.code code) data 60) r = .code r := by
    obtain ⟨drawn, rfl⟩ | ⟨challenge, rfl⟩ := CardPhase.record_cases hg'
    · exact fun _ => rfl
    · exact fun _ => rfl
  rw [Prog.bind_assoc]
  refine Protocol.obeys_await_bind.mpr ⟨.code hg', ?_, fun r => ?_⟩
  · rw [hnext]
    rfl
  · rw [hnext]
    exact Protocol.obeys_await_bind.mpr ⟨.removeCoded, rfl, fun _ => rfl⟩

theorem getTxn_bind {f : Option LoginTxn → Handler Response}
    (hnone : (cardProtocol req.txn req call).Obeys cardPost .ended (f none))
    (hfound : ∀ t, (cardProtocol req.txn req call).Obeys cardPost
      (call.afterLookup req (some (some t))) (f (some t)))
    (hmissing : (cardProtocol req.txn req call).Obeys cardPost .before (f none)) :
    (cardProtocol req.txn req call).Obeys cardPost .before (getTxn req.txn >>= f) := by
  unfold getTxn
  split_ifs
  · exact hmissing
  · have hnext : ∀ r, (cardProtocol req.txn req call).next .before (.get (.txn req.txn)) r =
        call.afterLookup req r := fun r => if_pos rfl
    refine Protocol.obeys_await_bind.mpr ⟨.lookup, ?_, fun r => ?_⟩
    · rw [hnext]
      rfl
    · rw [hnext]
      cases r with
      | none => exact hnone
      | some t => exact hfound t

theorem obeys_before {p : Handler Response} (h : p.Straight fun c => c.steady = true) :
    (cardProtocol id req call).Obeys cardPost .before p := by
  refine Protocol.Obeys.of_only h.toOnly (fun c hc => ⟨.idle rfl (steady_idle hc), fun r => ?_⟩)
    fun _ => rfl
  cases c with
  | _ => first | rfl | exact absurd hc Bool.false_ne_true

theorem afterLookup_read (h : call.refusedAtOnce req t = false) :
    call.afterLookup req (some (some t)) = .read t none := by
  rw [CardCall.afterLookup, h]
  exact if_neg Bool.false_ne_true

/-- Every handler but POST /login/challenge has the record in hand when it finds one. -/
theorem lookup_obeys {f : LoginTxn → Handler Response}
    (hcall : ∀ t, call.refusedAtOnce req t = false)
    (hf : ∀ t, (cardProtocol req.txn req call).Obeys cardPost (.read t none) (f t)) :
    (cardProtocol req.txn req call).Obeys cardPost .before (getTxn req.txn >>= fun
      | none => txnExpired
      | some t => f t) := by
  refine getTxn_bind (obeys_over txnExpired_straight) (fun t => ?_)
    (obeys_before txnExpired_straight)
  rw [afterLookup_read (hcall t)]
  exact hf t

theorem findByUsernameOrEmail_straight (identifier : JsString) :
    (findByUsernameOrEmail identifier).Straight fun c => c.steady = true := by
  refine straight_await_bind rfl fun row => ?_
  split
  · trivial
  · split_ifs
    · exact straight_await rfl
    · trivial

theorem checkPassword_only (username password : JsString) :
    (checkPassword username password).Only fun c => c.steady = true := by
  refine (findByUsernameOrEmail_straight _).toOnly.bind fun row => ?_
  split
  · trivial
  · split_ifs
    · trivial
    · refine Prog.Only.bind ?_ fun valid => trivial
      unfold verifyPassword
      split
      · trivial
      · refine Prog.Only.bind ?_ fun _ => trivial
        exact only_attempt.mpr (only_await.mpr rfl)

theorem demandedMethods_straight (row : IdentityRow) :
    (demandedMethods row).Straight fun c => c.steady = true := by
  unfold demandedMethods
  split_ifs
  · trivial
  · exact straight_await_bind rfl fun _ => straight_await_bind rfl fun _ => trivial

theorem submitPassword_obeys {username password : JsString} (hmfa : txn.mfa = none) :
    (cardProtocol req.txn req call).Obeys cardPost (.read txn drawn)
      (submitPassword P req txn username password) := by
  unfold submitPassword
  split_ifs
  · exact rfl
  refine read_bind (checkPassword_only _ _) fun row => ?_
  split
  · exact renderLogin_obeys _
  · rename_i row
    refine read_bind (demandedMethods_straight _).toOnly fun methods => ?_
    split_ifs
    · exact finishLogin_obeys rfl le_rfl
    · refine rewrite_bind ?_ ?_ (renderChallenge_obeys rfl _ _)
      · rw [LoginTxn.attempts, hmfa]
        exact Nat.zero_le _
      · have hnew := challenge_of_mfa txn (newMfa row username methods)
        simp only [List.mem_cons, List.not_mem_nil, or_false] at hnew
        rcases hnew with h | h <;> rw [h] <;> exact List.mem_cons_self

/-- POST /login/stay: the session upgrade, then the end of the transaction. -/
theorem completeStay_obeys (kmsi : TxnKmsi) :
    (cardProtocol id req call).Obeys cardPost (.read txn drawn) (completeStay id txn kmsi) := by
  unfold completeStay
  split
  · exact remove_bind rfl rfl
  · refine read_bind (only_await.mpr rfl) fun allowed => ?_
    split_ifs
    · exact remove_bind rfl rfl
    · exact redirectWithCode_obeys rfl

theorem answerStay_straight (choice : JsString) (kmsi : TxnKmsi) :
    (answerStay P req choice kmsi).Straight fun c => c.steady = true := by
  unfold answerStay persistSession
  split_ifs
  · split
    · trivial
    · exact getSessionWindows_straight.bind fun _ => straight_await rfl
  · trivial

/-- A refused signature or counter is a refusal; otherwise the assertion is accepted. -/
theorem verifyAndCount_bind {a : Assertion} {challenge : JsString} {i : Uuid} {row : PasskeyRow}
    {f : Except String Uuid → Handler Response} (hch : t.challenge? = some challenge)
    (hrefused : ∀ drawn e,
      (cardProtocol id req call).Obeys cardPost (call.refusal t drawn) (f (.error e)))
    (haccepted : ∀ sub,
      (cardProtocol id req call).Obeys cardPost (.accepted t challenge) (f (.ok sub))) :
    (cardProtocol id req call).Obeys cardPost (.read t drawn)
      (verifyAndCount a challenge i row >>= f) := by
  unfold verifyAndCount
  rw [Prog.bind_assoc]
  refine Protocol.obeys_attempt_bind.mpr ⟨.verify hch, fun r => ?_⟩
  match r with
  | none => exact hrefused drawn _
  | some none => exact hrefused drawn _
  | some (some newCounter) =>
    show (cardProtocol id req call).Obeys cardPost (.accepted t challenge) _
    rw [Prog.bind_assoc]
    refine Protocol.obeys_attempt_bind.mpr ⟨.idle rfl rfl, fun r => ?_⟩
    cases r with
    | none => exact hrefused none _
    | some _ => exact haccepted _

/-- The lookup of the credential and its owner come first; the phase that is left
decides how the request goes on. -/
theorem verifyLoginAssertion_bind {a : Assertion} {challenge : JsString} {expected : Option Uuid}
    {f : Except String Uuid → Handler Response} (hch : t.challenge? = some challenge)
    (hrow : ∀ row : PasskeyRow, ∀ i, call.rejectsRow t (some (i, row)) =
      expected.any fun sub => decide (row.userSub ≠ sub))
    (hmalformed : a.credentialId = [] → ∀ e,
      (cardProtocol id req call).Obeys cardPost (.read t drawn) (f (.error e)))
    (hrefused : ∀ drawn e,
      (cardProtocol id req call).Obeys cardPost (call.refusal t drawn) (f (.error e)))
    (haccepted : ∀ sub,
      (cardProtocol id req call).Obeys cardPost (.accepted t challenge) (f (.ok sub))) :
    (cardProtocol id req call).Obeys cardPost (.read t drawn)
      (verifyLoginAssertion a challenge expected >>= f) := by
  unfold verifyLoginAssertion
  split_ifs with hempty
  · exact hmalformed hempty _
  rw [Prog.bind_assoc]
  refine Protocol.obeys_await_bind.mpr ⟨.credential, rfl, fun found => ?_⟩
  cases found with
  | none => exact hrefused drawn _
  | some found =>
    obtain ⟨i, row⟩ := found
    show (cardProtocol id req call).Obeys cardPost
      (if call.rejectsRow t (some (i, row)) then call.refusal t drawn else .read t drawn) _
    rw [hrow row i]
    by_cases hwrong : (expected.any fun sub => decide (row.userSub ≠ sub)) = true
    · simp only [hwrong, if_true]
      exact hrefused drawn _
    · rw [if_neg hwrong]
      simp only [hwrong]
      exact verifyAndCount_bind hch hrefused haccepted

theorem failBack_obeys {g : CardPhase} (hg : g.record = some txn) (hkmsi : txn.kmsi = none)
    (hmfa : txn.mfa = none) :
    (cardProtocol id req call).Obeys cardPost g (failBack id txn) := by
  refine settle_bind hg le_rfl ?_ (renderLogin_obeys _)
  rw [LoginTxn.challenge?, hkmsi, hmfa]

theorem challenge_of_filter {o : Option JsString} {challenge : JsString}
    (h : (o.filter fun c => decide (c ≠ [])) = some challenge) : o = some challenge :=
  (Option.filter_eq_some_iff.mp h).1

theorem submitPasskey_obeys (credential : Option Assertion) (hkmsi : txn.kmsi = none)
    (hmfa : txn.mfa = none) :
    (cardProtocol req.txn req (.passkey credential)).Obeys cardPost (.read txn drawn)
      (submitPasskey P req txn credential) := by
  unfold submitPasskey
  split_ifs
  · exact rfl
  split
  · exact failBack_obeys rfl hkmsi hmfa
  · rename_i challenge hchallenge
    have hch : txn.challenge? = some challenge := by
      rw [LoginTxn.challenge?, hkmsi, hmfa]
      exact challenge_of_filter hchallenge
    unfold passkeyAccount
    split
    · exact failBack_obeys rfl hkmsi hmfa
    · rename_i assertion
      rw [Prog.bind_assoc]
      refine verifyLoginAssertion_bind hch (fun _ _ => rfl) (fun _ _ => ?_) (fun _ _ => ?_)
        fun sub => ?_
      · exact failBack_obeys rfl hkmsi hmfa
      · exact failBack_obeys rfl hkmsi hmfa
      · -- an accepted assertion still needs an active account
        refine holds_bind rfl (liveIdentity_straight sub) fun row => ?_
        cases row with
        | none => exact failBack_obeys rfl hkmsi hmfa
        | some row => exact finishLogin_obeys rfl le_rfl

theorem sendIssued_obeys {mfa : TxnMfa} (hmfa : txn.mfa = some mfa) :
    (cardProtocol id req call).Obeys cardPost (.read txn drawn) (sendIssued id txn mfa) := by
  have hmail : ∀ row, (mailCode row).Straight fun c => c.steady = true := by
    intro row
    unfold mailCode
    split
    · trivial
    · exact siteNameSetting_straight.bind fun _ => straight_await rfl
  unfold sendIssued
  refine read_bind (only_await.mpr rfl) fun row => ?_
  refine read_bind (hmail row).toOnly fun sent => ?_
  split_ifs
  · exact renderChallenge_obeys hmfa _ _
  · refine rewrite_bind (attempts_of_mfa hmfa).le ?_ (renderChallenge_obeys rfl _ _)
    rw [LoginTxn.challenge?, LoginTxn.challenge?, hmfa]
    cases txn.kmsi with
    | none => exact List.mem_cons_of_mem _ List.mem_cons_self
    | some kmsi => exact List.mem_cons_self

/-- The failure path counts the attempt or burns the transaction first. -/
theorem strongFail_obeys {mfa used : TxnMfa} (hmfa : t.mfa = some mfa)
    (hused : used = mfa ∨ used = { mfa with passkeyChallenge := none }) (method : JsString) :
    (cardProtocol id req call).Obeys cardPost (.refused t) (strongFail id t used method) := by
  have hattempts : used.attempts = t.attempts := by
    rw [attempts_of_mfa hmfa]
    rcases hused with rfl | rfl <;> rfl
  by_cases hburn : used.attempts + 1 ≥ MAX_CHALLENGE_ATTEMPTS
  · have hprog : strongFail id t used method = _ := if_pos hburn
    rw [hprog]
    refine Protocol.obeys_await_bind.mpr ⟨.burn (hattempts ▸ hburn), rfl, fun _ => ?_⟩
    split_ifs
    · exact rfl
    · exact obeys_over (siteNameSetting_straight.bind fun _ => trivial)
  · have hprog : strongFail id t used method = _ := if_neg hburn
    rw [hprog]
    refine Protocol.obeys_await_bind.mpr ⟨.count ?_ ?_ ?_, rfl, fun _ => ?_⟩
    · exact congrArg (· + 1) hattempts
    · exact Nat.lt_of_not_ge hburn
    · rw [LoginTxn.challenge?, LoginTxn.challenge?, hmfa]
      cases t.kmsi with
      | some kmsi => exact List.mem_cons_self
      | none =>
        rcases hused with rfl | rfl
        · exact List.mem_cons_of_mem _ (List.mem_singleton_self _)
        · exact List.mem_cons_self
    · exact renderChallenge_obeys rfl _ _

/-- A verified factor: a code, a stamp, or a new session. -/
theorem succeed_obeys {g : CardPhase} (hg : g.record = some t) {mfa : TxnMfa} {amr : List JsString}
    {acr : JsString} (hattempts : t.attempts ≤ mfa.attempts) :
    (cardProtocol id req call).Obeys cardPost g (succeed P id t mfa amr acr) := by
  unfold succeed
  split
  · unfold succeedReturn
    refine holds_bind hg (straight_await rfl) fun allowed => ?_
    split_ifs
    · exact remove_bind hg rfl
    · refine holds_bind hg (straight_await rfl) fun now => ?_
      exact redirectWithCode_obeys hg
  · refine holds_bind hg (straight_await rfl) fun _ => ?_
    exact remove_bind hg rfl
  · exact finishLogin_obeys hg hattempts

section Challenge

variable {method code : JsString} {credential : Option Assertion}

theorem challengeTotp_obeys {mfa : TxnMfa} (hmfa : t.mfa = some mfa) :
    (cardProtocol id req (.challenge method code credential)).Obeys cardPost (.read t drawn)
      (challengeTotp P id t mfa code) := by
  unfold challengeTotp
  refine Protocol.obeys_await_bind.mpr ⟨.totp, rfl, fun valid => ?_⟩
  cases valid with
  | true => exact succeed_obeys rfl (attempts_of_mfa hmfa).le
  | false => exact strongFail_obeys hmfa (.inl rfl) _

theorem challengeEmail_obeys {mfa : TxnMfa} (hmfa : t.mfa = some mfa) :
    (cardProtocol id req call).Obeys cardPost (.read t drawn) (challengeEmail P id t mfa code) := by
  unfold challengeEmail
  refine read_bind (only_await.mpr rfl) fun check => ?_
  cases check with
  | invalid mustResend => exact renderChallenge_obeys hmfa _ _
  | valid => exact finishLogin_obeys rfl le_rfl

/-- Without a challenge or a usable credential the attempt has failed at once. -/
theorem challengePasskey_obeys {mfa : TxnMfa} (hkmsi : t.kmsi = none) (hmfa : t.mfa = some mfa)
    {g : CardPhase} (hg : g = if (mfa.passkeyChallenge.filter fun c => decide (c ≠ [])).isNone ||
      credential.all fun a => decide (a.credentialId = []) then .refused t else .read t drawn) :
    (cardProtocol id req (.challenge method code credential)).Obeys cardPost g
      (challengePasskey P id t mfa credential) := by
  have hfail : (cardProtocol id req (.challenge method code credential)).Obeys cardPost
      (.refused t) (strongFail id t { mfa with passkeyChallenge := none } (js "passkey")) :=
    strongFail_obeys hmfa (.inr rfl) _
  unfold challengePasskey
  split
  · rename_i hnone
    rw [hnone] at hg
    rw [hg]
    exact hfail
  · rename_i challenge hchallenge
    rw [Option.all_none, Bool.or_true] at hg
    rw [hg]
    exact hfail
  · rename_i challenge assertion hchallenge
    rw [hchallenge, Option.isNone_some, Bool.false_or, Option.all_some] at hg
    by_cases hempty : assertion.credentialId = []
    · rw [if_pos (decide_eq_true hempty)] at hg
      rw [hg, verifyLoginAssertion, if_pos hempty]
      exact hfail
    · rw [if_neg (by simp [hempty])] at hg
      rw [hg]
      have hch : t.challenge? = some challenge := by
        rw [LoginTxn.challenge?, hkmsi, hmfa]
        exact challenge_of_filter hchallenge
      refine verifyLoginAssertion_bind hch (fun row i => ?_) (fun h => absurd h hempty)
        (fun _ _ => hfail) fun sub => ?_
      · show (t.mfa.any fun mfa => decide (row.userSub ≠ mfa.sub)) = _
        rw [hmfa]
        rfl
      · exact succeed_obeys rfl (attempts_of_mfa hmfa).le

/-- The guards come first; what they let through is one evaluated factor. -/
theorem submitChallenge_obeys {mfa : TxnMfa} (hkmsi : t.kmsi = none) (hmfa : t.mfa = some mfa)
    {g : CardPhase} (hg : g = if csrfOk req t && decide (method ∈ mfa.methods) &&
        decide (method = js "passkey") &&
        ((mfa.passkeyChallenge.filter fun c => decide (c ≠ [])).isNone ||
          credential.all fun a => decide (a.credentialId = [])) then .refused t
      else .read t none) :
    (cardProtocol id req (.challenge method code credential)).Obeys cardPost g
      (if csrfOk req t = false ∨ method ∉ mfa.methods then pure badRequest
        else if method = js "totp" then challengeTotp P id t mfa code
        else if method = js "passkey" then challengePasskey P id t mfa credential
        else challengeEmail P id t mfa code) := by
  by_cases hguard : csrfOk req t = false ∨ method ∉ mfa.methods
  · have hread : g = .read t none := by
      rw [hg]
      refine if_neg fun h => ?_
      simp only [Bool.and_eq_true, decide_eq_true_eq] at h
      rcases hguard with hcsrf | hmethod
      · exact absurd h.1.1.1 (hcsrf ▸ Bool.false_ne_true)
      · exact hmethod h.1.1.2
    rw [if_pos hguard, hread]
    exact rfl
  · rw [if_neg hguard]
    rw [not_or, not_not, Bool.not_eq_false] at hguard
    rw [hguard.1, decide_eq_true hguard.2, Bool.true_and, Bool.true_and] at hg
    by_cases hpasskey : method = js "passkey"
    · rw [decide_eq_true hpasskey, Bool.true_and] at hg
      rw [if_neg (hpasskey ▸ by decide), if_pos hpasskey]
      exact challengePasskey_obeys hkmsi hmfa hg
    · rw [decide_eq_false hpasskey, Bool.false_and, if_neg Bool.false_ne_true] at hg
      rw [hg]
      split_ifs
      · exact challengeTotp_obeys hmfa
      · exact challengeEmail_obeys hmfa

theorem postLoginChallenge_obeys :
    (cardProtocol req.txn req (.challenge method code credential)).Obeys cardPost .before
      (postLoginChallenge P req method code credential) := by
  refine getTxn_bind (obeys_over txnExpired_straight) (fun t => ?_)
    (obeys_before txnExpired_straight)
  dsimp only
  split
  · rename_i kmsi hkmsi
    rw [afterLookup_read (by simp [CardCall.refusedAtOnce, hkmsi])]
    exact obeys_read (renderKmsi_straight _)
  · rename_i hkmsi hmfa
    rw [afterLookup_read (by simp [CardCall.refusedAtOnce, hmfa])]
    exact obeys_read txnExpired_straight
  · rename_i mfa hkmsi hmfa
    refine submitChallenge_obeys hkmsi hmfa ?_
    simp only [CardCall.afterLookup, CardCall.refusedAtOnce, hkmsi, hmfa]

end Challenge

/-- Every request on the transaction keeps to the protocol. -/
theorem handler_obeys (call : CardCall) :
    (cardProtocol req.txn req call).Obeys cardPost .before (call.handler P req) := by
  cases call with
  | form use =>
    refine lookup_obeys (fun _ => rfl) fun t => ?_
    split
    · exact obeys_read (renderKmsi_straight _)
    · rename_i mfa hkmsi hmfa
      exact renderChallenge_obeys hmfa _ _
    · exact renderLogin_obeys _
  | passkeyForm =>
    refine lookup_obeys (fun _ => rfl) fun t => renderPhase_obeys fun _ _ => ?_
    exact loginPasskeyOptions_bind fun _ _ _ =>
      obeys_read (siteNameSetting_straight.bind fun _ => trivial)
  | password username pw =>
    exact lookup_obeys (fun _ => rfl) fun t => renderPhase_obeys fun _ hmfa =>
      submitPassword_obeys hmfa
  | stay choice =>
    refine lookup_obeys (fun _ => rfl) fun t => ?_
    split
    · exact obeys_read txnExpired_straight
    · split_ifs
      · exact rfl
      · exact read_bind (answerStay_straight _ _).toOnly fun _ => completeStay_obeys _
  | passkey credential =>
    exact lookup_obeys (fun _ => rfl) fun t => renderPhase_obeys fun hkmsi hmfa =>
      submitPasskey_obeys credential hkmsi hmfa
  | sendEmail =>
    refine lookup_obeys (fun _ => rfl) fun t => ?_
    split
    · exact obeys_read txnExpired_straight
    · rename_i mfa hmfa
      split_ifs
      · exact rfl
      · refine read_bind (only_await.mpr rfl) fun issue => ?_
        split
        · exact renderChallenge_obeys hmfa _ _
        · exact renderChallenge_obeys hmfa _ _
        · exact sendIssued_obeys hmfa
  | challenge method code credential => exact postLoginChallenge_obeys

end Programs

end DreamSso
