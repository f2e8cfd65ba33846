import DreamSso.Registrations
import DreamSso.LinkWindows

/-!
Which pending registrations a call touches. A call that claims a use of a code, or
voids it, drops the pending registration of the address the row of the code remembers.
That registration may carry another code by then: the address has been registered again
since. Calls run one after another here; time passes between them.
-/
namespace DreamSso.Registration

open Interleaving JsConversions JsStrings Transitions

/-- The live pending registration of an address. -/
def pendingIn (P : Primitives) (s : Links.LinkDb) (email : JsString) :
    Option Links.PendingRegistration := s.get (P.pendKey email)

def pendingAt (P : Primitives) (s : Db) (email : JsString) : Option Links.PendingRegistration :=
  pendingIn P s.links email

section Alone

variable (P : Primitives) (out : Outside)

def withLinks (s : Db) (links : Links.LinkDb) : Db := { s with links := links }

theorem links_embed : Embeds Command.link (fun _ r => r) (Links.linkServer P.toPrimitives)
    (registrationServer P) Db.links withLinks out.links out where
  perform c t := by
    refine Prod.ext ?_ rfl
    exact Option.map_id'
  part_set _ _ := rfl
  set_set _ _ _ := rfl
  set_part _ := rfl

theorem links_alone (p : Links.Handler α) (s : Db) :
    (links p).alone (registrationServer P) out s =
      ((p.alone (Links.linkServer P.toPrimitives) out.links s.links).1,
        withLinks s (p.alone (Links.linkServer P.toPrimitives) out.links s.links).2) :=
  alone_within (links_embed P out) p s

theorem ask_alone (q : Question) (s : Db) :
    (ask q).alone (registrationServer P) out s = (some (out.answer q), s) := alone_await _ _ _ _

theorem links_bind_alone (p : Links.Handler α) (f : α → Handler β) (s : Db) :
    (links p >>= f).alone (registrationServer P) out s =
      followed (registrationServer P) out f
        ((p.alone (Links.linkServer P.toPrimitives) out.links s.links).1,
          withLinks s (p.alone (Links.linkServer P.toPrimitives) out.links s.links).2) := by
  rw [alone_bind, links_alone]

theorem ask_bind_alone (q : Question) (f : q.Answer → Handler β) (s : Db) :
    (ask q >>= f).alone (registrationServer P) out s =
      (f (out.answer q)).alone (registrationServer P) out s := by
  rw [alone_bind, ask_alone]
  rfl

/-- The store without the pending registration of the address a row remembers. -/
def dropped (s : Db) (pendingEmail : Option JsString) : Db :=
  match remembered pendingEmail with
  | some held => withLinks s (s.links.del [P.pendKey held])
  | none => s

theorem dropRemembered_alone (pendingEmail : Option JsString) (s : Db) :
    (dropRemembered P pendingEmail).alone (registrationServer P) out s =
      (some (), dropped P s pendingEmail) := by
  unfold dropRemembered dropped
  cases remembered pendingEmail with
  | none => rfl
  | some held => exact links_alone P out _ s

theorem voidInvite_alone (code : JsString) (pendingEmail : Option JsString) (s : Db) :
    (voidInvite P code pendingEmail).alone (registrationServer P) out s =
      (some (), (dropped P s pendingEmail).voidInvite code) := by
  rw [voidInvite, alone_bind, dropRemembered_alone]
  rfl

/-- What claiming a use comes to, and the store it leaves. -/
def claimed (s : Db) (invite : LiveInvite) (email : JsString) : Use × Db :=
  if sameAddress P invite email then (.resend, s.touchInvite invite.code)
  else if MAX_CODE_USES ≤ invite.useCount then
    (.voided, (dropped P s invite.pendingEmail).voidInvite invite.code)
  else (.claimed, (dropped P s invite.pendingEmail).countUse invite.code email)

theorem claimInviteUse_alone (invite : LiveInvite) (email : JsString) (s : Db) :
    (claimInviteUse P invite email).alone (registrationServer P) out s =
      (some (claimed P s invite email).1, (claimed P s invite email).2) := by
  unfold claimInviteUse claimed
  split_ifs with hsame hmax
  · rfl
  · rw [alone_bind, voidInvite_alone]
    rfl
  · rw [alone_bind, dropRemembered_alone]
    rfl

/-- The links after a registration was made pending. -/
def issued (s : Links.LinkDb) (email : JsString) (code : Option JsString) : Links.LinkDb :=
  match (pendingIn P s email).filter fun cur => cur.reusable code (s.clock / 1000) with
  | some cur => s.setKeepTtl (P.pendKey email) { cur with lastSent := s.clock / 1000 }
  | none =>
      let token := P.randomBytes 48 .hex s.draws
      { s with draws := s.draws + 1 }.set (P.pendKey email)
        (⟨token, code, s.clock / 1000, s.clock / 1000⟩ : Links.PendingRegistration)
        Links.TOKEN_TTL_SECONDS

theorem issuePending_alone (email : JsString) (code : Option JsString) (s : Links.LinkDb) :
    ∃ answer, (Links.issuePending P.toPrimitives email code).alone
      (Links.linkServer P.toPrimitives) out.links s = (some answer, issued P s email code) := by
  have hread : ∀ f : Option Links.PendingRegistration → Links.Handler Links.Issued,
      (Links.getPending P.toPrimitives email >>= f).alone (Links.linkServer P.toPrimitives)
        out.links s = (f (pendingIn P s email)).alone (Links.linkServer P.toPrimitives) out.links s :=
    fun _ => rfl
  have hnow : ∀ f : ℤ → Links.Handler Links.Issued,
      (Links.nowSeconds >>= f).alone (Links.linkServer P.toPrimitives) out.links s =
        (f (s.clock / 1000)).alone (Links.linkServer P.toPrimitives) out.links s := fun _ => rfl
  unfold Links.issuePending issued
  rw [hnow, hread]
  cases (pendingIn P s email).filter fun cur => cur.reusable code (s.clock / 1000) with
  | none => exact ⟨⟨P.randomBytes 48 .hex s.draws, false⟩, rfl⟩
  | some cur => exact ⟨⟨cur.token, true⟩, rfl⟩

/-- The answer of the checks of an address. -/
def admitted (s : Db) (email : JsString) : Except Response ℤ :=
  if !isEmail email || decide (254 < email.length) then
    .error (.errors 422 [("email", "invalid_email")])
  else if s.hasEmail P email || (s.links.get (P.addrKey email)).isSome then
    .error (.errors 422 [("email", "email_taken")])
  else if !out.answer .emailConfigured then .error (.error 503 "email_not_configured")
  else match out.answer (.reserveSend email) with
    | .denied retryAfter canRetry => .error (.rateLimited retryAfter canRetry)
    | .ok nextBackoff => .ok nextBackoff

theorem admitAddress_alone (email : JsString) (s : Db) :
    (admitAddress P email).alone (registrationServer P) out s = (some (admitted P out s email), s) := by
  have htaken : ∀ f : Bool → Handler (Except Response ℤ),
      (await (.emailTaken email) >>= f).alone (registrationServer P) out s =
        (f (s.hasEmail P email)).alone (registrationServer P) out s := fun _ => rfl
  have hchange : ∀ f : Bool → Handler (Except Response ℤ),
      (links (Links.changePendingForAddress P.toPrimitives email) >>= f).alone
        (registrationServer P) out s =
        (f (s.links.get (P.addrKey email)).isSome).alone (registrationServer P) out s :=
    fun _ => rfl
  unfold admitAddress admitted
  by_cases hshape : (!isEmail email || decide (254 < email.length)) = true
  · rw [if_pos hshape, if_pos hshape]
    rfl
  · rw [if_neg hshape, if_neg hshape, htaken]
    cases s.hasEmail P email with
    | true => rfl
    | false =>
      rw [if_neg Bool.false_ne_true, hchange, Bool.false_or]
      cases (s.links.get (P.addrKey email)).isSome with
      | true => rfl
      | false =>
        rw [if_neg Bool.false_ne_true]
        show (ask .emailConfigured >>= _ : Handler _).alone _ _ _ = _
        rw [ask_bind_alone]
        cases out.answer .emailConfigured with
        | false => rfl
        | true =>
          show (ask (.reserveSend email) >>= _ : Handler _).alone _ _ _ = _
          rw [ask_bind_alone]
          cases out.answer (.reserveSend email) <;> rfl

theorem sendLink_leaves (email : JsString) (code : Option JsString) (nextBackoff : ℤ) (s : Db) :
    ((sendLink P email code nextBackoff).alone (registrationServer P) out s).2 =
      withLinks s (issued P s.links email code) := by
  obtain ⟨answer, hissued⟩ := issuePending_alone P out email code s.links
  unfold sendLink
  rw [links_bind_alone, hissued]
  show ((ask (.sendEmail email answer.token) >>= _ : Handler _).alone _ _ _).2 = _
  rw [ask_bind_alone]
  cases out.answer (.sendEmail email answer.token) <;> rfl

/-- The store after a use was claimed and, unless the code was voided, the link was sent. -/
def claimedAndSent (s : Db) (invite : LiveInvite) (email : JsString) : Db :=
  let after := (claimed P s invite email).2
  if (claimed P s invite email).1 = .voided then after
  else withLinks after (issued P after.links email (some invite.code))

/-- The invitation a registration is started with, unless it is refused before. -/
def begun (s : Db) (body : StartBody) : Option (Option LiveInvite) :=
  if out.answer .portalAssertion && out.answer .registrationEnabled then
    (if out.answer .invitationRequired || decide (body.invitation P ≠ []) then
      (if isCode (body.invitation P) then s.liveInvite (body.invitation P) else none).map some
    else some none).filter fun _ => (admitted P out s body.address).isOk
  else none

/-- The store a start leaves. -/
def started (s : Db) (body : StartBody) : Db :=
  match begun P out s body with
  | none => s
  | some none => withLinks s (issued P s.links body.address none)
  | some (some invite) => claimedAndSent P s invite body.address

theorem claimAndSend_leaves (invite : Option LiveInvite) (email : JsString) (nextBackoff : ℤ)
    (s : Db) : ((claimAndSend P invite email nextBackoff).alone (registrationServer P) out s).2 =
      match invite with
      | none => withLinks s (issued P s.links email none)
      | some invite => claimedAndSent P s invite email := by
  cases invite with
  | none => exact sendLink_leaves P out email none nextBackoff s
  | some invite =>
    show ((claimInviteUse P invite email >>= _ : Handler _).alone _ _ _).2 =
      claimedAndSent P s invite email
    rw [alone_bind, claimInviteUse_alone, claimedAndSent]
    obtain ⟨use, after⟩ := claimed P s invite email
    cases use with
    | voided => rfl
    | resend => exact sendLink_leaves P out email _ nextBackoff after
    | claimed => exact sendLink_leaves P out email _ nextBackoff after

theorem startWith_leaves (invite : Option LiveInvite) (email : JsString) (s : Db) :
    ((startWith P invite email).alone (registrationServer P) out s).2 =
      if (admitted P out s email).isOk then
        match invite with
        | none => withLinks s (issued P s.links email none)
        | some invite => claimedAndSent P s invite email
      else s := by
  unfold startWith
  rw [alone_bind, admitAddress_alone]
  cases admitted P out s email with
  | error response => rfl
  | ok nextBackoff => exact claimAndSend_leaves P out invite email nextBackoff s

theorem getLiveInvite_bind_alone (code : JsString) (f : Option LiveInvite → Handler β) (s : Db) :
    (getLiveInvite code >>= f).alone (registrationServer P) out s =
      (f (if isCode code then s.liveInvite code else none)).alone (registrationServer P) out s := by
  unfold getLiveInvite
  split_ifs <;> rfl

theorem startRegistration_leaves (body : StartBody) (s : Db) :
    ((startRegistration P body).alone (registrationServer P) out s).2 = started P out s body := by
  unfold startRegistration started begun
  rw [ask_bind_alone]
  cases out.answer .portalAssertion with
  | false => rfl
  | true =>
    show ((ask .registrationEnabled >>= _ : Handler _).alone _ _ _).2 = _
    rw [ask_bind_alone]
    cases out.answer .registrationEnabled with
    | false => rfl
    | true =>
      show ((ask .invitationRequired >>= _ : Handler _).alone _ _ _).2 = _
      rw [ask_bind_alone, Bool.and_self, if_pos rfl]
      cases hneeded : out.answer .invitationRequired || decide (body.invitation P ≠ []) with
      | false =>
        show ((startWith P none body.address).alone _ _ _).2 = _
        rw [startWith_leaves]
        cases (admitted P out s body.address).isOk <;> rfl
      | true =>
        show ((getLiveInvite (body.invitation P) >>= _ : Handler _).alone _ _ _).2 = _
        rw [getLiveInvite_bind_alone]
        cases (if isCode (body.invitation P) then s.liveInvite (body.invitation P) else none) with
        | none => rfl
        | some invite =>
          show ((startWith P (some invite) body.address).alone _ _ _).2 = _
          rw [startWith_leaves]
          cases (admitted P out s body.address).isOk <;> rfl

end Alone

section Pending

variable (P : Primitives)

theorem pendKey_eq_iff {a b : JsString} :
    P.pendKey a = P.pendKey b ↔ P.toLowerCase a = P.toLowerCase b :=
  ⟨fun h => Links.Key.pending.inj h, fun h => congrArg Links.Key.pending h⟩

theorem pendingIn_congr {l l' : Links.LinkDb} {email : JsString}
    (h : l'.redis (P.pendKey email) = l.redis (P.pendKey email)) (hclock : l'.clock = l.clock) :
    pendingIn P l' email = pendingIn P l email := by
  unfold pendingIn Links.LinkDb.get
  rw [hclock, ExpiringStore.get_congr h]

/-- Two addresses that differ in more than case. -/
def OtherAddress (a b : JsString) : Prop := P.toLowerCase a ≠ P.toLowerCase b

variable {P}

theorem OtherAddress.key {a b : JsString} (h : OtherAddress P a b) : P.pendKey a ≠ P.pendKey b :=
  fun heq => h ((pendKey_eq_iff P).mp heq)

theorem pendingAt_same (s : Db) {a b : JsString} (h : P.toLowerCase a = P.toLowerCase b) :
    pendingAt P s a = pendingAt P s b := by
  have hkey : ∀ low : JsString, low = P.toLowerCase b →
      (s.links.get (.pending low) : Option Links.PendingRegistration) =
        s.links.get (.pending (P.toLowerCase b)) := by
    rintro _ rfl
    rfl
  exact hkey _ h

theorem dropped_other {s : Db} {pendingEmail : Option JsString} {email : JsString}
    (h : ∀ held, remembered pendingEmail = some held → OtherAddress P email held) :
    pendingAt P (dropped P s pendingEmail) email = pendingAt P s email := by
  unfold dropped
  cases hheld : remembered pendingEmail with
  | none => rfl
  | some held =>
    refine pendingIn_congr P ?_ rfl
    exact Links.LinkDb.del_of_notMem (by simpa using (h held hheld).key)

theorem dropped_self {s : Db} {pendingEmail : Option JsString} {held email : JsString}
    (hheld : remembered pendingEmail = some held) (hsame : ¬ OtherAddress P email held) :
    pendingAt P (dropped P s pendingEmail) email = none := by
  have hkey : P.pendKey email = P.pendKey held := (pendKey_eq_iff P).mpr (not_not.mp hsame)
  unfold dropped
  rw [hheld]
  refine ExpiringStore.get_of_none ?_ _
  exact Links.LinkDb.del_of_mem (by simp [hkey])

theorem issued_other {l : Links.LinkDb} {email address : JsString} {code : Option JsString}
    (h : OtherAddress P email address) :
    pendingIn P (issued P l address code) email = pendingIn P l email := by
  unfold issued
  cases (pendingIn P l address).filter fun cur => cur.reusable code (l.clock / 1000) with
  | none => exact pendingIn_congr P (Links.LinkDb.set_other h.key) rfl
  | some cur => exact pendingIn_congr P (Links.LinkDb.setKeepTtl_other h.key) rfl

/-- The registration that is pending afterwards carries the code it was started with. -/
theorem issued_code {l : Links.LinkDb} {address : JsString} {code : Option JsString}
    {r : Links.PendingRegistration} (h : pendingIn P (issued P l address code) address = some r) :
    r.code = code := by
  unfold issued at h
  cases hcur : (pendingIn P l address).filter fun cur => cur.reusable code (l.clock / 1000) with
  | none =>
    rw [hcur] at h
    obtain ⟨e, he, hr, -⟩ := ExpiringStore.get_eq_some_iff.mp h
    have hset := Links.LinkDb.set_self.symm.trans he
    rw [← hr, ← Option.some.inj hset]
  | some cur =>
    rw [hcur] at h
    obtain ⟨e, he, hr, -⟩ := ExpiringStore.get_eq_some_iff.mp h
    have hset := Links.LinkDb.setKeepTtl_self.symm.trans he
    rw [Option.filter_eq_some_iff, Links.PendingRegistration.reusable, decide_eq_true_eq] at hcur
    rw [← hr, ← Option.some.inj hset]
    exact hcur.2.1

/-- The address whose pending registration is dropped when a use is claimed for another one. -/
def claimDrops (P : Primitives) (invite : LiveInvite) (email : JsString) : Option JsString :=
  if sameAddress P invite email then none else remembered invite.pendingEmail

theorem claimDrops_other {invite : LiveInvite} {email held : JsString}
    (h : claimDrops P invite email = some held) :
    remembered invite.pendingEmail = some held ∧ OtherAddress P held email := by
  unfold claimDrops at h
  split_ifs at h with hsame
  refine ⟨h, fun heq => hsame ?_⟩
  rw [sameAddress, h, Option.any_some]
  exact decide_eq_true heq

theorem remembered_remembered (o : Option JsString) : remembered (remembered o) = remembered o := by
  cases o with
  | none => rfl
  | some email => by_cases h : email = [] <;> simp [remembered, h]

/-- Only the drop of a claim shows among the pending registrations. -/
theorem claimed_links (P : Primitives) (s : Db) (invite : LiveInvite) (address : JsString) :
    (claimed P s invite address).2.links = (dropped P s (claimDrops P invite address)).links := by
  have hdropped :
      dropped P s (remembered invite.pendingEmail) = dropped P s invite.pendingEmail := by
    rw [dropped, dropped, remembered_remembered]
  unfold claimed claimDrops
  split_ifs with hsame hmax
  · rfl
  · rw [hdropped]
    rfl
  · rw [hdropped]
    rfl

theorem claimDrops_remembered (P : Primitives) (invite : LiveInvite) (address : JsString) :
    remembered (claimDrops P invite address) = claimDrops P invite address := by
  unfold claimDrops
  split_ifs
  · rfl
  · exact remembered_remembered _

theorem claimed_kept {s : Db} {invite : LiveInvite} {email address : JsString}
    (h : ∀ held, claimDrops P invite address = some held → OtherAddress P email held) :
    pendingAt P (claimed P s invite address).2 email = pendingAt P s email := by
  rw [pendingAt, claimed_links]
  refine dropped_other fun held hheld => h held ?_
  rwa [claimDrops_remembered] at hheld

theorem claimed_dropped {s : Db} {invite : LiveInvite} {email held address : JsString}
    (h : claimDrops P invite address = some held) (hsame : ¬ OtherAddress P email held) :
    pendingAt P (claimed P s invite address).2 email = none := by
  rw [pendingAt, claimed_links]
  refine dropped_self ?_ hsame
  rwa [claimDrops_remembered]

theorem claimedAndSent_other {s : Db} {invite : LiveInvite} {email address : JsString}
    (h : OtherAddress P email address) :
    pendingAt P (claimedAndSent P s invite address) email =
      pendingAt P (claimed P s invite address).2 email := by
  unfold claimedAndSent
  split_ifs
  · rfl
  · exact issued_other h

end Pending

section Calls

variable (P : Primitives)

/-- What is called, with the answers it gets from outside, and the passing of time. -/
inductive Call
  | start (body : StartBody) (out : Outside)
  | void (code : JsString) (pendingEmail : Option JsString) (out : Outside)
  | pass (milliseconds : ℕ)

def leaves : Call → Db → Db
  | .start body out, s => ((startRegistration P body).alone (registrationServer P) out s).2
  | .void code pendingEmail out, s =>
    ((voidInvite P code pendingEmail).alone (registrationServer P) out s).2
  | .pass milliseconds, s => (s.drift milliseconds).getD s

/-- Calls one after another, whatever the store was before. -/
def callSystem : System Db Call where
  initial _ := True
  step s call s' := s' = leaves P call s

/-- The pending registrations the call has no right to touch: those that do not carry the
code it claims or voids. The address it starts a registration for is its own. -/
def Spared (s : Db) (call : Call) (s' : Db) : Prop :=
  ∀ email r, pendingAt P s email = some r → match call with
    | .start body _ => OtherAddress P email body.address → r.code ≠ some (body.invitation P) →
        pendingAt P s' email = some r
    | .void code _ _ => r.code ≠ some code → pendingAt P s' email = some r
    | .pass _ => True

/-- The pending registration of the address the row remembers carries the code itself. -/
def Aimed (s : Db) : Call → Prop
  | .start body out => ∀ invite held, begun P out s body = some (some invite) →
      claimDrops P invite body.address = some held →
        ∀ r, pendingAt P s held = some r → r.code = some invite.code
  | .void code pendingEmail _ => ∀ held, remembered pendingEmail = some held →
      ∀ r, pendingAt P s held = some r → r.code = some code
  | .pass _ => True

variable {P}

theorem begun_invite {out : Outside} {s : Db} {body : StartBody} {invite : LiveInvite}
    (h : begun P out s body = some (some invite)) :
    s.liveInvite (body.invitation P) = some invite ∧ invite.code = body.invitation P := by
  unfold begun at h
  split_ifs at h
  · have hinvite := (Option.filter_eq_some_iff.mp h).1
    obtain ⟨found, hfound, heq⟩ := Option.map_eq_some_iff.mp hinvite
    obtain rfl := Option.some.inj heq
    refine ⟨hfound, ?_⟩
    obtain ⟨row, -, hrow⟩ := Option.map_eq_some_iff.mp hfound
    rw [← hrow]
  · simp at h
  · simp at h

theorem start_spared_iff {body : StartBody} {out : Outside} {s : Db} :
    Spared P s (.start body out) (leaves P (.start body out) s) ↔ Aimed P s (.start body out) := by
  have hleaves : leaves P (.start body out) s = started P out s body :=
    startRegistration_leaves P out body s
  rw [hleaves]
  constructor
  · intro hspared invite held hbegun hheld r hr
    by_contra hcode
    have hother := (claimDrops_other hheld).2
    rw [(begun_invite hbegun).2] at hcode
    have hkept := hspared held r hr hother hcode
    rw [started, hbegun] at hkept
    simp only at hkept
    rw [claimedAndSent_other hother, claimed_dropped hheld (fun h => h rfl)] at hkept
    cases hkept
  · intro haimed email r hr hother hcode
    unfold started
    cases hbegun : begun P out s body with
    | none => exact hr
    | some invitation =>
      cases invitation with
      | none =>
        simp only
        exact (issued_other hother).trans hr
      | some invite =>
        simp only
        rw [claimedAndSent_other hother, claimed_kept, hr]
        intro held hheld hsame
        apply hcode
        rw [← (begun_invite hbegun).2]
        refine haimed invite held hbegun hheld r ?_
        rw [← hr, pendingAt_same s hsame]

theorem void_spared_iff {code : JsString} {pendingEmail : Option JsString} {out : Outside}
    {s : Db} :
    Spared P s (.void code pendingEmail out) (leaves P (.void code pendingEmail out) s) ↔
      Aimed P s (.void code pendingEmail out) := by
  have hleaves : leaves P (.void code pendingEmail out) s =
      (dropped P s pendingEmail).voidInvite code := by
    rw [leaves, voidInvite_alone]
  rw [hleaves]
  constructor
  · intro hspared held hheld r hr
    by_contra hcode
    have hkept := hspared held r hr hcode
    have hgone : pendingAt P (dropped P s pendingEmail) held = none :=
      dropped_self hheld fun h => h rfl
    cases hgone.symm.trans hkept
  · intro haimed email r hr hcode
    have hkept : pendingAt P (dropped P s pendingEmail) email = pendingAt P s email := by
      refine dropped_other fun held hheld hsame => hcode ?_
      refine haimed held hheld r ?_
      rw [← hr, pendingAt_same s hsame]
    exact hkept.trans hr

/-- A call spares what it has no right to touch exactly when it is aimed at its own. -/
theorem spared_iff {call : Call} {s : Db} : Spared P s call (leaves P call s) ↔ Aimed P s call := by
  cases call with
  | start body out => exact start_spared_iff
  | void code pendingEmail out => exact void_spared_iff
  | pass milliseconds => exact ⟨fun _ => trivial, fun _ _ _ _ => trivial⟩

end Calls

section Runs

variable (P : Primitives)

/-- The pending registration of an address that a row remembers carries the code of the row. -/
def Agrees (s : Db) : Prop :=
  ∀ code row held, s.invites code = some row → remembered row.pendingEmail = some held →
    ∀ r, pendingAt P s held = some r → r.code = some code

/-- The row of the code remembers the address. -/
def Remembers (s : Db) (code held : JsString) : Prop :=
  ∃ row, s.invites code = some row ∧ remembered row.pendingEmail = some held

/-- The code, or none, under which a start makes a registration pending, if it gets that far. -/
def issuesUnder (out : Outside) (s : Db) (body : StartBody) : Option (Option JsString) :=
  match begun P out s body with
  | none => none
  | some none => some none
  | some (some invite) =>
      if (claimed P s invite body.address).1 = .voided then none else some (some invite.code)

/-- No address is registered again, under another code or under none, while the row of an
earlier code remembers it; a code is voided with the address its row remembers. -/
def OneCode (s : Db) : Call → Prop
  | .start body out => ∀ under, issuesUnder P out s body = some under →
      ∀ code held, Remembers s code held → under ≠ some code → OtherAddress P held body.address
  | .void code pendingEmail _ => ∃ row, s.invites code = some row ∧ row.pendingEmail = pendingEmail
  | .pass _ => True

variable {P}

theorem liveInvite_row {s : Db} {code : JsString} {invite : LiveInvite}
    (h : s.liveInvite code = some invite) : ∃ row, s.invites code = some row ∧
      Db.open_ row = true ∧ invite = ⟨code, row.invitedRoleSlug, row.useCount, row.pendingEmail⟩ := by
  obtain ⟨row, hrow, hinvite⟩ := Option.map_eq_some_iff.mp h
  rw [Option.filter_eq_some_iff, Db.usable, decide_eq_true_eq] at hrow
  exact ⟨row, hrow.1, decide_eq_true ⟨hrow.2.1, hrow.2.2.1⟩, hinvite.symm⟩

theorem aimed_of_agrees {s : Db} {call : Call} (h : Agrees P s) (hone : OneCode P s call) :
    Aimed P s call := by
  cases call with
  | start body out =>
    intro invite held hbegun hheld r hr
    obtain ⟨hlive, hcode⟩ := begun_invite hbegun
    obtain ⟨row, hrow, -, rfl⟩ := liveInvite_row hlive
    exact h _ row held hrow (claimDrops_other hheld).1 r hr
  | void code pendingEmail out =>
    obtain ⟨row, hrow, rfl⟩ := hone
    exact fun held hheld r hr => h code row held hrow hheld r hr
  | pass milliseconds => trivial

theorem updateInvite_other {s : Db} {code other : JsString} {matching : InviteRow → Bool}
    {f : InviteRow → InviteRow} (h : other ≠ code) :
    (s.updateInvite code matching f).invites other = s.invites other := Function.update_of_ne h _ _

theorem updateInvite_self {s : Db} {code : JsString} {matching : InviteRow → Bool}
    {f : InviteRow → InviteRow} {row : InviteRow} (hrow : s.invites code = some row)
    (h : matching row = true) : (s.updateInvite code matching f).invites code = some (f row) := by
  simp [Db.updateInvite, hrow, h]

theorem updateInvite_cases {s : Db} {code : JsString} {matching : InviteRow → Bool}
    {f : InviteRow → InviteRow} {row : InviteRow}
    (h : (s.updateInvite code matching f).invites code = some row) :
    ∃ old, s.invites code = some old ∧ (row = f old ∨ row = old) := by
  rw [Db.updateInvite] at h
  simp only [Function.update_self] at h
  obtain ⟨old, hold, hrow⟩ := Option.map_eq_some_iff.mp h
  refine ⟨old, hold, ?_⟩
  split_ifs at hrow
  · exact .inl hrow.symm
  · exact .inr hrow.symm

theorem dropped_invites (s : Db) (pendingEmail : Option JsString) :
    (dropped P s pendingEmail).invites = s.invites := by
  unfold dropped
  cases remembered pendingEmail <;> rfl

theorem dropped_shrinks {s : Db} {pendingEmail : Option JsString} {email : JsString}
    {r : Links.PendingRegistration} (h : pendingAt P (dropped P s pendingEmail) email = some r) :
    pendingAt P s email = some r := by
  by_cases hother : ∀ held, remembered pendingEmail = some held → OtherAddress P email held
  · rwa [dropped_other hother] at h
  · rw [not_forall] at hother
    obtain ⟨held, hheld⟩ := hother
    rw [Classical.not_imp] at hheld
    rw [dropped_self hheld.1 hheld.2] at h
    cases h

theorem claimed_shrinks {s : Db} {invite : LiveInvite} {email address : JsString}
    {r : Links.PendingRegistration}
    (h : pendingAt P (claimed P s invite address).2 email = some r) :
    pendingAt P s email = some r := by
  rw [pendingAt, claimed_links] at h
  exact dropped_shrinks h

/-- What a claim leaves of the rows: the other ones as they were, its own without an address or
with the one the use is claimed for. -/
theorem claimed_rows {s : Db} {code : JsString} {invite : LiveInvite} {address : JsString}
    (hlive : s.liveInvite code = some invite) :
    (∀ other, other ≠ code → (claimed P s invite address).2.invites other = s.invites other) ∧
      ∃ row, (claimed P s invite address).2.invites code = some row ∧
        ∀ held, remembered row.pendingEmail = some held →
          (claimed P s invite address).1 ≠ .voided ∧ ¬ OtherAddress P held address := by
  obtain ⟨row, hrow, hopen, rfl⟩ := liveInvite_row hlive
  unfold claimed
  split_ifs with hsame hmax
  · refine ⟨fun other hne => updateInvite_other hne, _, updateInvite_self hrow rfl, ?_⟩
    intro held hheld
    refine ⟨Use.noConfusion, fun hother => hother ?_⟩
    rw [sameAddress] at hsame
    have hheld' : remembered row.pendingEmail = some held := hheld
    simpa [hheld'] using hsame
  · have hdropped : (dropped P s row.pendingEmail).invites code = some row := by
      rw [dropped_invites, hrow]
    refine ⟨fun other hne => ?_, _, updateInvite_self hdropped hopen, ?_⟩
    · exact (updateInvite_other hne).trans (by rw [dropped_invites])
    · intro held hheld
      cases hheld
  · have hdropped : (dropped P s row.pendingEmail).invites code = some row := by
      rw [dropped_invites, hrow]
    refine ⟨fun other hne => ?_, _, updateInvite_self hdropped rfl, ?_⟩
    · exact (updateInvite_other hne).trans (by rw [dropped_invites])
    · intro held hheld
      refine ⟨Use.noConfusion, fun hother => hother ?_⟩
      obtain ⟨heq, -⟩ := Option.filter_eq_some_iff.mp hheld
      rw [Option.some.inj heq]

theorem issued_self {s : Db} {address email : JsString} {code : Option JsString}
    {r : Links.PendingRegistration} (hsame : ¬ OtherAddress P email address)
    (h : pendingAt P (withLinks s (issued P s.links address code)) email = some r) :
    r.code = code := by
  rw [pendingAt_same _ (not_not.mp hsame)] at h
  exact issued_code h

theorem claimedAndSent_invites (s : Db) (invite : LiveInvite) (address : JsString) :
    (claimedAndSent P s invite address).invites = (claimed P s invite address).2.invites := by
  unfold claimedAndSent
  split_ifs <;> rfl

/-- A start without a change of code keeps rows and pending registrations in agreement. -/
theorem agrees_claimedAndSent {s : Db} {code address : JsString} {invite : LiveInvite}
    (h : Agrees P s) (hlive : s.liveInvite code = some invite)
    (hone : (claimed P s invite address).1 ≠ .voided →
      ∀ other held, Remembers s other held → other ≠ code → OtherAddress P held address) :
    Agrees P (claimedAndSent P s invite address) := by
  have hcode : invite.code = code := by
    obtain ⟨row, -, -, rfl⟩ := liveInvite_row hlive
    rfl
  obtain ⟨hothers, row, hrow, hheld⟩ := @claimed_rows P s code invite address hlive
  intro other row' held hrow' hheld' r hr
  rw [claimedAndSent_invites] at hrow'
  by_cases hself : other = code
  · subst hself
    obtain rfl := Option.some.inj (hrow.symm.trans hrow')
    obtain ⟨huse, hsame⟩ := hheld held hheld'
    rw [claimedAndSent, if_neg huse] at hr
    rw [issued_self hsame hr, hcode]
  · rw [hothers other hself] at hrow'
    by_cases huse : (claimed P s invite address).1 = .voided
    · rw [claimedAndSent, if_pos huse] at hr
      exact h other row' held hrow' hheld' r (claimed_shrinks hr)
    · have hother := hone huse other held ⟨row', hrow', hheld'⟩ hself
      rw [claimedAndSent_other hother] at hr
      exact h other row' held hrow' hheld' r (claimed_shrinks hr)

theorem agrees_start {s : Db} {body : StartBody} {out : Outside} (h : Agrees P s)
    (hone : OneCode P s (.start body out)) : Agrees P (started P out s body) := by
  have hone : ∀ under, issuesUnder P out s body = some under →
      ∀ code held, Remembers s code held → under ≠ some code → OtherAddress P held body.address :=
    hone
  unfold issuesUnder at hone
  unfold started
  cases hbegun : begun P out s body with
  | none => exact h
  | some invitation =>
    rw [hbegun] at hone
    cases invitation with
    | none =>
      intro code row held hrow hheld r hr
      have hother := hone none rfl code held ⟨row, hrow, hheld⟩ nofun
      exact h code row held hrow hheld r ((issued_other hother).symm.trans hr)
    | some invite =>
      obtain ⟨hlive, hcode⟩ := begun_invite hbegun
      refine agrees_claimedAndSent h hlive fun huse other held hheld hne => ?_
      refine hone (some invite.code) (if_neg huse) other held hheld fun heq => hne ?_
      rw [← hcode]
      exact (Option.some.inj heq).symm

theorem agrees_void {s : Db} {code : JsString} {pendingEmail : Option JsString} (h : Agrees P s) :
    Agrees P ((dropped P s pendingEmail).voidInvite code) := by
  intro other row held hrow hheld r hr
  have hr' : pendingAt P s held = some r := dropped_shrinks hr
  by_cases hself : other = code
  · subst hself
    obtain ⟨old, hold, hvoided | rfl⟩ := updateInvite_cases hrow
    · rw [hvoided] at hheld
      cases hheld
    · rw [dropped_invites] at hold
      exact h other row held hold hheld r hr'
  · have hrow' : s.invites other = some row := by
      rw [← hrow, ← @dropped_invites P s pendingEmail]
      exact (updateInvite_other hself).symm
    exact h other row held hrow' hheld r hr'

theorem agrees_step {s : Db} {call : Call} (h : Agrees P s) (hone : OneCode P s call) :
    Agrees P (leaves P call s) := by
  cases call with
  | start body out =>
    rw [leaves, startRegistration_leaves]
    exact agrees_start h hone
  | void code pendingEmail out =>
    rw [leaves, voidInvite_alone]
    exact agrees_void h
  | pass milliseconds =>
    intro code row held hrow hheld r hr
    have hle : s.links.clock ≤ s.links.clock + milliseconds := by omega
    exact h code row held hrow hheld r (ExpiringStore.get_later hle hr)

theorem issued_live {s : Db} {address : JsString} {code : Option JsString} :
    ∃ r, pendingAt P (withLinks s (issued P s.links address code)) address = some r ∧
      r.code = code := by
  obtain ⟨r, hr⟩ : ∃ r, pendingIn P (issued P s.links address code) address = some r := by
    unfold issued
    cases (pendingIn P s.links address).filter fun cur =>
        cur.reusable code (s.links.clock / 1000) with
    | none =>
      refine ⟨_, ExpiringStore.get_eq_some_iff.mpr ⟨_, Links.LinkDb.set_self, rfl, ?_⟩⟩
      rintro _ ⟨⟩
      show s.links.clock < s.links.clock + Links.LinkDb.milliseconds Links.TOKEN_TTL_SECONDS
      have hpositive : 0 < Links.LinkDb.milliseconds Links.TOKEN_TTL_SECONDS := by decide
      omega
    | some cur => exact ⟨_, ExpiringStore.get_setKeepTtl_self _ _ _ _⟩
  exact ⟨r, hr, issued_code hr⟩

/-- A start that changes the code of an address leaves the row of the earlier one behind. -/
theorem started_switched {s : Db} {body : StartBody} {out : Outside} {under : Option JsString}
    {code held : JsString} (hunder : issuesUnder P out s body = some under)
    (hheld : Remembers s code held) (hne : under ≠ some code) :
    Remembers (started P out s body) code held ∧
      ∃ r, pendingAt P (started P out s body) body.address = some r ∧ r.code = under := by
  unfold issuesUnder at hunder
  unfold started
  cases hbegun : begun P out s body with
  | none =>
    rw [hbegun] at hunder
    cases hunder
  | some invitation =>
    rw [hbegun] at hunder
    cases invitation with
    | none =>
      obtain rfl := Option.some.inj hunder
      exact ⟨hheld, issued_live⟩
    | some invite =>
      simp only at hunder
      split_ifs at hunder with huse
      obtain rfl := Option.some.inj hunder
      obtain ⟨hlive, hcode⟩ := begun_invite hbegun
      simp only
      refine ⟨?_, ?_⟩
      · obtain ⟨row, hrow, hrest⟩ := hheld
        refine ⟨row, ?_, hrest⟩
        rw [claimedAndSent_invites, (claimed_rows hlive).1 code ?_]
        · exact hrow
        · rintro rfl
          exact hne (congrArg some hcode)
      · rw [claimedAndSent, if_neg huse]
        exact issued_live

/-- What a row remembers after a start, it remembered before or is the address of the start. -/
theorem started_remembers {s : Db} {body : StartBody} {out : Outside} {code held : JsString}
    (h : Remembers (started P out s body) code held) :
    Remembers s code held ∨ code = body.invitation P ∧ ¬ OtherAddress P held body.address := by
  unfold started at h
  cases hbegun : begun P out s body with
  | none =>
    rw [hbegun] at h
    exact .inl h
  | some invitation =>
    rw [hbegun] at h
    cases invitation with
    | none => exact .inl h
    | some invite =>
      obtain ⟨row, hrow, hheld⟩ := h
      obtain ⟨hlive, -⟩ := begun_invite hbegun
      obtain ⟨hothers, own, hown, hsame⟩ := @claimed_rows P s _ invite body.address hlive
      simp only [claimedAndSent_invites] at hrow
      by_cases hself : code = body.invitation P
      · rw [hself, hown] at hrow
        obtain rfl := Option.some.inj hrow
        exact .inr ⟨hself, (hsame held hheld).2⟩
      · rw [hothers code hself] at hrow
        exact .inl ⟨row, hrow, hheld⟩

/-- In every sequence of calls from a store whose rows and registrations agree, none of which
changes the code of an address, each call spares the pending registrations of other codes. After
a start that does change one, the next void need not. -/
theorem invite_frame (P : Primitives) {s s' : Db} {trace : List (Event Db Call)}
    (hrun : Exec (callSystem P) s trace s') :
    (Agrees P s → (∀ e ∈ trace, OneCode P e.before e.label) →
      ∀ e ∈ trace, Spared P e.before e.label e.after) ∧
    ∀ e ∈ trace, ∀ body out, e.label = .start body out → ¬ OneCode P e.before e.label →
      ∃ code pendingEmail, ∀ out, ¬ Spared P e.after (.void code pendingEmail out)
        (leaves P (.void code pendingEmail out) e.after) := by
  constructor
  · intro hagrees hone e he
    obtain ⟨first, second, rfl, hfirst, hstep, -⟩ := hrun.split he
    have hbefore : Agrees P e.before :=
      hfirst.preserves_where
        (fun s call s' h hcall hstep => by
          rw [show s' = leaves P call s from hstep]
          exact agrees_step h hcall)
        (fun e' he' => hone e' (List.mem_append_left _ he')) hagrees
    rw [show e.after = leaves P e.label e.before from hstep]
    exact spared_iff.mpr (aimed_of_agrees hbefore (hone e he))
  · intro e he body out hlabel hswitch
    obtain ⟨_, _, _, _, hstep, _⟩ := hrun.split he
    have hafter : e.after = started P out e.before body := by
      rw [show e.after = leaves P e.label e.before from hstep, hlabel]
      exact startRegistration_leaves P out body e.before
    have hnot : ¬ ∀ under, issuesUnder P out e.before body = some under → ∀ code held,
        Remembers e.before code held → under ≠ some code → OtherAddress P held body.address := by
      rwa [hlabel] at hswitch
    push Not at hnot
    obtain ⟨under, hunder, code, held, hremembers, hne, hsame⟩ := hnot
    obtain ⟨⟨row, -, hheld⟩, r, hr, hcode⟩ := started_switched hunder hremembers hne
    refine ⟨code, row.pendingEmail, fun out' hspared => ?_⟩
    rw [hafter] at hspared
    have hkept := hspared body.address r hr (hcode ▸ hne)
    rw [leaves, voidInvite_alone] at hkept
    have hgone : pendingAt P (dropped P (started P out e.before body) row.pendingEmail)
        body.address = none := dropped_self hheld fun hother => hsame fun heq => hother heq.symm
    cases hgone.symm.trans hkept

def plainTexts : Primitives where
  toPrimitives := Links.numberedTokens
  toUpperCase text := text
  citext text := text

def admits : Outside where
  links := Links.silence
  answer
    | .portalAssertion => true
    | .registrationEnabled => true
    | .invitationRequired => true
    | .emailConfigured => true
    | .reserveSend _ => .ok 60
    | .releaseSend _ => ()
    | .sendEmail _ _ => true
    | .uuidv7 => Uuid.numbered 1
    | .hashPassword password => password
    | .mintLoginTicket _ => []
    | .defaultOrgRole => none
  lockGranted := true

def freshInvite : InviteRow := ⟨none, 3600000, 0, none, none, none, none, none, none⟩

def twoInvites : Db where
  links := ⟨0, 0, fun _ => none⟩
  invites code := if code = js "AAAAAAAAAAAA" ∨ code = js "BBBBBBBBBBBB" then some freshInvite else none
  accounts := []

def startAt (email code : String) : Call := .start ⟨js email, js code⟩ admits

def callsFrom (P : Primitives) : Db → List Call → List (Event Db Call)
  | _, [] => []
  | s, call :: rest => ⟨s, call, leaves P call s⟩ :: callsFrom P (leaves P call s) rest

theorem callsFrom_run (P : Primitives) (s : Db) (calls : List Call) :
    Exec (callSystem P) s (callsFrom P s calls) (calls.foldl (fun s call => leaves P call s) s) := by
  induction calls generalizing s with
  | nil => exact .nil s
  | cons call rest ih => exact (Exec.single rfl).append (ih (leaves P call s))

def firstPending : Db := leaves plainTexts (startAt "a@b.c" "AAAAAAAAAAAA") twoInvites

def bothPending : Db := leaves plainTexts (startAt "d@e.f" "BBBBBBBBBBBB") firstPending

def voidFirst : Call := .void (js "AAAAAAAAAAAA") (some (js "a@b.c")) admits

theorem twoInvites_forgetful (code held : JsString) : ¬ Remembers twoInvites code held := by
  rintro ⟨row, hrow, hheld⟩
  have hrow' : (if code = js "AAAAAAAAAAAA" ∨ code = js "BBBBBBBBBBBB" then some freshInvite
    else none) = some row := hrow
  split_ifs at hrow'
  rw [← Option.some.inj hrow'] at hheld
  cases hheld

theorem firstPending_remembers {code held : JsString} (h : Remembers firstPending code held) :
    held = js "a@b.c" := by
  have hstarted : firstPending = started plainTexts admits twoInvites
      ⟨js "a@b.c", js "AAAAAAAAAAAA"⟩ := startRegistration_leaves plainTexts admits _ twoInvites
  rw [hstarted] at h
  rcases started_remembers h with hbefore | ⟨-, hsame⟩
  · exact absurd hbefore (twoInvites_forgetful code held)
  · have haddress : (⟨js "a@b.c", js "AAAAAAAAAAAA"⟩ : StartBody).address = js "a@b.c" := by
      decide +kernel
    rw [haddress] at hsame
    exact not_not.mp hsame

/-- Two codes are in use for two addresses, and the first one is voided: the registration that is
pending under the second one stays. -/
theorem invite_frame_first : ∃ r, r.code = some (js "BBBBBBBBBBBB") ∧
    pendingAt plainTexts bothPending (js "d@e.f") = some r ∧
      pendingAt plainTexts (leaves plainTexts voidFirst bothPending) (js "d@e.f") = some r := by
  have hrun := callsFrom_run plainTexts twoInvites [startAt "a@b.c" "AAAAAAAAAAAA",
    startAt "d@e.f" "BBBBBBBBBBBB", voidFirst]
  have hspared := (invite_frame plainTexts hrun).1
    (fun code row held hrow hheld => absurd ⟨row, hrow, hheld⟩ (twoInvites_forgetful code held)) ?_
  · have hpending : (pendingAt plainTexts bothPending (js "d@e.f")).map
        Links.PendingRegistration.code = some (some (js "BBBBBBBBBBBB")) := by decide +kernel
    obtain ⟨r, hr, hcode⟩ := Option.map_eq_some_iff.mp hpending
    refine ⟨r, hcode, hr, ?_⟩
    refine hspared ⟨bothPending, voidFirst, leaves plainTexts voidFirst bothPending⟩ ?_ _ r hr ?_
    · exact List.mem_cons_of_mem _ (List.mem_cons_of_mem _ List.mem_cons_self)
    · rw [hcode]
      decide +kernel
  · intro e he
    rcases List.mem_cons.mp he with rfl | he
    · exact fun _ _ code held hheld _ => absurd hheld (twoInvites_forgetful code held)
    rcases List.mem_cons.mp he with rfl | he
    · intro _ _ code held hheld _
      rw [firstPending_remembers hheld]
      unfold OtherAddress
      decide +kernel
    · rw [List.mem_singleton.mp he]
      have hrow : (bothPending.invites (js "AAAAAAAAAAAA")).map InviteRow.pendingEmail =
          some (some (js "a@b.c")) := by decide +kernel
      exact Option.map_eq_some_iff.mp hrow

/-- An address changes from one code to another, and the first code is then used for a second
address: the registration that is pending under the other code is dropped. -/
theorem switched_code_evicted :
    ∃ e ∈ callsFrom plainTexts twoInvites [startAt "a@b.c" "AAAAAAAAAAAA", .pass 60000,
        startAt "a@b.c" "BBBBBBBBBBBB", startAt "d@e.f" "AAAAAAAAAAAA"],
      ¬ Spared plainTexts e.before e.label e.after := by
  obtain ⟨second, hsecond⟩ : ∃ s, s = leaves plainTexts (startAt "a@b.c" "BBBBBBBBBBBB")
    (leaves plainTexts (.pass 60000)
      (leaves plainTexts (startAt "a@b.c" "AAAAAAAAAAAA") twoInvites)) := ⟨_, rfl⟩
  have hpending : (pendingAt plainTexts second (js "a@b.c")).map Links.PendingRegistration.code =
      some (some (js "BBBBBBBBBBBB")) := by
    rw [hsecond]
    decide +kernel
  have hgone : pendingAt plainTexts (leaves plainTexts (startAt "d@e.f" "AAAAAAAAAAAA") second)
      (js "a@b.c") = none := by
    rw [hsecond]
    decide +kernel
  refine ⟨⟨second, startAt "d@e.f" "AAAAAAAAAAAA",
    leaves plainTexts (startAt "d@e.f" "AAAAAAAAAAAA") second⟩, ?_, ?_⟩
  · rw [hsecond]
    exact List.mem_cons_of_mem _
      (List.mem_cons_of_mem _ (List.mem_cons_of_mem _ List.mem_cons_self))
  · intro hspared
    obtain ⟨r, hr, hcode⟩ := Option.map_eq_some_iff.mp hpending
    have hkept := hspared (js "a@b.c") r hr (by unfold OtherAddress; decide +kernel)
      (by rw [hcode]; decide +kernel)
    rw [hgone] at hkept
    cases hkept

end Runs

end DreamSso.Registration
