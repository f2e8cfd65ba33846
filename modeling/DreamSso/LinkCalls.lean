import DreamSso.PendingLinks

/-!
Calls on pending links. A call passes through phases that say what it has read and
which of its keys it has already written or deleted; one command of a call in a
phase has one of the effects listed here.
-/
namespace DreamSso.Links

open Interleaving JsStrings

inductive LinkCall
  | issuePending (email : JsString) (code : Option JsString)
  | validatePending (email token : JsString)
  | dropPending (email : JsString)
  | issueEmailChange (sub : Uuid) (kind : ChangeKind) (newEmail : JsString)
  | redeemEmailChange (token : JsString)
  | cancelEmailChange (sub : Uuid)
  | emailReserved (email : JsString)

inductive LinkResult
  | issued (link : Issued)
  | validated (pending : Option PendingRegistration)
  | dropped
  | redeemed (change : Option EmailChange)
  | cancelled (done : Bool)
  | reserved (held : Bool)
  deriving DecidableEq

def request (P : Primitives) : LinkCall → Handler LinkResult
  | .issuePending email code => do
      let link ← issuePending P email code
      pure (.issued link)
  | .validatePending email token => do
      let pending ← validatePending P email token
      pure (.validated pending)
  | .dropPending email => do
      dropPending P email
      pure .dropped
  | .issueEmailChange sub kind newEmail => do
      let link ← issueEmailChange P sub kind newEmail
      pure (.issued link)
  | .redeemEmailChange token => do
      let change ← redeemEmailChange P token
      pure (.redeemed change)
  | .cancelEmailChange sub => do
      let done ← cancelEmailChange P sub
      pure (.cancelled done)
  | .emailReserved email => do
      let held ← emailReserved P email
      pure (.reserved held)

/-- Nothing read yet, a pending registration read, a token drawn for one; a pointer
read, a change read, the reservation of a change left to delete, all of it deleted, a
token drawn for one; its record stored, its pointer stored; its record taken by a
redemption. -/
inductive LinkPhase
  | idle (now : Option ℤ)
  | registered (now : ℤ) (email : JsString) (cur : Option PendingRegistration)
  | registering (now : ℤ) (email token : JsString)
  | located (now : Option ℤ) (hash : JsString)
  | recalled (now : Option ℤ) (cur : Option EmailChange)
  | unreserving (now : Option ℤ) (change : EmailChange)
  | cleared (now : Option ℤ) (change : EmailChange)
  | drawn (now : ℤ) (token : JsString)
  | stored (change : EmailChange)
  | pointed (change : EmailChange)
  | redeemed (change : EmailChange)
  deriving DecidableEq

namespace LinkPhase

def now : LinkPhase → Option ℤ
  | idle now => now
  | located now _ => now
  | recalled now _ => now
  | cleared now _ => now
  | _ => none

/-- Nothing is half written or half deleted. -/
def AtRest : LinkPhase → Prop
  | idle _ => True
  | registered _ _ _ => True
  | located _ _ => True
  | recalled _ _ => True
  | cleared _ _ => True
  | _ => False

/-- The change a call has read or issued. -/
def change : LinkPhase → Option EmailChange
  | recalled _ cur => cur
  | unreserving _ change => some change
  | cleared _ change => some change
  | stored change => some change
  | pointed change => some change
  | redeemed change => some change
  | _ => none

/-- The token a call has drawn and not stored yet. -/
def token : LinkPhase → Option JsString
  | registering _ _ token => some token
  | drawn _ token => some token
  | _ => none

/-- The change whose record a call has deleted and whose reservation it has not. -/
def closing : LinkPhase → Option EmailChange
  | unreserving _ change => some change
  | redeemed change => some change
  | _ => none

/-- The change whose keys a call has deleted. -/
def finished : LinkPhase → Option EmailChange
  | cleared _ change => some change
  | _ => none

/-- After a change's record and pointer are deleted. -/
def afterDrop (now : Option ℤ) (change : EmailChange) : LinkPhase :=
  if change.kind = .change then unreserving now change else cleared now change

/-- After the pointer to a change is stored. -/
def afterPointer (change : EmailChange) : LinkPhase :=
  if change.kind = .change then pointed change else idle none

theorem atRest_idle (now : Option ℤ) : (idle now).AtRest := trivial

theorem atRest_recalled (now : Option ℤ) (cur : Option EmailChange) :
    (recalled now cur).AtRest := trivial

theorem AtRest.token {g : LinkPhase} (h : g.AtRest) : g.token = none := by
  cases g <;> first | rfl | cases h

theorem AtRest.closing {g : LinkPhase} (h : g.AtRest) : g.closing = none := by
  cases g <;> first | rfl | cases h

theorem change_of_token {g : LinkPhase} {token : JsString} (h : g.token = some token) :
    g.change = none := by
  cases g <;> first | rfl | cases h

theorem closing_of_token {g : LinkPhase} {token : JsString} (h : g.token = some token) :
    g.closing = none := by
  cases g <;> first | rfl | cases h

theorem finished_of_token {g : LinkPhase} {token : JsString} (h : g.token = some token) :
    g.finished = none := by
  cases g <;> first | rfl | cases h

theorem change_of_finished {g : LinkPhase} {change : EmailChange}
    (h : g.finished = some change) : g.change = some change := by
  cases g <;> first | exact h | cases h

theorem change_of_closing {g : LinkPhase} {change : EmailChange}
    (h : g.closing = some change) : g.change = some change := by
  cases g <;> first | exact h | cases h

end LinkPhase

def linkProtocol (P : Primitives) : Protocol Command Command.Reply LinkPhase where
  next
    | g, .ask _, some _ => g
    | g, .existsKey _, some _ => g
    | g, .get (.addr _), some _ => g
    | _, .dateNow, some (now : ℤ) => .idle (some (now / 1000))
    | g, .get (.pending email), some cur => match g.now with
      | some now => .registered now email cur
      | none => .idle none
    | g, .get (.user _), some none => .recalled g.now none
    | g, .get (.user _), some (some (pointer : Pointer)) => .located g.now pointer.hash
    | .located now _, .get (.tok _), some cur => .recalled now cur
    | .registered now email _, .randomBytes _ _, some token => .registering now email token
    | .recalled (some now) _, .randomBytes _ _, some token => .drawn now token
    | .recalled now (some cur), .del _, some _ => .afterDrop now cur
    | .unreserving now change, .del _, some _ => .cleared now change
    | .cleared (some now) _, .randomBytes _ _, some token => .drawn now token
    | .drawn _ _, .set (.tok _) change _, some _ => .stored change
    | .stored change, .set (.user _) _ _, some _ => .afterPointer change
    | _, .getdel (.tok _), some (some change) => .redeemed change
    | .redeemed change, .del _, some _ => .afterDrop none change
    | _, _, _ => .idle none
  ok
    | _, .ask _ => True
    | _, .existsKey _ => True
    | _, .get (.addr _) => True
    | g, .dateNow => g.AtRest
    | g, .get (.pending _) => g.AtRest
    | g, .get (.user _) => g.AtRest
    | .located _ hash, .get (.tok h) => h = hash
    | .registered _ _ _, .randomBytes _ _ => True
    | .recalled now none, .randomBytes _ _ => now ≠ none
    | .cleared now _, .randomBytes _ _ => now ≠ none
    | .registered now email (some cur), .setKeepTtl (.pending email') v =>
        email' = email ∧ v = { cur with lastSent := now }
    | .registering now email token, .set (.pending email') v ttlSeconds =>
        email' = email ∧ PendingRegistration.token v = token ∧
          PendingRegistration.createdAt v = now ∧ ttlSeconds = TOKEN_TTL_SECONDS
    | .idle _, .del keys => ∃ email, keys = [.pending email]
    | .recalled now (some cur), .setKeepTtl (.tok hash) v =>
        hash = P.sha256 cur.token ∧ now.map (fun now => { cur with lastSent := now }) = some v
    | .recalled _ (some cur), .del keys => keys = [P.tokKey cur.token, .user cur.sub]
    | .unreserving _ change, .del keys => keys = [P.addrKey change.newEmail]
    | .drawn now token, .set (.tok hash) v ttlSeconds =>
        hash = P.sha256 token ∧ EmailChange.token v = token ∧ EmailChange.createdAt v = now ∧
          ttlSeconds = TOKEN_TTL_SECONDS
    | .stored change, .set (.user sub) v ttlSeconds =>
        sub = change.sub ∧ v = (⟨P.sha256 change.token, change.createdAt⟩ : Pointer) ∧
          ttlSeconds = TOKEN_TTL_SECONDS
    | .pointed change, .set (.addr email) v ttlSeconds =>
        change.kind = .change ∧ email = P.toLowerCase change.newEmail ∧
          v = (⟨change.sub, P.sha256 change.token, change.createdAt⟩ : Reservation) ∧
            ttlSeconds = TOKEN_TTL_SECONDS
    | g, .getdel (.tok _) => g.AtRest
    | .redeemed change, .del keys => keys = [.user change.sub]
    | _, _ => False

/-- The command leaves the keys and the random numbers as they are. -/
def Command.onlyReads : Command → Bool
  | .dateNow | .get _ | .existsKey _ | .ask _ => true
  | _ => false

/-- What one command of a call in a phase does. -/
inductive LinkStep (P : Primitives) (s : LinkDb) : LinkPhase → Command → LinkDb → LinkPhase → Prop
  | read (g : LinkPhase) (c : Command) (g' : LinkPhase) (honly : c.onlyReads = true)
      (hrest : g' = g ∨ g.AtRest ∧ g'.AtRest ∧ g'.finished = none)
      (hheld : ∀ change, g'.change = some change →
        g.change = some change ∨ ∃ hash, s.get (.tok hash) = some change) :
      LinkStep P s g c s g'
  | draw (g : LinkPhase) (size : ℕ) (encoding : Encoding) (g' : LinkPhase) (hrest : g.AtRest)
      (htoken : g'.token = some (P.randomBytes size encoding s.draws)) :
      LinkStep P s g (.randomBytes size encoding) { s with draws := s.draws + 1 } g'
  | register (now : ℤ) (email : JsString) (v : PendingRegistration) (hcreated : v.createdAt = now) :
      LinkStep P s (.registering now email v.token) (.set (.pending email) v TOKEN_TTL_SECONDS)
        (s.set (.pending email) v TOKEN_TTL_SECONDS) (.idle none)
  | resendPending (now : ℤ) (email : JsString) (cur : PendingRegistration) :
      LinkStep P s (.registered now email (some cur))
        (.setKeepTtl (.pending email) { cur with lastSent := now })
        (s.setKeepTtl (.pending email) { cur with lastSent := now }) (.idle none)
  | dropPending (now : Option ℤ) (email : JsString) :
      LinkStep P s (.idle now) (.del [.pending email]) (s.del [.pending email]) (.idle none)
  | resendChange (now : ℤ) (cur : EmailChange) :
      LinkStep P s (.recalled (some now) (some cur))
        (.setKeepTtl (P.tokKey cur.token) { cur with lastSent := now })
        (s.setKeepTtl (P.tokKey cur.token) { cur with lastSent := now }) (.idle none)
  | drop (now : Option ℤ) (cur : EmailChange) :
      LinkStep P s (.recalled now (some cur)) (.del [P.tokKey cur.token, .user cur.sub])
        (s.del [P.tokKey cur.token, .user cur.sub]) (.afterDrop now cur)
  | unreserve (now : Option ℤ) (change : EmailChange) :
      LinkStep P s (.unreserving now change) (.del [P.addrKey change.newEmail])
        (s.del [P.addrKey change.newEmail]) (.cleared now change)
  | store (now : ℤ) (change : EmailChange) (hcreated : change.createdAt = now) :
      LinkStep P s (.drawn now change.token) (.set (P.tokKey change.token) change TOKEN_TTL_SECONDS)
        (s.set (P.tokKey change.token) change TOKEN_TTL_SECONDS) (.stored change)
  | point (change : EmailChange) :
      LinkStep P s (.stored change)
        (.set (.user change.sub) (⟨P.sha256 change.token, change.createdAt⟩ : Pointer)
          TOKEN_TTL_SECONDS)
        (s.set (.user change.sub) (⟨P.sha256 change.token, change.createdAt⟩ : Pointer)
          TOKEN_TTL_SECONDS) (.afterPointer change)
  | reserve (change : EmailChange) (hkind : change.kind = .change) :
      LinkStep P s (.pointed change)
        (.set (P.addrKey change.newEmail)
          (⟨change.sub, P.sha256 change.token, change.createdAt⟩ : Reservation) TOKEN_TTL_SECONDS)
        (s.set (P.addrKey change.newEmail)
          (⟨change.sub, P.sha256 change.token, change.createdAt⟩ : Reservation) TOKEN_TTL_SECONDS)
        (.idle none)
  | redeem (g : LinkPhase) (hash : JsString) (change : EmailChange) (hrest : g.AtRest)
      (hget : s.get (.tok hash) = some change) :
      LinkStep P s g (.getdel (.tok hash)) (s.del [.tok hash]) (.redeemed change)
  | miss (g : LinkPhase) (hash : JsString) (hrest : g.AtRest) (hget : s.get (.tok hash) = none) :
      LinkStep P s g (.getdel (.tok hash)) (s.del [.tok hash]) (.idle none)
  | unpoint (change : EmailChange) :
      LinkStep P s (.redeemed change) (.del [.user change.sub]) (s.del [.user change.sub])
        (.afterDrop none change)

theorem link_step {P : Primitives} {s : LinkDb} {g : LinkPhase} {c : Command} (out : Outside)
    (hok : (linkProtocol P).ok g c) :
    LinkStep P s g c (LinkDb.perform P out c s).2
      ((linkProtocol P).next g c (LinkDb.perform P out c s).1) := by
  have hkeep : ∀ c : Command, c.onlyReads = true → LinkStep P s g c s g :=
    fun c honly => .read g c g honly (.inl rfl) fun _ h => .inl h
  have hread : g.AtRest → ∀ (c : Command) (g' : LinkPhase), c.onlyReads = true → g'.AtRest →
      g'.change = none → LinkStep P s g c s g' := by
    intro hg c g' honly hg' hnone
    have hfinished : g'.finished = none := by cases g' <;> first | rfl | cases hnone
    refine .read g c g' honly (.inr ⟨hg, hg', hfinished⟩) fun change hchange => ?_
    rw [hnone] at hchange
    cases hchange
  cases c with
  | dateNow =>
    have hidle : LinkStep P s g .dateNow s (.idle (some (s.clock / 1000))) := by
      refine hread ?_ _ _ rfl trivial rfl
      cases g <;> exact hok
    cases g <;> exact hidle
  | randomBytes size encoding =>
    cases g with
    | registered now email cur => exact .draw _ size encoding _ trivial rfl
    | recalled now cur =>
      cases cur with
      | none =>
        obtain ⟨now, rfl⟩ := Option.ne_none_iff_exists'.mp hok
        exact .draw _ size encoding _ trivial rfl
      | some cur => cases hok
    | cleared now change =>
      obtain ⟨now, rfl⟩ := Option.ne_none_iff_exists'.mp hok
      exact .draw _ size encoding _ trivial rfl
    | _ => cases hok
  | get k =>
    cases k with
    | pending email =>
      have hpending : LinkStep P s g (.get (.pending email)) s (match g.now with
          | some now => .registered now email (s.get (.pending email))
          | none => .idle none) := by
        have hg : g.AtRest := by cases g <;> exact hok
        cases g.now with
        | some now => exact hread hg _ _ rfl trivial rfl
        | none => exact hread hg _ _ rfl trivial rfl
      cases g <;> exact hpending
    | tok hash =>
      cases g with
      | located now h =>
        refine .read _ _ _ rfl (.inr ⟨trivial, LinkPhase.atRest_recalled now _, rfl⟩) ?_
        intro change hchange
        exact .inr ⟨hash, hchange⟩
      | _ => cases hok
    | user sub =>
      have hg : g.AtRest := by cases g <;> exact hok
      have hpointer : LinkStep P s g (.get (.user sub)) s
          ((linkProtocol P).next g (.get (.user sub)) (some (s.get (.user sub)))) := by
        cases s.get (.user sub) with
        | none =>
          have hrecalled : LinkStep P s g (.get (.user sub)) s (.recalled g.now none) :=
            hread hg _ _ rfl trivial rfl
          cases g <;> exact hrecalled
        | some pointer =>
          have hlocated : LinkStep P s g (.get (.user sub)) s
              (.located g.now (Pointer.hash pointer)) := hread hg _ _ rfl trivial rfl
          cases g <;> exact hlocated
      exact hpointer
    | addr email => cases g <;> exact hkeep _ rfl
  | set k v ttlSeconds =>
    cases k with
    | pending email =>
      cases g with
      | registering now email' token =>
        change PendingRegistration at v
        obtain ⟨rfl, rfl, hcreated, rfl⟩ := hok
        exact .register now email v hcreated
      | _ => cases hok
    | tok hash =>
      cases g with
      | drawn now token =>
        change EmailChange at v
        obtain ⟨rfl, rfl, hcreated, rfl⟩ := hok
        exact .store now v hcreated
      | _ => cases hok
    | user sub =>
      cases g with
      | stored change =>
        change Pointer at v
        obtain ⟨rfl, rfl, rfl⟩ := hok
        exact .point change
      | _ => cases hok
    | addr email =>
      cases g with
      | pointed change =>
        change Reservation at v
        obtain ⟨hkind, rfl, rfl, rfl⟩ := hok
        exact .reserve change hkind
      | _ => cases hok
  | setKeepTtl k v =>
    cases k with
    | pending email =>
      cases g with
      | registered now email' cur =>
        cases cur with
        | none => cases hok
        | some cur =>
          change PendingRegistration at v
          obtain ⟨rfl, rfl⟩ := hok
          exact .resendPending now email cur
      | _ => cases hok
    | tok hash =>
      cases g with
      | recalled now cur =>
        cases cur with
        | none => cases hok
        | some cur =>
          change EmailChange at v
          obtain ⟨rfl, hv⟩ := hok
          obtain ⟨now, rfl, rfl⟩ := Option.map_eq_some_iff.mp hv
          exact .resendChange now cur
      | _ => cases hok
    | _ => cases g <;> cases hok
  | getdel k =>
    cases k with
    | tok hash =>
      have hg : g.AtRest := by cases g <;> exact hok
      have hgetdel : LinkStep P s g (.getdel (.tok hash)) (s.del [.tok hash])
          ((linkProtocol P).next g (.getdel (.tok hash)) (some (s.get (.tok hash)))) := by
        cases hget : s.get (.tok hash) with
        | none =>
          have hmiss : LinkStep P s g (.getdel (.tok hash)) (s.del [.tok hash]) (.idle none) :=
            .miss g hash hg hget
          cases g <;> exact hmiss
        | some change =>
          have hredeem : LinkStep P s g (.getdel (.tok hash)) (s.del [.tok hash])
            (.redeemed change) := .redeem g hash change hg hget
          cases g <;> exact hredeem
      exact hgetdel
    | _ => cases g <;> cases hok
  | del keys =>
    cases g with
    | idle now =>
      obtain ⟨email, rfl⟩ := hok
      exact .dropPending now email
    | recalled now cur =>
      cases cur with
      | none => cases hok
      | some cur =>
        obtain rfl : keys = _ := hok
        exact .drop now cur
    | unreserving now change =>
      obtain rfl : keys = _ := hok
      exact .unreserve now change
    | redeemed change =>
      obtain rfl : keys = _ := hok
      exact .unpoint change
    | _ => cases hok
  | existsKey k => cases g <;> exact hkeep _ rfl
  | ask q => cases g <;> exact hkeep _ rfl

section Programs

variable {P : Primitives} {α : Type} {g : LinkPhase}

theorem nowSeconds_obeys (hg : g.AtRest) {post : LinkPhase → Option α → Prop}
    {f : ℤ → Handler α} (hthrown : post (.idle none) none)
    (hf : ∀ now, (linkProtocol P).Obeys post (.idle (some now)) (f now)) :
    (linkProtocol P).Obeys post g (nowSeconds >>= f) := by
  rw [nowSeconds, Prog.bind_assoc]
  refine Protocol.obeys_await_bind.mpr ⟨?_, ?_, fun now => ?_⟩
  · cases g <;> exact hg
  · cases g <;> exact hthrown
  · cases g <;> exact hf _

theorem getEmailChange_obeys (hg : g.AtRest) (sub : Uuid)
    {post : LinkPhase → Option (Option EmailChange) → Prop} (hthrown : post (.idle none) none)
    (hpost : ∀ cur, post (.recalled g.now cur) (some cur)) :
    (linkProtocol P).Obeys post g (getEmailChange sub) := by
  refine Protocol.obeys_await_bind.mpr ⟨?_, ?_, fun pointer => ?_⟩
  · cases g <;> exact hg
  · cases g <;> exact hthrown
  · change Option Pointer at pointer
    cases pointer with
    | none => cases g <;> exact hpost none
    | some pointer =>
      have hlocated : (linkProtocol P).Obeys post (.located g.now pointer.hash)
          (await (.get (.tok pointer.hash))) := by
        refine Protocol.obeys_await.mpr ⟨rfl, fun cur => ?_⟩
        cases cur with
        | none => exact hthrown
        | some cur => exact hpost cur
      cases g <;> exact hlocated

theorem deleteReservation_obeys {t : Option ℤ} {e : EmailChange}
    {post : LinkPhase → Option Unit → Prop} (hthrown : post (.idle none) none)
    (hpost : post (.cleared t e) (some ())) :
    (linkProtocol P).Obeys post (.afterDrop t e) (deleteReservation P e) := by
  unfold LinkPhase.afterDrop deleteReservation
  cases e.kind with
  | change => exact Protocol.obeys_await.mpr ⟨rfl, fun r => by cases r <;> assumption⟩
  | confirm => exact hpost

theorem dropEmailChange_obeys {now : Option ℤ} {cur : EmailChange}
    {post : LinkPhase → Option Unit → Prop} (hthrown : post (.idle none) none)
    (hpost : post (.cleared now cur) (some ())) :
    (linkProtocol P).Obeys post (.recalled now (some cur)) (dropEmailChange P cur) :=
  Protocol.obeys_await_bind.mpr
    ⟨rfl, hthrown, fun _ => deleteReservation_obeys hthrown hpost⟩

theorem storeEmailChange_obeys {e : EmailChange} {post : LinkPhase → Option Unit → Prop}
    (hpost : ∀ r, post (.idle none) r) :
    (linkProtocol P).Obeys post (.drawn e.createdAt e.token)
      (storeEmailChange P e) := by
  refine Protocol.obeys_await_bind.mpr ⟨⟨rfl, rfl, rfl, rfl⟩, hpost _, fun _ => ?_⟩
  refine Protocol.obeys_await_bind.mpr ⟨⟨rfl, rfl, rfl⟩, hpost _, fun _ => ?_⟩
  show (linkProtocol P).Obeys post (.afterPointer e) _
  unfold LinkPhase.afterPointer
  cases hkind : e.kind with
  | change => exact Protocol.obeys_await.mpr ⟨⟨hkind, rfl, rfl, rfl⟩, fun _ => hpost _⟩
  | confirm => exact hpost _

theorem issueEmailChange_obeys (hg : g.AtRest) (sub : Uuid) (kind : ChangeKind)
    (newEmail : JsString) {post : LinkPhase → Option Issued → Prop}
    (hpost : ∀ g r, g.AtRest → post g r) :
    (linkProtocol P).Obeys post g (issueEmailChange P sub kind newEmail) := by
  have hrest : ∀ r, post (.idle none) r := fun r => hpost _ r (LinkPhase.atRest_idle none)
  have hissue : ∀ (now : ℤ) (token : JsString), (linkProtocol P).Obeys post (.drawn now token) (do
      storeEmailChange P ⟨sub, kind, newEmail, token, now, now⟩
      pure ⟨token, false⟩) := by
    intro now token
    refine Protocol.obeys_bind.mpr (storeEmailChange_obeys
      (e := ⟨sub, kind, newEmail, token, now, now⟩) fun r => ?_)
    cases r <;> exact hrest _
  refine nowSeconds_obeys hg (hrest _) fun now => Protocol.obeys_bind.mpr ?_
  refine getEmailChange_obeys (LinkPhase.atRest_idle _) sub (hrest _) fun cur => ?_
  show (linkProtocol P).Obeys post (.recalled (some now) cur) _
  beta_reduce
  cases hreuse : cur.filter fun cur => cur.reusable P kind newEmail now with
  | some found =>
    obtain ⟨rfl, -⟩ := Option.filter_eq_some_iff.mp hreuse
    exact Protocol.obeys_await_bind.mpr ⟨⟨rfl, rfl⟩, hrest _, fun _ => hrest _⟩
  | none =>
    cases cur with
    | none => exact Protocol.obeys_await_bind.mpr ⟨Option.some_ne_none now, hrest _, hissue now⟩
    | some cur =>
      refine Protocol.obeys_bind.mpr (dropEmailChange_obeys ?_ ?_)
      · exact hrest _
      · exact Protocol.obeys_await_bind.mpr ⟨Option.some_ne_none now, hrest _, hissue now⟩

theorem redeemEmailChange_obeys (hg : g.AtRest) (token : JsString)
    {post : LinkPhase → Option (Option EmailChange) → Prop}
    (hpost : ∀ g, g.AtRest → post g none ∧ post g (some none))
    (hredeemed : ∀ change, post (.cleared none change) (some (some change))) :
    (linkProtocol P).Obeys post g (redeemEmailChange P token) := by
  have hidle := hpost _ (LinkPhase.atRest_idle none)
  have hclose : ∀ change : EmailChange, (linkProtocol P).Obeys post (.redeemed change) (do
      await (.del [.user change.sub])
      deleteReservation P change
      pure (some change)) := by
    intro change
    refine Protocol.obeys_await_bind.mpr ⟨rfl, hidle.1, fun _ => Protocol.obeys_bind.mpr ?_⟩
    refine deleteReservation_obeys (t := none) (e := change) ?_ ?_
    · exact hidle.1
    · exact hredeemed change
  unfold redeemEmailChange
  split_ifs with hlength
  · exact (hpost g hg).2
  · refine Protocol.obeys_await_bind.mpr ⟨?_, ?_, fun found => ?_⟩
    · cases g <;> exact hg
    · cases g <;> exact hidle.1
    · change Option EmailChange at found
      cases found with
      | none => cases g <;> exact hidle.2
      | some change => cases g <;> exact hclose change

theorem cancelEmailChange_obeys (hg : g.AtRest) (sub : Uuid)
    {post : LinkPhase → Option Bool → Prop}
    (hpost : ∀ g, g.AtRest → post g none ∧ post g (some false))
    (hcancelled : ∀ change, post (.cleared g.now change) (some true)) :
    (linkProtocol P).Obeys post g (cancelEmailChange P sub) := by
  have hidle := hpost _ (LinkPhase.atRest_idle none)
  refine Protocol.obeys_bind.mpr (getEmailChange_obeys hg sub hidle.1 fun cur => ?_)
  cases cur with
  | none => exact (hpost _ (LinkPhase.atRest_recalled _ _)).2
  | some cur =>
    refine Protocol.obeys_bind.mpr (dropEmailChange_obeys ?_ ?_)
    · exact hidle.1
    · exact hcancelled cur

theorem getPending_obeys (hg : g.AtRest) (email : JsString) {post : LinkPhase → Option α → Prop}
    {f : Option PendingRegistration → Handler α} (hthrown : post (.idle none) none)
    (hf : ∀ cur, (linkProtocol P).Obeys post (match g.now with
      | some now => .registered now (P.toLowerCase email) cur
      | none => .idle none) (f cur)) :
    (linkProtocol P).Obeys post g (getPending P email >>= f) := by
  refine Protocol.obeys_await_bind.mpr ⟨?_, ?_, fun cur => ?_⟩
  · cases g <;> exact hg
  · cases g <;> exact hthrown
  · cases g <;> exact hf cur

theorem issuePending_obeys (hg : g.AtRest) (email : JsString) (code : Option JsString)
    {post : LinkPhase → Option Issued → Prop} (hpost : ∀ g r, g.AtRest → post g r) :
    (linkProtocol P).Obeys post g (issuePending P email code) := by
  have hrest : ∀ r, post (.idle none) r := fun r => hpost _ r (LinkPhase.atRest_idle none)
  refine nowSeconds_obeys hg (hrest _) fun now => ?_
  refine getPending_obeys (LinkPhase.atRest_idle _) email (hrest _) fun cur => ?_
  show (linkProtocol P).Obeys post (.registered now (P.toLowerCase email) cur) _
  cases hreuse : cur.filter fun cur => cur.reusable code now with
  | some found =>
    obtain ⟨rfl, -⟩ := Option.filter_eq_some_iff.mp hreuse
    exact Protocol.obeys_await_bind.mpr ⟨⟨rfl, rfl⟩, hrest _, fun _ => hrest _⟩
  | none =>
    refine Protocol.obeys_await_bind.mpr ⟨trivial, hrest _, fun token => ?_⟩
    exact Protocol.obeys_await_bind.mpr ⟨⟨rfl, rfl, rfl, rfl⟩, hrest _, fun _ => hrest _⟩

theorem validatePending_obeys (hg : g.AtRest) (email token : JsString)
    {post : LinkPhase → Option (Option PendingRegistration) → Prop}
    (hpost : ∀ g r, g.AtRest → post g r) :
    (linkProtocol P).Obeys post g (validatePending P email token) := by
  unfold validatePending
  split_ifs with hlength
  · exact hpost _ _ hg
  · refine getPending_obeys hg email (hpost _ _ trivial) fun cur => ?_
    cases g.now <;> exact hpost _ _ trivial

theorem existsKey_obeys (k : Key) {post : LinkPhase → Option α → Prop} {f : Bool → Handler α}
    (hthrown : post (.idle none) none) (hf : ∀ held, (linkProtocol P).Obeys post g (f held)) :
    (linkProtocol P).Obeys post g (await (.existsKey k) >>= f) := by
  refine Protocol.obeys_await_bind.mpr ⟨?_, ?_, fun held => ?_⟩
  · cases g <;> trivial
  · cases g <;> exact hthrown
  · cases g <;> exact hf held

/-- A call that has redeemed or cancelled a link has deleted all of it. -/
def Finished (g : LinkPhase) (result : Option LinkResult) : Prop :=
  g.AtRest ∧ (∀ change, result = some (.redeemed (some change)) → g = .cleared none change) ∧
    (result = some (.cancelled true) → ∃ change, g = .cleared none change)

theorem finished_of {result : Option LinkResult} (hg : g.AtRest)
    (hredeemed : ∀ change, result ≠ some (.redeemed (some change)))
    (hcancelled : result ≠ some (.cancelled true)) : Finished g result :=
  ⟨hg, fun change h => absurd h (hredeemed change), fun h => absurd h hcancelled⟩

/-- A call keeps to the protocol and leaves nothing half written when it ends. -/
theorem request_obeys (call : LinkCall) :
    (linkProtocol P).Obeys Finished (.idle none) (request P call) := by
  have hidle : LinkPhase.AtRest (.idle none) := trivial
  cases call with
  | issuePending email code =>
    refine Protocol.obeys_bind.mpr (issuePending_obeys hidle email code fun g r hg => ?_)
    cases r <;> exact finished_of hg (by simp) (by simp)
  | validatePending email token =>
    refine Protocol.obeys_bind.mpr (validatePending_obeys hidle email token fun g r hg => ?_)
    cases r <;> exact finished_of hg (by simp) (by simp)
  | dropPending email =>
    have hdone : ∀ r : Option LinkResult, r = none ∨ r = some .dropped →
        Finished (.idle none) r := by
      rintro r (rfl | rfl) <;> exact finished_of hidle (by simp) (by simp)
    exact Protocol.obeys_await_bind.mpr
      ⟨⟨_, rfl⟩, hdone _ (.inl rfl), fun _ => hdone _ (.inr rfl)⟩
  | issueEmailChange sub kind newEmail =>
    refine Protocol.obeys_bind.mpr
      (issueEmailChange_obeys hidle sub kind newEmail fun g r hg => ?_)
    cases r <;> exact finished_of hg (by simp) (by simp)
  | redeemEmailChange token =>
    refine Protocol.obeys_bind.mpr (redeemEmailChange_obeys hidle token ?_ ?_)
    · intro g hg
      exact ⟨finished_of hg (by simp) (by simp), finished_of hg (by simp) (by simp)⟩
    · intro change
      refine ⟨trivial, fun change' h => ?_, fun h => ?_⟩
      · cases h
        rfl
      · cases h
  | cancelEmailChange sub =>
    refine Protocol.obeys_bind.mpr (cancelEmailChange_obeys hidle sub ?_ ?_)
    · intro g hg
      exact ⟨finished_of hg (by simp) (by simp), finished_of hg (by simp) (by simp)⟩
    · intro change
      refine ⟨trivial, fun change' h => ?_, fun _ => ⟨change, rfl⟩⟩
      cases h
  | emailReserved email =>
    have hbool : ∀ held, Finished (.idle none) (some (.reserved held)) := fun held =>
      finished_of hidle (by simp) (by simp)
    have hthrown : Finished (.idle none) none := finished_of hidle (by simp) (by simp)
    refine Protocol.obeys_bind.mpr (existsKey_obeys _ hthrown fun held => ?_)
    cases held with
    | true => exact hbool true
    | false =>
      refine Protocol.obeys_await.mpr ⟨trivial, fun r => ?_⟩
      cases r with
      | none => exact hthrown
      | some held => exact hbool held

end Programs

end DreamSso.Links
