import DreamSso.LinkInvariants

/-!
Pending links do not outlive their window in runs in which each new key is stored
within a slack of its link's creation and a record is written again only while it
is still stored. A link that is over is not accepted again, and reserves no address
once nobody is closing it.
-/
namespace DreamSso.Links

open Interleaving JsStrings Transitions

/-- A new key is stored at most so many milliseconds after its link was created. -/
def Prompt (slack : ℤ) (s : LinkDb) : Command → Prop
  | .set k v _ => s.clock ≤ 1000 * k.createdAt v + slack
  | _ => True

/-- Steps that keep links to their windows. -/
def withinWindows {ι : Type} (slack : ℤ) : Condition ι Command Command.Reply LinkDb ℕ where
  act s _ _ c := Undisturbed s c ∧ Prompt slack s c
  drift _ _ _ := True

/-- What a step does to a key. -/
theorem LinkStep.effect {P : Primitives} {s s' : LinkDb} {g g' : LinkPhase} {c : Command}
    (h : LinkStep P s g c s' g') (k : Key) :
    s'.redis k = s.redis k ∨ s'.redis k = none ∨
      (∃ v, c = .set k v TOKEN_TTL_SECONDS ∧ s' = s.set k v TOKEN_TTL_SECONDS) ∨
      ∃ v, c = .setKeepTtl k v ∧ s' = s.setKeepTtl k v := by
  have hset : ∀ (k' : Key) (v : k'.Value), c = .set k' v TOKEN_TTL_SECONDS →
      s' = s.set k' v TOKEN_TTL_SECONDS → s'.redis k = s.redis k ∨ s'.redis k = none ∨
        (∃ v, c = .set k v TOKEN_TTL_SECONDS ∧ s' = s.set k v TOKEN_TTL_SECONDS) ∨
        ∃ v, c = .setKeepTtl k v ∧ s' = s.setKeepTtl k v := by
    intro k' v hc hs
    by_cases hk : k = k'
    · subst hk
      exact .inr (.inr (.inl ⟨v, hc, hs⟩))
    · rw [hs]
      exact .inl (LinkDb.set_other hk)
  have hkeep : ∀ (k' : Key) (v : k'.Value), c = .setKeepTtl k' v → s' = s.setKeepTtl k' v →
      s'.redis k = s.redis k ∨ s'.redis k = none ∨
        (∃ v, c = .set k v TOKEN_TTL_SECONDS ∧ s' = s.set k v TOKEN_TTL_SECONDS) ∨
        ∃ v, c = .setKeepTtl k v ∧ s' = s.setKeepTtl k v := by
    intro k' v hc hs
    by_cases hk : k = k'
    · subst hk
      exact .inr (.inr (.inr ⟨v, hc, hs⟩))
    · rw [hs]
      exact .inl (LinkDb.setKeepTtl_other hk)
  have hdel : ∀ keys, s' = s.del keys → s'.redis k = s.redis k ∨ s'.redis k = none := by
    rintro keys rfl
    by_cases hmem : k ∈ keys
    · exact .inr (LinkDb.del_of_mem hmem)
    · exact .inl (LinkDb.del_of_notMem hmem)
  cases h with
  | read _ _ _ honly hrest hheld => exact .inl rfl
  | draw _ size encoding _ hrest htoken => exact .inl rfl
  | register now email v hcreated => exact hset _ _ rfl rfl
  | store now change hcreated => exact hset _ _ rfl rfl
  | point change => exact hset _ _ rfl rfl
  | reserve change hkind => exact hset _ _ rfl rfl
  | resendPending now email cur => exact hkeep _ _ rfl rfl
  | resendChange now cur => exact hkeep _ _ rfl rfl
  | dropPending now email => exact (hdel _ rfl).imp_right .inl
  | drop now cur => exact (hdel _ rfl).imp_right .inl
  | unreserve now change => exact (hdel _ rfl).imp_right .inl
  | redeem _ hash change hrest hget => exact (hdel _ rfl).imp_right .inl
  | miss _ hash hrest hget => exact (hdel _ rfl).imp_right .inl
  | unpoint change => exact (hdel _ rfl).imp_right .inl

/-- Every key expires within its window. -/
def Windowed (slack : ℤ) (s : LinkDb) : Prop :=
  ∀ (k : Key) e, s.redis k = some e → ∃ d, e.deadline = some d ∧
    d ≤ 1000 * k.createdAt e.value + LinkDb.milliseconds TOKEN_TTL_SECONDS + slack

/-- The link of a token is a pending registration that can be validated. -/
def Primitives.PendingLive (P : Primitives) (s : LinkDb) (token : JsString) : Prop :=
  ∃ email v, s.get (.pending email) = some v ∧
    P.sha256 (PendingRegistration.token v) = P.sha256 token

section Runs

variable {ι : Type} [DecidableEq ι] {P : Primitives} {slack : ℤ} {s s' : LinkDb}
  {log : List (Entry ι Command Command.Reply)}

theorem PendingRegistration.token_of_link {v w : PendingRegistration} (h : v.link = w.link) :
    v.token = w.token := (congrArg PendingRegistration.token h).trans rfl

/-- A record that is written again is the one that is stored, up to when it was sent. -/
theorem rewritten {k : Key} {v : k.Value} (hund : Undisturbed s (.setKeepTtl k v))
    (hstep : ∃ g g', LinkStep P s g (.setKeepTtl k v) s' g') :
    ∃ e, ExpiringStore.visible? s.redis s.clock k = some e ∧ k.createdAt e.value = k.createdAt v := by
  cases k with
  | pending email =>
    have hlink : (s.get (.pending email)).map PendingRegistration.link = some _ := hund
    obtain ⟨cur, hget, hcur⟩ := Option.map_eq_some_iff.mp hlink
    obtain ⟨e, he, rfl⟩ := Option.map_eq_some_iff.mp hget
    exact ⟨e, he, (congrArg PendingRegistration.createdAt hcur).trans rfl⟩
  | tok hash =>
    have hlink : (s.get (.tok hash)).map EmailChange.link = some _ := hund
    obtain ⟨cur, hget, hcur⟩ := Option.map_eq_some_iff.mp hlink
    obtain ⟨e, he, rfl⟩ := Option.map_eq_some_iff.mp hget
    exact ⟨e, he, (congrArg EmailChange.createdAt hcur).trans rfl⟩
  | user sub =>
    obtain ⟨g, g', hstep⟩ := hstep
    cases hstep with
    | read _ _ _ honly hrest hheld => cases honly
  | addr email =>
    obtain ⟨g, g', hstep⟩ := hstep
    cases hstep with
    | read _ _ _ honly hrest hheld => cases honly

theorem Windowed.act (h : Windowed slack s) {g g' : LinkPhase} {c : Command}
    (hstep : LinkStep P s g c s' g') (hund : Undisturbed s c) (hprompt : Prompt slack s c) :
    Windowed slack s' := by
  intro k e he
  rcases hstep.effect k with hsame | hnone | ⟨v, rfl, rfl⟩ | ⟨v, rfl, rfl⟩
  · rw [hsame] at he
    exact h k e he
  · rw [hnone] at he
    cases he
  · rw [LinkDb.set_self] at he
    cases he
    have hclock : s.clock ≤ 1000 * k.createdAt v + slack := hprompt
    exact ⟨_, rfl, by show _ ≤ 1000 * k.createdAt v + _ + slack; omega⟩
  · obtain ⟨cur, hcur, hcreated⟩ := rewritten hund ⟨g, g', hstep⟩
    rw [LinkDb.setKeepTtl_self, hcur] at he
    cases he
    obtain ⟨d, hd, hle⟩ := h k cur (ExpiringStore.visible?_eq_some_iff.mp hcur).1
    rw [hcreated] at hle
    exact ⟨d, hd, hle⟩

/-- A pending registration that is over stays over. -/
theorem Consistent.pending_over_act (h : Consistent P log s) {i : ι} {c : Command}
    {g' : LinkPhase} (hstep : LinkStep P s (linkPhases P log i) c s' g') (hund : Undisturbed s c)
    {token : JsString} (htoken : token ∈ storedTokens log) (hover : ¬ P.PendingLive s token) :
    ¬ P.PendingLive s' token := by
  rintro ⟨email, v, hget, hhash⟩
  have hclock := hstep.clock_eq
  rcases hstep.effect (.pending email) with hsame | hnone | ⟨w, hc, hs⟩ | ⟨w, hc, hs⟩
  · rw [LinkDb.get, hclock, ExpiringStore.get_congr hsame] at hget
    exact hover ⟨email, v, hget, hhash⟩
  · rw [LinkDb.get, ExpiringStore.get_of_none hnone] at hget
    cases hget
  · obtain ⟨e, he, rfl, -⟩ := ExpiringStore.get_eq_some_iff.mp hget
    rw [hs, LinkDb.set_self] at he
    cases he
    have hnew : c.newToken = some (PendingRegistration.token w) := by
      rw [hc]
      rfl
    exact (h.tokens.held i _ (hstep.storing hnew).1).2 token htoken hhash.symm
  · obtain ⟨e, he, rfl, -⟩ := ExpiringStore.get_eq_some_iff.mp hget
    rw [hs, LinkDb.setKeepTtl_self] at he
    cases he
    rw [hc] at hund
    have hlink : (s.get (.pending email)).map PendingRegistration.link = some _ := hund
    obtain ⟨cur, hcur, hsame⟩ := Option.map_eq_some_iff.mp hlink
    refine hover ⟨email, cur, hcur, ?_⟩
    rw [PendingRegistration.token_of_link hsame]
    exact hhash

/-- And so does a change. -/
theorem Consistent.change_over_act (h : Consistent P log s) {i : ι} {c : Command}
    {g' : LinkPhase} (hstep : LinkStep P s (linkPhases P log i) c s' g') (hund : Undisturbed s c)
    {token : JsString} (htoken : token ∈ storedTokens log) (hover : ¬ P.ChangeLive s token) :
    ¬ P.ChangeLive s' token := by
  rw [Primitives.not_changeLive] at hover ⊢
  have hclock := hstep.clock_eq
  rcases hstep.tok_effect (P.sha256 token) with hsame | hnone | ⟨new, hhash, hheld, -, -⟩ |
      ⟨cur, now, -, -, rfl, -⟩
  · rw [LinkDb.get, hclock, ExpiringStore.get_congr hsame]
    exact hover
  · exact ExpiringStore.get_of_none hnone _
  · exact absurd hhash ((h.tokens.held i _ hheld).2 token htoken)
  · have hlink : (s.get (.tok (P.sha256 token))).map EmailChange.link = some _ := hund
    rw [hover] at hlink
    cases hlink

/-- Calls on pending links, from a Redis that holds none. -/
def linkRuns (P : Primitives) (calls : ι → LinkCall) :
    System (Config ι Command Command.Reply LinkDb LinkResult) (Move ι Outside ℕ) :=
  (linkServer P).system (fun s => ∀ k, s.redis k = none) fun i => request P (calls i)

section Reached

variable {calls : ι → LinkCall} {start cfg cfg' : Config ι Command Command.Reply LinkDb LinkResult}
  {trace : List (Event (Config ι Command Command.Reply LinkDb LinkResult) (Move ι Outside ℕ))}

/-- Calls at the places of their protocol, on a consistent store. -/
structure Proper (P : Primitives) (cfg : Config ι Command Command.Reply LinkDb LinkResult) :
    Prop where
  consistent : Consistent P cfg.log cfg.store
  obeys : ∀ i, (linkProtocol P).Obeys Finished (linkPhases P cfg.log i) (cfg.requests i)

theorem Proper.initial (h : (linkRuns P calls).initial start) : Proper P start := by
  obtain ⟨hempty, hlog, hprograms⟩ := h
  constructor
  · rw [hlog]
    exact Consistent.initial hempty
  · intro i
    rw [hlog, hprograms]
    exact request_obeys (calls i)

/-- What each step that keeps to the windows keeps on a consistent store is kept by a
run of them. -/
theorem Proper.run (h : Proper P cfg) (hdistinct : P.Distinct)
    (hrun : Exec (linkRuns P calls) cfg trace cfg')
    (hmeets : ∀ e ∈ trace, (withinWindows slack).Meets e.before e.label)
    {J : LinkDb → List (Entry ι Command Command.Reply) → Prop}
    (hact : ∀ s s' log i c r, Consistent P log s → J s log → Undisturbed s c → Prompt slack s c →
      LinkStep P s (linkPhases P log i) c s' ((linkProtocol P).next (linkPhases P log i) c r) →
      J s' (log ++ [⟨i, c, r⟩]))
    (hdrift : ∀ s log now, J s log → s.clock ≤ now → J { s with clock := now } log)
    (hJ : J cfg.store cfg.log) : Proper P cfg' ∧ J cfg'.store cfg'.log := by
  obtain ⟨⟨hconsistent, hkept⟩, hobeys⟩ := Server.run_meeting
    (I := fun s log => Consistent P log s ∧ J s log)
    (fun s log i c out hI hok hmeets => by
      have hstep := link_step (s := s) out hok
      exact ⟨hI.1.act hdistinct hstep hmeets.1,
        hact _ _ _ _ _ _ hI.1 hI.2 hmeets.1 hmeets.2 hstep⟩)
    (fun s s' log e hI _ hdrifts => by
      refine ⟨hI.1.drift hdrifts, ?_⟩
      cases hdrifts
      exact hdrift s log _ hI.2 (by omega))
    hrun hmeets h.obeys ⟨h.consistent, hJ⟩
  exact ⟨⟨hconsistent, hobeys⟩, hkept⟩

omit [DecidableEq ι] in
theorem mem_storedTokens_append {token : JsString} (h : token ∈ storedTokens log)
    (e : Entry ι Command Command.Reply) : token ∈ storedTokens (log ++ [e]) := by
  rw [storedTokens, List.flatMap_append]
  exact List.mem_append_left _ h

/-- A pending registration that is over stays over. -/
theorem Proper.pending_over (h : Proper P cfg) (hdistinct : P.Distinct)
    (hrun : Exec (linkRuns P calls) cfg trace cfg')
    (hmeets : ∀ e ∈ trace, (withinWindows slack).Meets e.before e.label) {token : JsString}
    (htoken : token ∈ storedTokens cfg.log) (hover : ¬ P.PendingLive cfg.store token) :
    ¬ P.PendingLive cfg'.store token := by
  refine (h.run hdistinct hrun hmeets
    (J := fun s log => token ∈ storedTokens log ∧ ¬ P.PendingLive s token) ?_ ?_
    ⟨htoken, hover⟩).2.2
  · intro s s' log i c r hconsistent hJ hund _ hstep
    exact ⟨mem_storedTokens_append hJ.1 _,
      hconsistent.pending_over_act hstep hund hJ.1 hJ.2⟩
  · rintro s log now ⟨htoken, hover⟩ hle
    refine ⟨htoken, fun ⟨email, v, hget, hhash⟩ => hover ⟨email, v, ?_, hhash⟩⟩
    exact ExpiringStore.get_later hle hget

theorem Proper.change_over (h : Proper P cfg) (hdistinct : P.Distinct)
    (hrun : Exec (linkRuns P calls) cfg trace cfg')
    (hmeets : ∀ e ∈ trace, (withinWindows slack).Meets e.before e.label) {token : JsString}
    (htoken : token ∈ storedTokens cfg.log) (hover : ¬ P.ChangeLive cfg.store token) :
    ¬ P.ChangeLive cfg'.store token ∧
      (¬ P.Reserves cfg.store token → ¬ P.Reserves cfg'.store token) := by
  refine (h.run hdistinct hrun hmeets
    (J := fun s log => token ∈ storedTokens log ∧ ¬ P.ChangeLive s token ∧
      (¬ P.Reserves cfg.store token → ¬ P.Reserves s token)) ?_ ?_
    ⟨htoken, hover, id⟩).2.2
  · rintro s s' log i c r hconsistent ⟨htoken, hover, hfree⟩ hund _ hstep
    exact ⟨mem_storedTokens_append htoken _, hconsistent.change_over_act hstep hund htoken hover,
      fun h => Known.unreserved_act hstep hund hover (hfree h)⟩
  · rintro s log now ⟨htoken, hover, hfree⟩ hle
    exact ⟨htoken, fun h => hover (h.earlier hle), fun hbefore h => hfree hbefore (h.earlier hle)⟩

/-- A registration that a call has validated was stored while it ran. -/
theorem validated_stored (hrun : Exec (linkRuns P calls) cfg trace cfg') {i : ι}
    {email token : JsString} (hcall : calls i = .validatePending email token)
    (hbegin : cfg.requests i = request P (calls i)) {pending : PendingRegistration}
    (hdone : cfg'.requests i = .done (.validated (some pending))) :
    ∃ e ∈ trace, e.before.store.get (P.pendKey email) = some pending := by
  rw [hcall] at hbegin
  by_cases hlength : token.length < 32 ∨ 128 < token.length
  · have hrefused : cfg.requests i = .done (.validated none) := by
      rw [hbegin, request, validatePending, if_pos hlength]
      rfl
    rw [Server.done_kept hrun hrefused] at hdone
    cases hdone
  · rw [request, validatePending, if_neg hlength] at hbegin
    obtain ⟨e, he, out, -, -, hreturns⟩ := Server.first_answer hrun hbegin hdone
    refine ⟨e, he, ?_⟩
    have hfound := hreturns.of_done
    injection hfound with hfound
    exact (Option.filter_eq_some_iff.mp hfound.symm).1

omit [DecidableEq ι] in
/-- What a redemption returns is what it has taken. -/
theorem redeem_mayReturn {found : Option EmailChange} {change : EmailChange}
    (h : Prog.MayReturn (.redeemed (some change)) ((match found with
      | none => (pure none : Handler (Option EmailChange))
      | some change => do
          await (.del [.user change.sub])
          deleteReservation P change
          pure (some change)) >>= fun change => (pure (.redeemed change) : Handler LinkResult))) :
    found = some change := by
  cases found with
  | none =>
    injection h.of_done with hnone
    cases hnone
  | some taken =>
    cases h with
    | call r h =>
      cases r with
      | none => cases h
      | some r =>
        have hend : Prog.MayReturn (.redeemed (some change)) ((deleteReservation P taken >>=
            fun _ => (pure (some taken) : Handler (Option EmailChange))) >>=
              fun change => (pure (.redeemed change) : Handler LinkResult)) := h
        unfold deleteReservation at hend
        cases hkind : taken.kind with
        | change =>
          rw [hkind] at hend
          cases hend with
          | call r hend =>
            cases r with
            | none => cases hend
            | some r =>
              injection hend.of_done with htaken
              exact htaken.symm
        | confirm =>
          rw [hkind] at hend
          injection hend.of_done with htaken
          exact htaken.symm

/-- A change that a call has redeemed was stored while it ran. -/
theorem redeemed_stored (hrun : Exec (linkRuns P calls) cfg trace cfg') {i : ι}
    {token : JsString} (hcall : calls i = .redeemEmailChange token)
    (hbegin : cfg.requests i = request P (calls i)) {change : EmailChange}
    (hdone : cfg'.requests i = .done (.redeemed (some change))) :
    ∃ e ∈ trace, e.before.store.get (P.tokKey token) = some change := by
  rw [hcall] at hbegin
  by_cases hlength : token.length < 20 ∨ 100 < token.length
  · have hrefused : cfg.requests i = .done (.redeemed none) := by
      rw [hbegin, request, redeemEmailChange, if_pos hlength]
      rfl
    rw [Server.done_kept hrun hrefused] at hdone
    cases hdone
  · rw [request, redeemEmailChange, if_neg hlength] at hbegin
    obtain ⟨e, he, out, -, -, hreturns⟩ := Server.first_answer hrun hbegin hdone
    exact ⟨e, he, redeem_mayReturn hreturns⟩

/-- A call that finds an address reserved has found a registration or a reservation
stored for it. -/
theorem reserved_stored (hrun : Exec (linkRuns P calls) cfg trace cfg') {i : ι}
    {email : JsString} (hcall : calls i = .emailReserved email)
    (hbegin : cfg.requests i = request P (calls i))
    (hdone : cfg'.requests i = .done (.reserved true)) :
    ∃ e ∈ trace, (∃ v, e.before.store.get (P.pendKey email) = some v) ∨
      ∃ v, e.before.store.get (P.addrKey email) = some v := by
  rw [hcall] at hbegin
  obtain ⟨e, he, out, -, hafter, -⟩ := Server.first_answer hrun hbegin hdone
  cases hpending : e.before.store.get (P.pendKey email) with
  | some v => exact ⟨e, he, .inl ⟨v, hpending⟩⟩
  | none =>
    have hreply : ((linkServer P).perform out (.existsKey (P.pendKey email)) e.before.store).1 =
        some false := by
      show some (e.before.store.get (P.pendKey email)).isSome = some false
      rw [hpending]
      rfl
    rw [hreply] at hafter
    have hnext : e.after.requests i = (do
        let held ← changePendingForAddress P email
        pure (.reserved held)) := hafter
    obtain ⟨first, second, rfl, -, -, hsecond⟩ := hrun.split he
    obtain ⟨e', he', out', -, -, hreturns⟩ := Server.first_answer hsecond hnext hdone
    refine ⟨e', List.mem_append_right _ (List.mem_cons_of_mem _ he'), .inr ?_⟩
    have hheld := hreturns.of_done
    injection hheld with hheld
    exact Option.isSome_iff_exists.mp hheld.symm

end Reached

/-- In every run whose steps keep links to their windows, each key expires within the
window of its link. A link that was stored and is not stored any more is not accepted by
a call that starts later; nor does it reserve an address once no call is closing it, or
once a call has redeemed or cancelled it. -/
theorem links_expire (P : Primitives) (hdistinct : P.Distinct) (slack : ℤ)
    (calls : ι → LinkCall)
    {start mid cfg : Config ι Command Command.Reply LinkDb LinkResult}
    {earlier later : List (Event (Config ι Command Command.Reply LinkDb LinkResult)
      (Move ι Outside ℕ))}
    (hstart : (linkRuns P calls).initial start)
    (hearlier : Exec (linkRuns P calls) start earlier mid)
    (hlater : Exec (linkRuns P calls) mid later cfg)
    (hmeets : ∀ e ∈ earlier ++ later, (withinWindows slack).Meets e.before e.label) :
    (∀ (k : Key) e, ExpiringStore.visible? cfg.store.redis cfg.store.clock k = some e →
      ∃ d, e.deadline = some d ∧
        d ≤ 1000 * k.createdAt e.value + LinkDb.milliseconds TOKEN_TTL_SECONDS + slack) ∧
    (∀ token ∈ storedTokens mid.log, ¬ P.PendingLive mid.store token →
      ¬ P.PendingLive cfg.store token ∧
      ∀ i email t pending, calls i = .validatePending email t →
        mid.requests i = request P (calls i) →
        cfg.requests i = .done (.validated (some pending)) →
          P.sha256 pending.token ≠ P.sha256 token) ∧
    (∀ token ∈ storedTokens mid.log, ¬ P.ChangeLive mid.store token →
      ¬ P.ChangeLive cfg.store token ∧
      (∀ i t change, calls i = .redeemEmailChange t → mid.requests i = request P (calls i) →
        cfg.requests i = .done (.redeemed (some change)) →
          P.sha256 change.token ≠ P.sha256 token) ∧
      ((∀ i change, (linkPhases P mid.log i).closing = some change →
          P.sha256 change.token ≠ P.sha256 token) → ¬ P.Reserves cfg.store token)) ∧
    (∀ i change, (linkPhases P mid.log i).finished = some change →
      ¬ P.ChangeLive cfg.store change.token ∧ ¬ P.Reserves cfg.store change.token) ∧
    (∀ i, (∀ change, mid.requests i = .done (.redeemed (some change)) →
        (linkPhases P mid.log i).finished = some change) ∧
      (mid.requests i = .done (.cancelled true) →
        ∃ change, (linkPhases P mid.log i).finished = some change)) ∧
    ∀ i email, calls i = .emailReserved email → mid.requests i = request P (calls i) →
      cfg.requests i = .done (.reserved true) →
      ∃ e ∈ later, (∃ v, e.before.store.get (P.pendKey email) = some v) ∨
        ∃ v, e.before.store.get (P.addrKey email) = some v := by
  have hmeetsEarlier : ∀ e ∈ earlier, (withinWindows slack).Meets e.before e.label :=
    fun e he => hmeets e (List.mem_append_left _ he)
  have hmeetsLater : ∀ e ∈ later, (withinWindows slack).Meets e.before e.label :=
    fun e he => hmeets e (List.mem_append_right _ he)
  have hwindowed : Proper P mid ∧ Windowed slack mid.store := by
    refine (Proper.initial hstart).run hdistinct hearlier hmeetsEarlier
      (J := fun s _ => Windowed slack s) ?_ ?_ ?_
    · intro s s' log i c r _ hwindowed hund hprompt hstep
      exact hwindowed.act hstep hund hprompt
    · intro s log now hwindowed _
      exact hwindowed
    · intro k e he
      rw [hstart.1 k] at he
      cases he
  obtain ⟨hmid, hwindowed⟩ := hwindowed
  have hwindows : Windowed slack cfg.store := by
    refine (hmid.run hdistinct hlater hmeetsLater (J := fun s _ => Windowed slack s) ?_ ?_
      hwindowed).2
    · intro s s' log i c r _ hwindowed hund hprompt hstep
      exact hwindowed.act hstep hund hprompt
    · intro s log now hwindowed _
      exact hwindowed
  -- what is over at `mid` is over whenever a later call looks at it
  have hbefore : ∀ e ∈ later, ∃ first, Exec (linkRuns P calls) mid first e.before ∧
      ∀ e' ∈ first, (withinWindows slack).Meets e'.before e'.label := by
    intro e he
    obtain ⟨first, second, rfl, hfirst, -, -⟩ := hlater.split he
    exact ⟨first, hfirst, fun e' he' => hmeetsLater e' (List.mem_append_left _ he')⟩
  refine ⟨?_, ?_, ?_, ?_, ?_, ?_⟩
  · intro k e he
    exact hwindows k e (ExpiringStore.visible?_eq_some_iff.mp he).1
  · intro token htoken hover
    refine ⟨hmid.pending_over hdistinct hlater hmeetsLater htoken hover, ?_⟩
    intro i email t pending hcall hbegin hdone hhash
    obtain ⟨e, he, hget⟩ := validated_stored hlater hcall hbegin hdone
    obtain ⟨first, hfirst, hmeetsFirst⟩ := hbefore e he
    exact hmid.pending_over hdistinct hfirst hmeetsFirst htoken hover ⟨_, pending, hget, hhash⟩
  · intro token htoken hover
    obtain ⟨hcfg, hfree⟩ := hmid.change_over hdistinct hlater hmeetsLater htoken hover
    refine ⟨hcfg, ?_, ?_⟩
    · intro i t change hcall hbegin hdone hhash
      obtain ⟨e, he, hget⟩ := redeemed_stored hlater hcall hbegin hdone
      obtain ⟨first, hfirst, hmeetsFirst⟩ := hbefore e he
      refine (hmid.change_over hdistinct hfirst hmeetsFirst htoken hover).1 ?_
      have hbeforeProper := (hmid.run hdistinct hfirst hmeetsFirst (J := fun _ _ => True)
        (fun _ _ _ _ _ _ _ _ _ _ _ => trivial) (fun _ _ _ _ _ => trivial) trivial).1
      have hkey := (hbeforeProper.consistent.known.read hget).1
      rw [Primitives.ChangeLive, ← hhash, ← hkey]
      exact Option.isSome_iff_exists.mpr ⟨change, hget⟩
    · intro hnone
      refine hfree fun hreserves => ?_
      obtain ⟨i, change, hclosing, hhash, -⟩ :=
        hmid.consistent.reserved.closing_of_reserves hover hreserves
      exact hnone i change hclosing hhash
  · intro i change hfinished
    obtain ⟨hover, hfree⟩ := hmid.consistent.released i change hfinished
    obtain ⟨change', hmem, hlink⟩ :=
      hmid.consistent.known.known i change (LinkPhase.change_of_finished hfinished)
    have htoken : change.token ∈ storedTokens mid.log := by
      rw [EmailChange.token_of_link hlink]
      exact hmid.consistent.known.listed change' hmem
    obtain ⟨hcfg, hkept⟩ := hmid.change_over hdistinct hlater hmeetsLater htoken hover
    exact ⟨hcfg, hkept hfree⟩
  · intro i
    have hobeys := hmid.obeys i
    refine ⟨fun change hdone => ?_, fun hdone => ?_⟩
    · rw [hdone] at hobeys
      rw [hobeys.2.1 change rfl]
      rfl
    · rw [hdone] at hobeys
      obtain ⟨change, hphase⟩ := hobeys.2.2 rfl
      exact ⟨change, by rw [hphase]; rfl⟩
  · intro i email hcall hbegin hdone
    exact reserved_stored hlater hcall hbegin hdone

end Runs

section Interleaved

instance (s : LinkDb) : (c : Command) → Decidable (Undisturbed s c)
  | .setKeepTtl (.pending _) _ => inferInstanceAs (Decidable (_ = _))
  | .setKeepTtl (.tok _) _ => inferInstanceAs (Decidable (_ = _))
  | .setKeepTtl (.user _) _ => .isTrue trivial
  | .setKeepTtl (.addr _) _ => .isTrue trivial
  | .set (.addr _) _ _ => inferInstanceAs (Decidable (_ = _))
  | .set (.pending _) _ _ => .isTrue trivial
  | .set (.tok _) _ _ => .isTrue trivial
  | .set (.user _) _ _ => .isTrue trivial
  | .dateNow => .isTrue trivial
  | .randomBytes _ _ => .isTrue trivial
  | .get _ => .isTrue trivial
  | .getdel _ => .isTrue trivial
  | .del _ => .isTrue trivial
  | .existsKey _ => .isTrue trivial
  | .ask _ => .isTrue trivial

instance (slack : ℤ) (s : LinkDb) : (c : Command) → Decidable (Prompt slack s c)
  | .set _ _ _ => inferInstanceAs (Decidable (_ ≤ _))
  | .dateNow => .isTrue trivial
  | .randomBytes _ _ => .isTrue trivial
  | .get _ => .isTrue trivial
  | .setKeepTtl _ _ => .isTrue trivial
  | .getdel _ => .isTrue trivial
  | .del _ => .isTrue trivial
  | .existsKey _ => .isTrue trivial
  | .ask _ => .isTrue trivial

instance {ι : Type} (slack : ℤ) (s : LinkDb) (log : List (Entry ι Command Command.Reply)) (i : ι)
    (c : Command) : Decidable ((withinWindows slack).act s log i c) :=
  inferInstanceAs (Decidable (_ ∧ _))

instance {ι : Type} (slack : ℤ) (s : LinkDb) (log : List (Entry ι Command Command.Reply)) (e : ℕ) :
    Decidable ((withinWindows slack).drift s log e) := .isTrue trivial

/-- The tokens are numbered, and the hash of a token is the token. -/
def numberedTokens : Primitives where
  sha256 token := token
  randomBytes _ _ n := n :: List.replicate 32 0x61
  toLowerCase email := email

theorem numberedTokens_distinct : numberedTokens.Distinct := by
  intro size encoding n size' encoding' n' h
  exact (List.cons.inj h).1

def silence : Outside
  | .portalAssertion => false
  | .loadIdentity _ => none
  | .hasPerm _ _ => false
  | .taken _ _ => false
  | .freshStepup _ => false
  | .emailConfigured => false
  | .reserveRegistrationSend _ => .denied 0 false
  | .releaseRegistrationSend _ => ()
  | .sendEmail _ _ _ => false
  | .verifyEmail _ _ => false
  | .updateEmail _ _ => ()

def stepsOf {n : ℕ} (i : Fin n) (count : ℕ) : List (Move (Fin n) Outside ℕ) :=
  List.replicate count (.act i silence)

abbrev LinkConfig (n : ℕ) := Config (Fin n) Command Command.Reply LinkDb LinkResult

def noLinks {n : ℕ} (calls : Fin n → LinkCall) : LinkConfig n :=
  ⟨⟨0, 0, fun _ => none⟩, [], fun i => request numberedTokens (calls i)⟩

/-- A change is issued and redeemed, and redeemed again. -/
def redeemedTwice : Fin 3 → LinkCall
  | 0 => .issueEmailChange (Uuid.numbered 1) .change (js "a@b.c")
  | _ => .redeemEmailChange (0 :: List.replicate 32 0x61)

def redeemedChange : EmailChange :=
  ⟨Uuid.numbered 1, .change, js "a@b.c", 0 :: List.replicate 32 0x61, 0, 0⟩

theorem links_expire_redeemedTwice :
    ∃ mid cfg : LinkConfig 3,
      mid.requests 1 = .done (.redeemed (some redeemedChange)) ∧
      cfg.requests 2 = .done (.redeemed none) ∧
      ¬ numberedTokens.ChangeLive cfg.store redeemedChange.token ∧
      ¬ numberedTokens.Reserves cfg.store redeemedChange.token := by
  have hruns : ((stepsOf 0 6 ++ stepsOf 1 3).foldlM
      ((linkServer numberedTokens).stepMeeting (withinWindows 0)) (noLinks redeemedTwice)).any
        (fun mid : LinkConfig 3 => decide ((mid.requests 1).result? = some (LinkResult.redeemed (some redeemedChange))) &&
          ((stepsOf 2 1).foldlM ((linkServer numberedTokens).stepMeeting (withinWindows 0))
            mid).any fun cfg : LinkConfig 3 =>
              decide ((cfg.requests 2).result? = some (LinkResult.redeemed none))) = true := by
    decide +kernel
  obtain ⟨mid, hmid, hboth⟩ := (Option.any_eq_true ..).mp hruns
  obtain ⟨hredeemed, hthen⟩ := (Bool.and_eq_true ..).mp hboth
  obtain ⟨cfg, hcfg, hnone⟩ := (Option.any_eq_true ..).mp hthen
  obtain ⟨earlier, hearlier, hmeets⟩ := Server.exec_of_moves_meeting hmid
    (fun s => ∀ k, s.redis k = none) fun i => request numberedTokens (redeemedTwice i)
  obtain ⟨later, hlater, hmeets'⟩ := Server.exec_of_moves_meeting hcfg
    (fun s => ∀ k, s.redis k = none) fun i => request numberedTokens (redeemedTwice i)
  have hdone := Prog.eq_done (of_decide_eq_true hredeemed)
  obtain ⟨-, -, -, hover, hresults, -⟩ := links_expire numberedTokens numberedTokens_distinct 0
    redeemedTwice ⟨fun _ => rfl, rfl, rfl⟩ hearlier hlater fun e he => by
      rcases List.mem_append.mp he with he | he
      · exact hmeets e he
      · exact hmeets' e he
  exact ⟨mid, cfg, hdone, Prog.eq_done (of_decide_eq_true hnone),
    hover 1 redeemedChange ((hresults 1).1 redeemedChange hdone)⟩

/-- A registration is issued, and dropped while a resend is about to write it again. -/
def droppedResend : Fin 4 → LinkCall
  | 0 => .issuePending (js "a@b.c") none
  | 1 => .issuePending (js "a@b.c") none
  | 2 => .dropPending (js "a@b.c")
  | 3 => .validatePending (js "a@b.c") (0 :: List.replicate 32 0x61)

def droppedRegistration : PendingRegistration := ⟨0 :: List.replicate 32 0x61, none, 0, 0⟩

/-- The dropped registration is validated by a call that starts after the drop, and
never expires. -/
theorem dropped_link_returns :
    ∃ (start mid cfg : LinkConfig 4)
      (earlier later : List (Event (LinkConfig 4) (Move (Fin 4) Outside ℕ))),
      (linkRuns numberedTokens droppedResend).initial start ∧
      Exec (linkRuns numberedTokens droppedResend) start earlier mid ∧
      Exec (linkRuns numberedTokens droppedResend) mid later cfg ∧
      mid.requests 2 = .done .dropped ∧
      mid.store.get (numberedTokens.pendKey (js "a@b.c")) = none ∧
      droppedRegistration.token ∈ storedTokens mid.log ∧
      mid.requests 3 = request numberedTokens (droppedResend 3) ∧
      cfg.requests 3 = .done (.validated (some droppedRegistration)) ∧
      ExpiringStore.visible? cfg.store.redis cfg.store.clock
        (numberedTokens.pendKey (js "a@b.c")) = some ⟨droppedRegistration, none⟩ := by
  have hruns : ((stepsOf 0 4 ++ stepsOf 1 2 ++ stepsOf 2 1).foldlM
      (linkServer numberedTokens).step (noLinks droppedResend)).any
        (fun mid : LinkConfig 4 => decide ((mid.requests 2).result? = some LinkResult.dropped ∧
          mid.store.get (numberedTokens.pendKey (js "a@b.c")) = none ∧
          droppedRegistration.token ∈ storedTokens mid.log ∧ ∀ e ∈ mid.log, e.who ≠ 3) &&
          ((stepsOf 1 1 ++ stepsOf 3 1).foldlM (linkServer numberedTokens).step mid).any fun cfg : LinkConfig 4 =>
            decide ((cfg.requests 3).result? = some (LinkResult.validated (some droppedRegistration)) ∧
              (ExpiringStore.visible? cfg.store.redis cfg.store.clock
                (numberedTokens.pendKey (js "a@b.c"))).map
                  (fun e : ExpiringStore.Stored PendingRegistration => (e.value, e.deadline)) =
                  some (droppedRegistration, none))) = true := by
    decide +kernel
  obtain ⟨mid, hmid, hboth⟩ := (Option.any_eq_true ..).mp hruns
  obtain ⟨hdropped, hthen⟩ := (Bool.and_eq_true ..).mp hboth
  obtain ⟨cfg, hcfg, hreturns⟩ := (Option.any_eq_true ..).mp hthen
  obtain ⟨hdropped, hgone, hstored, hwho⟩ := of_decide_eq_true hdropped
  obtain ⟨hvalidated, hentry⟩ := of_decide_eq_true hreturns
  obtain ⟨e, he, hvalue⟩ := Option.map_eq_some_iff.mp hentry
  obtain ⟨earlier, hearlier⟩ := Server.exec_of_moves hmid (fun s => ∀ k, s.redis k = none)
    fun i => request numberedTokens (droppedResend i)
  obtain ⟨later, hlater⟩ := Server.exec_of_moves hcfg (fun s => ∀ k, s.redis k = none)
    fun i => request numberedTokens (droppedResend i)
  refine ⟨noLinks droppedResend, mid, cfg, earlier, later, ⟨fun _ => rfl, rfl, rfl⟩, hearlier,
    hlater, Prog.eq_done hdropped, hgone, hstored, Server.not_begun hearlier hwho,
    Prog.eq_done hvalidated, ?_⟩
  rw [he]
  obtain ⟨value, deadline⟩ := e
  cases hvalue
  rfl

end Interleaved

end DreamSso.Links
