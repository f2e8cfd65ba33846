import DreamSso.SsoFrames
import DreamSso.Library.ExclusiveAccess

/-!
Redeeming one authorization code from any number of concurrent token requests.
The code is looked up and deleted by two commands, so two requests can both find
it. In every run in which nobody looks the code up while another request that
found it has still to delete it, at most one request gets past the redemption.
-/
namespace DreamSso

open Interleaving JsStrings Transitions

/-- How far a request has come with the code. -/
inductive RedeemPhase
  | before
  | found (ac : AuthCode)
  | redeemed
  | ended
  deriving DecidableEq

def RedeemPhase.lookup : Option (Option AuthCode) → RedeemPhase
  | some (some ac) => .found ac
  | _ => .ended

def RedeemPhase.deletion : Option Unit → RedeemPhase
  | some _ => .redeemed
  | none => .ended

/-- The two steps of `consumeCode`; nothing else touches the code. -/
def redeemProtocol (code : JsString) : Protocol Command Command.Reply RedeemPhase where
  next
    | .before, .get (.code c), r => if c = code then RedeemPhase.lookup r else .before
    | .found _, .del keys, r => if keys = [.code code] then RedeemPhase.deletion r else .ended
    | .found _, _, _ => .ended
    | g, _, _ => g
  ok
    | .found _, c => c = .del [.code code]
    | _, c => c.writesKey (.code code) = false

/-- The request has deleted the code it looked up. -/
def isRedemption {ι : Type} (code : JsString) (e : Entry ι Command Command.Reply) : Prop :=
  e.command = .del [.code code] ∧ e.reply.isSome = true

def Redeemed {ι : Type} (code : JsString) (log : List (Entry ι Command Command.Reply)) (i : ι) :
    Prop := ∃ e ∈ log, e.who = i ∧ isRedemption code e

/-- No request ends between lookup and deletion, and tokens for this code are
minted only past the redemption. -/
def redeemPost (code : JsString) (b : TokenBody) (g : RedeemPhase) (a : Option Response) : Prop :=
  (∀ ac, g ≠ .found ac) ∧ ∀ idToken accessToken, a = some (.tokens idToken accessToken) →
    b.code.getD [] = code → g = .redeemed

section Program

variable {P : Primitives} {code : JsString} {b : TokenBody}

theorem authenticateClient_only : (authenticateClient P b).Only fun c => c.plain = true := by
  unfold authenticateClient
  split
  · trivial
  · split_ifs
    · trivial
    · split
      · trivial
      · trivial
      · refine only_await_bind rfl fun client => ?_
        split
        · trivial
        · split_ifs
          · trivial
          · refine only_await_bind rfl fun keySet => ?_
            split_ifs
            · trivial
            · refine only_await_bind rfl fun verified => ?_
              split_ifs <;> trivial

theorem getSetting_only (key : String) : (getSetting key).Only fun c => c.plain = true :=
  only_await_bind rfl fun _ => trivial

theorem getSessionWindows_only : getSessionWindows.Only fun c => c.plain = true := by
  unfold getSessionWindows
  exact (getSetting_only _).bind fun _ => (getSetting_only _).bind fun _ =>
    (getSetting_only _).bind fun _ => trivial

theorem siteNameSetting_only : siteNameSetting.Only fun c => c.plain = true :=
  (getSetting_only _).bind fun _ => trivial

theorem identityClaims_only (ac : AuthCode) : (identityClaims ac).Only fun c => c.plain = true := by
  refine Prog.Only.bind ?_ fun row => siteNameSetting_only.bind fun _ => trivial
  unfold claimedIdentity
  split_ifs
  · exact only_await.mpr rfl
  · trivial

theorem roleClaims_only (clientId : ClientId) (ac : AuthCode) (extra : IdTokenExtra) :
    (roleClaims clientId ac extra).Only fun c => c.plain = true := by
  unfold roleClaims
  refine Prog.Only.bind (only_attempt.mpr (only_await.mpr rfl)) fun snapshot => ?_
  split
  · trivial
  · split
    · split_ifs
      · trivial
      · split <;> trivial
      · trivial
    · trivial

theorem mintTokens_only (clientId : ClientId) (ac : AuthCode) (extra : IdTokenExtra) :
    (mintTokens clientId ac extra).Only fun c => c.plain = true :=
  only_await_bind rfl fun _ => only_await_bind rfl fun _ => trivial

/-- Nothing a token request does after the redemption touches a key. -/
theorem issueTokens_only (clientId : ClientId) (ac : AuthCode) (k : Key) :
    (issueTokens P b clientId ac).Only fun c => c.touchesKey k = false := by
  have hplain : ∀ c : Command, c.plain = true → c.touchesKey k = false :=
    fun c hc => Command.touchesKey_of_plain hc k
  unfold issueTokens
  split
  · trivial
  · refine ((identityClaims_only ac).mono hplain).bind fun identity => ?_
    refine Prog.Only.bind ?_ fun session => ?_
    · refine only_await_bind rfl fun _ => only_await_bind rfl fun row => ?_
      split
      · trivial
      · exact (getSessionWindows_only.mono hplain).bind fun _ => trivial
    · refine ((roleClaims_only clientId ac session).mono hplain).bind fun outcome => ?_
      split
      · trivial
      · exact (mintTokens_only clientId ac _).mono hplain

/-- A command on other keys keeps every phase but the one between lookup and
deletion. -/
theorem redeem_steady {g : RedeemPhase} (hg : ∀ ac, g ≠ .found ac) {c : Command}
    (h : c.touchesKey (.code code) = false) :
    (redeemProtocol code).ok g c ∧ ∀ r, (redeemProtocol code).next g c r = g := by
  have hwrites := Command.writesKey_of_not_touches h
  cases g with
  | found ac => exact absurd rfl (hg ac)
  | before =>
    refine ⟨hwrites, fun r => ?_⟩
    cases c with
    | get k =>
      cases k with
      | code c =>
        have hne : c ≠ code := fun heq => of_decide_eq_false h (congrArg Key.code heq)
        simp [redeemProtocol, hne]
      | _ => rfl
    | _ => rfl
  | redeemed => exact ⟨hwrites, fun r => rfl⟩
  | ended => exact ⟨hwrites, fun r => rfl⟩

/-- What looking the code up leads to. -/
theorem redeem_lookup (r : Option (Option AuthCode)) :
    (redeemProtocol code).next .before (.get (.code code)) r = RedeemPhase.lookup r := if_pos rfl

theorem redeem_deletion (ac : AuthCode) (r : Option Unit) :
    (redeemProtocol code).next (.found ac) (.del [.code code]) r = RedeemPhase.deletion r :=
  if_pos rfl

theorem redeemPost_failed {g : RedeemPhase} (hg : ∀ ac, g ≠ .found ac) (r : Refusal) :
    redeemPost code b g (some (.failed r)) := ⟨hg, fun _ _ h => by cases h⟩

theorem redeemPost_thrown {g : RedeemPhase} (hg : ∀ ac, g ≠ .found ac) :
    redeemPost code b g none := ⟨hg, fun _ _ h => by cases h⟩

/-- Minting is allowed past the redemption, and to requests with another code. -/
theorem issueTokens_obeys (clientId : ClientId) (ac : AuthCode) {g : RedeemPhase}
    (hg : ∀ ac, g ≠ .found ac) (htokens : b.code.getD [] = code → g = .redeemed) :
    (redeemProtocol code).Obeys (redeemPost code b) g (issueTokens P b clientId ac) :=
  Protocol.Obeys.of_only (issueTokens_only clientId ac (.code code))
    (fun _ hc => redeem_steady hg hc) fun _ => ⟨hg, fun _ _ _ => htokens⟩

/-- A token request redeems the code it presents in the order of `consumeCode`. -/
theorem postToken_obeys :
    (redeemProtocol code).Obeys (redeemPost code b) .before (postToken P b) := by
  have hbefore : ∀ ac, RedeemPhase.before ≠ .found ac := fun _ h => by cases h
  have hover : ∀ ac, RedeemPhase.ended ≠ .found ac := fun _ h => by cases h
  have hredeemed : ∀ ac, RedeemPhase.redeemed ≠ .found ac := fun _ h => by cases h
  unfold postToken
  split_ifs
  · exact redeemPost_failed hbefore _
  refine Protocol.Obeys.only_bind authenticateClient_only
    (fun c hc => redeem_steady hbefore (Command.touchesKey_of_plain hc _))
    (redeemPost_thrown hbefore) fun client => ?_
  split
  · exact redeemPost_failed hbefore _
  rename_i clientId
  rw [Protocol.obeys_bind]
  unfold consumeCode
  by_cases hcode : b.code.getD [] = code
  · -- the lookup finds the code and its deletion follows at once
    subst hcode
    refine Protocol.obeys_await_bind.mpr ⟨rfl, ?_, fun found => ?_⟩
    · rw [redeem_lookup]
      exact redeemPost_thrown hover
    · rw [redeem_lookup]
      cases found with
      | none => exact redeemPost_failed hover _
      | some ac =>
        refine Protocol.obeys_await_bind.mpr ⟨rfl, ?_, fun _ => ?_⟩
        · rw [RedeemPhase.lookup, redeem_deletion]
          exact redeemPost_thrown hover
        · rw [RedeemPhase.lookup, redeem_deletion]
          exact issueTokens_obeys clientId ac hredeemed fun _ => rfl
  · -- another code: the request stays before the redemption of this one
    have hother : (Command.get (.code (b.code.getD []))).touchesKey (.code code) = false :=
      decide_eq_false fun h => hcode (Key.code.inj h)
    have hdel : (Command.del [.code (b.code.getD [])]).touchesKey (.code code) = false :=
      decide_eq_false fun h => hcode (Key.code.inj (List.mem_singleton.mp h)).symm
    have hget := redeem_steady hbefore hother
    refine Protocol.obeys_await_bind.mpr ⟨hget.1, ?_, fun found => ?_⟩
    · rw [hget.2]
      exact redeemPost_thrown hbefore
    · rw [hget.2]
      cases found with
      | none => exact redeemPost_failed hbefore _
      | some ac =>
        have hdeleted := redeem_steady hbefore hdel
        refine Protocol.obeys_await_bind.mpr ⟨hdeleted.1, redeemPost_thrown hbefore, fun _ => ?_⟩
        exact issueTokens_obeys clientId ac hbefore fun h => absurd h hcode

end Program

section Runs

variable {ι : Type} {P : Primitives} {code : JsString} {s s' : Sso}
  {log : List (Entry ι Command Command.Reply)}

def Unredeemed (code : JsString) (log : List (Entry ι Command Command.Reply)) : Prop :=
  ∀ e ∈ log, ¬ isRedemption code e

/-- Nobody has redeemed the code, or one request has and the code is gone. -/
def RedeemedOnce (code : JsString) (s : Sso) (log : List (Entry ι Command Command.Reply)) : Prop :=
  Unredeemed code log ∨
    s.redis (.code code) = none ∧ ∃ i, ∀ e ∈ log, isRedemption code e → e.who = i

theorem Unredeemed.append (h : Unredeemed code log) {e : Entry ι Command Command.Reply}
    (he : ¬ isRedemption code e) : Unredeemed code (log ++ [e]) := by
  intro e' he'
  rcases List.mem_append.mp he' with hold | hnew
  · exact h e' hold
  · rw [List.mem_singleton.mp hnew]
    exact he

theorem RedeemedOnce.append (h : RedeemedOnce code s log)
    (hkey : s'.redis (.code code) = s.redis (.code code)) {e : Entry ι Command Command.Reply}
    (he : ¬ isRedemption code e) : RedeemedOnce code s' (log ++ [e]) := by
  rcases h with hnone | ⟨hgone, i, honly⟩
  · exact .inl (hnone.append he)
  · refine .inr ⟨hkey.trans hgone, i, fun e' he' hr => ?_⟩
    rcases List.mem_append.mp he' with hold | hnew
    · exact honly e' hold hr
    · rw [List.mem_singleton.mp hnew] at hr
      exact absurd hr he

/-- A command that cannot change the code does not redeem it. -/
theorem not_redemption {i : ι} {c : Command} {r : Option c.Reply}
    (h : c.writesKey (.code code) = false) : ¬ isRedemption code (⟨i, c, r⟩ : Entry ι _ _) := by
  rintro ⟨hc, -⟩
  have hdel : c = .del [.code code] := hc
  rw [hdel] at h
  exact of_decide_eq_false h (List.mem_singleton_self _)

/-- A request that finds the code finds it unredeemed. -/
theorem RedeemedOnce.found (h : RedeemedOnce code s log) {ac : AuthCode}
    (hget : ExpiringStore.get s.redis s.clock (.code code) = some ac) : Unredeemed code log := by
  rcases h with hnone | ⟨hgone, -⟩
  · exact hnone
  · rw [ExpiringStore.get_of_none hgone] at hget
    cases hget

/-- What is known while a request is in a phase past its lookup. -/
def redeemHeld (code : JsString) (g : RedeemPhase) (s : Sso)
    (log : List (Entry ι Command Command.Reply)) : Prop :=
  match g with
  | .found _ => Unredeemed code log
  | _ => RedeemedOnce code s log

theorem redeemHeld_of {g : RedeemPhase} (hg : ∀ ac, g ≠ .found ac)
    (h : RedeemedOnce code s log) : redeemHeld code g s log := by
  cases g with
  | found ac => exact absurd rfl (hg ac)
  | _ => exact h

theorem redeemHeld.once {g : RedeemPhase} (h : redeemHeld code g s log) :
    RedeemedOnce code s log := by
  cases g with
  | found ac => exact .inl h
  | _ => exact h

theorem redeem_ok {g : RedeemPhase} {c : Command} (hg : ∀ ac, g ≠ .found ac)
    (hok : (redeemProtocol code).ok g c) : c.writesKey (.code code) = false := by
  cases g with
  | found ac => exact absurd rfl (hg ac)
  | _ => exact hok

/-- Only the lookup of the code leaves the first phase. -/
theorem redeem_enters {c : Command} {r : Option c.Reply}
    (h : (redeemProtocol code).next .before c r ≠ .before) : c = .get (.code code) := by
  cases c with
  | get k =>
    cases k with
    | code c =>
      by_cases heq : c = code
      · rw [heq]
      · exact absurd (if_neg heq) h
    | _ => exact absurd rfl h
  | _ => exact absurd rfl h

theorem redeem_settled {g : RedeemPhase} (hholding : g ≠ .before) (hg : ∀ ac, g ≠ .found ac)
    {c : Command} {r : Option c.Reply} : (redeemProtocol code).next g c r = g := by
  cases g with
  | before => exact absurd rfl hholding
  | found ac => exact absurd rfl (hg ac)
  | redeemed => rfl
  | ended => rfl

/-- The lookup, whatever becomes of it. -/
theorem lookup_held (i : ι) (w : Interleaving.Outcome × Outside) (h : RedeemedOnce code s log) :
    redeemHeld code
      ((redeemProtocol code).next .before (.get (.code code))
        ((ssoServer P).faulty.perform w (.get (.code code)) s).1)
      ((ssoServer P).faulty.perform w (.get (.code code)) s).2
      (log ++ [⟨i, .get (.code code), ((ssoServer P).faulty.perform w (.get (.code code)) s).1⟩]) := by
  rw [redeem_lookup]
  have hmiss : ¬ isRedemption code
      (⟨i, .get (.code code), ((ssoServer P).faulty.perform w (.get (.code code)) s).1⟩ :
        Entry ι Command Command.Reply) := not_redemption rfl
  have honce := h.append (Sso.faulty_redis (P := P) w (c := .get (.code code)) rfl) hmiss
  obtain ⟨outcome, out⟩ := w
  cases outcome with
  | refused => exact honce
  | lost => exact honce
  | answered =>
    cases hget : ExpiringStore.get s.redis s.clock (.code code) with
    | none =>
      have hreply : ((ssoServer P).faulty.perform (.answered, out) (.get (.code code)) s).1 =
          some none := congrArg some hget
      rw [hreply] at honce ⊢
      exact honce
    | some ac =>
      have hreply : ((ssoServer P).faulty.perform (.answered, out) (.get (.code code)) s).1 =
          some (some ac) := congrArg some hget
      rw [hreply] at hmiss ⊢
      exact (h.found hget).append hmiss

/-- The deletion that follows it. -/
theorem deletion_held (i : ι) (w : Interleaving.Outcome × Outside) (ac : AuthCode)
    (h : Unredeemed code log) :
    redeemHeld code
      ((redeemProtocol code).next (.found ac) (.del [.code code])
        ((ssoServer P).faulty.perform w (.del [.code code]) s).1)
      ((ssoServer P).faulty.perform w (.del [.code code]) s).2
      (log ++ [⟨i, .del [.code code], ((ssoServer P).faulty.perform w (.del [.code code]) s).1⟩]) := by
  rw [redeem_deletion]
  obtain ⟨outcome, out⟩ := w
  have hfailed : ¬ isRedemption code
      (⟨i, .del [.code code], none⟩ : Entry ι Command Command.Reply) := by
    rintro ⟨-, hreply⟩
    exact absurd hreply Bool.false_ne_true
  cases outcome with
  | refused => exact .inl (h.append hfailed)
  | lost => exact .inl (h.append hfailed)
  | answered =>
    refine .inr ⟨ExpiringStore.del_of_mem _ (List.mem_singleton_self _), i, fun e he hr => ?_⟩
    rcases List.mem_append.mp he with hold | hnew
    · exact absurd hr (h e hold)
    · rw [List.mem_singleton.mp hnew]

variable [DecidableEq ι]

/-- The code under `consumeCode`: nobody has redeemed it while somebody has found
it, and otherwise at most one request has. -/
def redemption (P : Primitives) (code : JsString) (bodies : ι → TokenBody) :
    Discipline (ssoServer P).faulty (fun _ : ι => redeemProtocol code) (fun _ => .before)
      (fun i => redeemPost code (bodies i)) where
  reads c := c = .get (.code code)
  writes _ c := c.writesKey (.code code) = true
  holding g := g ≠ .before
  critical g := ∃ ac, g = .found ac
  admits _ _ := True
  quiet := RedeemedOnce code
  held _ := redeemHeld code
  unread_writes i g c hbefore hok := by
    rw [not_not.mp hbefore] at hok
    rw [redeem_ok (fun _ h => by cases h) hok]
    exact Bool.false_ne_true
  enters i g c r hbefore hok hafter := by
    rw [not_not.mp hbefore] at hafter
    exact redeem_enters hafter
  keeps i g c r hholding hok := by
    cases g with
    | before => exact absurd rfl hholding
    | found ac =>
      have hc : c = .del [.code code] := hok
      subst hc
      rw [redeem_deletion]
      cases r <;> exact fun h => by cases h
    | redeemed => exact hholding
    | ended => exact hholding
  critical_writes i g c hcritical hok := by
    obtain ⟨ac, rfl⟩ := hcritical
    have hc : c = .del [.code code] := hok
    rw [hc]
    exact decide_eq_true (List.mem_singleton_self _)
  critical_post i g a hcritical hpost := by
    obtain ⟨ac, rfl⟩ := hcritical
    exact hpost.1 ac rfl
  release i g s log hholding hcritical hheld := hheld.once
  enter i g c w s log hview hbefore hok hafter hquiet := by
    rw [not_not.mp hbefore] at hok hafter ⊢
    by_cases hc : c = .get (.code code)
    · subst hc
      exact lookup_held i w hquiet
    · exact absurd (redeem_enters hafter) hc
  advance i g c w s log hview hholding hok hadmits hheld := by
    by_cases hfound : ∃ ac, g = .found ac
    · obtain ⟨ac, rfl⟩ := hfound
      have hc : c = .del [.code code] := hok
      subst hc
      exact deletion_held i w ac hheld
    · have hg : ∀ ac, g ≠ .found ac := fun ac h => hfound ⟨ac, h⟩
      have hnot := redeem_ok hg hok
      rw [redeem_settled hholding hg]
      exact redeemHeld_of hg (hheld.once.append (Sso.faulty_redis w hnot) (not_redemption hnot))
  frame_quiet i g c w s log hview hok hwrites hread hquiet := by
    have hnot : c.writesKey (.code code) = false := eq_false_of_ne_true hwrites
    exact hquiet.append (Sso.faulty_redis w hnot) (not_redemption hnot)
  frame_held i j g h c w s log hij hview hok hwrites hread hholding hheld := by
    have hnot : c.writesKey (.code code) = false := eq_false_of_ne_true hwrites
    cases h with
    | found ac => exact Unredeemed.append hheld (not_redemption hnot)
    | _ => exact RedeemedOnce.append hheld (Sso.faulty_redis w hnot) (not_redemption hnot)
  drift_quiet e s s' log hdrift hquiet := by
    rw [RedeemedOnce, Sso.drift_redis hdrift]
    exact hquiet
  drift_held i g e s s' log hdrift hholding hheld := by
    cases g with
    | found ac => exact hheld
    | _ =>
      show RedeemedOnce code s' log
      rw [RedeemedOnce, Sso.drift_redis hdrift]
      exact hheld

/-- The last phase but one is reached by the request's own deletion. -/
theorem redeemed_of_view {i : ι} (h : (redeemProtocol code).view .before i log = .redeemed) :
    Redeemed code log i := by
  obtain ⟨e, he, hwho, g, hbefore, hafter⟩ :=
    @Protocol.view_entered _ _ _ _ _ (redeemProtocol code) (fun g => g = .redeemed) _
      (fun h => by cases h) i log h
  refine ⟨e, he, hwho, ?_⟩
  obtain ⟨who, c, r⟩ := e
  cases g with
  | before =>
    by_cases hc : c = .get (.code code)
    · subst hc
      rw [redeem_lookup] at hafter
      rcases r with _ | _ | ac <;> cases hafter
    · exact absurd (redeem_enters fun h => by rw [h] at hafter; cases hafter) hc
  | found ac =>
    cases c with
    | del keys =>
      by_cases hkeys : keys = [.code code]
      · subst hkeys
        rw [redeem_deletion] at hafter
        cases r with
        | none => cases hafter
        | some _ => exact ⟨rfl, rfl⟩
      · have hover : (redeemProtocol code).next (.found ac) (.del keys) r = .ended := if_neg hkeys
        rw [hover] at hafter
        cases hafter
    | _ => cases hafter
  | redeemed => exact absurd rfl hbefore
  | ended => cases hafter

/-- Concurrent token requests on a store whose commands may fail. -/
def tokenRuns (P : Primitives) (bodies : ι → TokenBody) :
    System (Config ι Command Command.Reply Sso Response)
      (Move ι (Interleaving.Outcome × Outside) Sso.Drift) :=
  (ssoServer P).faulty.system (fun _ => True) fun i => postToken P (bodies i)

/-- The request presented the code and was given tokens. -/
def Minted (code : JsString) (bodies : ι → TokenBody)
    (cfg : Config ι Command Command.Reply Sso Response) (i : ι) : Prop :=
  (bodies i).code.getD [] = code ∧
    ∃ idToken accessToken, cfg.requests i = .done (.tokens idToken accessToken)

/-- An authorization code is redeemed at most once in every run in which no
request looks it up while another one that has looked it up may still delete it. -/
theorem code_redemption (P : Primitives) (code : JsString) (bodies : ι → TokenBody)
    {start cfg : Config ι Command Command.Reply Sso Response}
    {trace : List (Event (Config ι Command Command.Reply Sso Response)
      (Move ι (Interleaving.Outcome × Outside) Sso.Drift))}
    (hstart : (tokenRuns P bodies).initial start) (hrun : Exec (tokenRuns P bodies) start trace cfg)
    (hguard : ∀ e ∈ trace, Undisturbed (fun c => c = .get (.code code))
      (fun _ c => c.writesKey (.code code) = true) e.before e.label) :
    (∀ i j, Redeemed code cfg.log i → Redeemed code cfg.log j → i = j) ∧
      ∀ i j, Minted code bodies cfg i → Minted code bodies cfg j → i = j := by
  obtain ⟨-, hlog, hprograms⟩ := hstart
  have hserial : (redemption P code bodies).Serial cfg := by
    refine Discipline.Serial.run hrun hguard (fun _ _ => admitted_always _ _)
      (Discipline.serial_start hlog ?_ ?_ ?_)
    · intro i
      rw [hprograms]
      exact postToken_obeys
    · intro i hholding
      exact hholding rfl
    · exact .inl fun e he => absurd he List.not_mem_nil
  have honce : RedeemedOnce code cfg.store cfg.log := by
    rcases hserial.quiet_or_held with hquiet | ⟨i, -, hheld⟩
    · exact hquiet
    · exact redeemHeld.once hheld
  have hredeemed : ∀ i j, Redeemed code cfg.log i → Redeemed code cfg.log j → i = j := by
    rintro i j ⟨e, he, hi, hr⟩ ⟨e', he', hj, hr'⟩
    rcases honce with hnone | ⟨-, who, honly⟩
    · exact absurd hr (hnone e he)
    · rw [← hi, ← hj, honly e he hr, honly e' he' hr']
  refine ⟨hredeemed, fun i j hi hj => ?_⟩
  have hminted : ∀ i, Minted code bodies cfg i → Redeemed code cfg.log i := by
    rintro i ⟨hcode, idToken, accessToken, hdone⟩
    have hobeys := hserial.obeys i
    rw [hdone] at hobeys
    have hview := hobeys.2 idToken accessToken rfl hcode
    exact redeemed_of_view hview
  exact hredeemed i j (hminted i hi) (hminted j hj)

end Runs

section Interleaved

/-- The program has returned tokens. -/
def returnsTokens : Handler Response → Bool
  | .done (.tokens _ _) => true
  | _ => false

theorem exists_tokens {p : Handler Response} (h : returnsTokens p = true) :
    ∃ idToken accessToken, p = .done (.tokens idToken accessToken) := by
  unfold returnsTokens at h
  split at h
  · exact ⟨_, _, rfl⟩
  · cases h

/-- Both requests present the one code. -/
def twoRequests : Config Bool Command Command.Reply Sso Response :=
  ⟨oneCodeSso, [], fun _ => postToken plainPrimitives oneCodeBody⟩

def tokenSteps (schedule : List Bool) : List (Move Bool (Interleaving.Outcome × Outside) Sso.Drift) :=
  schedule.map fun i => .act i (.answered, agreeable)

/-- One request runs to its end, then the other looks the code up. -/
theorem code_redemption_oneAfterAnother :
    ∃ start trace cfg, (tokenRuns plainPrimitives fun _ : Bool => oneCodeBody).initial start ∧
      Exec (tokenRuns plainPrimitives fun _ : Bool => oneCodeBody) start trace cfg ∧
      Minted (js "code") (fun _ => oneCodeBody) cfg false ∧
      ¬ Minted (js "code") (fun _ => oneCodeBody) cfg true := by
  have hrun : (((tokenSteps (List.replicate 11 false ++ List.replicate 4 true)).foldlM
      (ssoServer plainPrimitives).faulty.stepAlone twoRequests).any
      fun cfg => returnsTokens (cfg.requests false)) = true := by
    decide +kernel
  obtain ⟨cfg, hcfg, hfirst⟩ := (Option.any_eq_true ..).mp hrun
  obtain ⟨trace, hexec, hguard⟩ := Server.exec_of_moves_alone hcfg (fun _ => True)
    (fun _ => postToken plainPrimitives oneCodeBody) (fun c => c = .get (.code (js "code")))
    (fun _ c => c.writesKey (.code (js "code")) = true)
  have hinitial : (tokenRuns plainPrimitives fun _ : Bool => oneCodeBody).initial twoRequests :=
    ⟨trivial, rfl, rfl⟩
  have honce := code_redemption plainPrimitives (js "code") _ hinitial hexec hguard
  have hminted : Minted (js "code") (fun _ => oneCodeBody) cfg false :=
    ⟨rfl, exists_tokens hfirst⟩
  refine ⟨twoRequests, trace, cfg, hinitial, hexec, hminted, fun hsecond => ?_⟩
  exact absurd (honce.2 false true hminted hsecond) Bool.false_ne_true

/-- Both requests look the code up before either deletes it, and both mint. -/
theorem code_redeemed_twice :
    ∃ start trace cfg, (tokenRuns plainPrimitives fun _ : Bool => oneCodeBody).initial start ∧
      Exec (tokenRuns plainPrimitives fun _ : Bool => oneCodeBody) start trace cfg ∧
      Minted (js "code") (fun _ => oneCodeBody) cfg false ∧
      Minted (js "code") (fun _ => oneCodeBody) cfg true := by
  have hrun : (((tokenSteps (List.replicate 4 false ++ List.replicate 4 true ++
      List.replicate 7 false ++ List.replicate 7 true)).foldlM
      (ssoServer plainPrimitives).faulty.step twoRequests).any
      fun cfg => returnsTokens (cfg.requests false) && returnsTokens (cfg.requests true)) = true := by
    decide +kernel
  obtain ⟨cfg, hcfg, hboth⟩ := (Option.any_eq_true ..).mp hrun
  rw [Bool.and_eq_true] at hboth
  obtain ⟨trace, hexec⟩ := Server.exec_of_moves hcfg (fun _ => True)
    fun _ => postToken plainPrimitives oneCodeBody
  exact ⟨twoRequests, trace, cfg, ⟨trivial, rfl, rfl⟩, hexec, ⟨rfl, exists_tokens hboth.1⟩,
    ⟨rfl, exists_tokens hboth.2⟩⟩

end Interleaved

end DreamSso
