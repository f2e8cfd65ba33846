import DreamSso.LinkCalls
import DreamSso.Library.GuardedRuns

/-!
What links that are read, stored and deleted by calls in any order have in common:
every token was drawn once, records of one token are of one link, and a reserved
address belongs to a link whose record is stored as long or to one that a call is
about to unreserve.
-/
namespace DreamSso.Links

open Interleaving JsStrings

/-- The link without when it was last sent. -/
def EmailChange.link (change : EmailChange) : EmailChange :=
  { change with lastSent := change.createdAt }

theorem EmailChange.token_of_link {change change' : EmailChange}
    (h : change.link = change'.link) : change.token = change'.token := by
  have := congrArg EmailChange.token h
  exact this

def PendingRegistration.link (pending : PendingRegistration) : PendingRegistration :=
  { pending with lastSent := pending.createdAt }

/-- A record is written again only while it is still stored, and an address is
reserved in the moment in which the record of its link was stored. -/
def Undisturbed (s : LinkDb) : Command → Prop
  | .setKeepTtl (.pending email) v =>
      (s.get (.pending email)).map PendingRegistration.link = some (PendingRegistration.link v)
  | .setKeepTtl (.tok hash) v =>
      (s.get (.tok hash)).map EmailChange.link = some (EmailChange.link v)
  | .set (.addr _) v ttlSeconds =>
      (ExpiringStore.visible? s.redis s.clock (.tok (Reservation.hash v))).map
        ExpiringStore.Stored.deadline = some (some (s.clock + LinkDb.milliseconds ttlSeconds))
  | _ => True

/-- The token of the link that a command stores. -/
def Command.newToken : Command → Option JsString
  | .set (.pending _) v _ => some (PendingRegistration.token v)
  | .set (.tok _) v _ => some (EmailChange.token v)
  | _ => none

def Command.newChange : Command → Option EmailChange
  | .set (.tok _) v _ => some v
  | _ => none

namespace LinkStep

variable {P : Primitives} {s s' : LinkDb} {g g' : LinkPhase} {c : Command}

theorem newToken_of_onlyReads (h : c.onlyReads = true) : c.newToken = none := by
  cases c <;> first | rfl | cases h

theorem draws_le (h : LinkStep P s g c s' g') : s.draws ≤ s'.draws := by
  cases h with
  | draw _ size encoding _ hrest htoken => exact Nat.le_succ _
  | _ => exact le_refl _

theorem afterDrop_token (now : Option ℤ) (change : EmailChange) :
    (LinkPhase.afterDrop now change).token = none := by
  unfold LinkPhase.afterDrop
  split_ifs <;> rfl

theorem afterPointer_token (change : EmailChange) :
    (LinkPhase.afterPointer change).token = none := by
  unfold LinkPhase.afterPointer
  split_ifs <;> rfl

/-- A stored token was held before, and is not any more. -/
theorem storing (h : LinkStep P s g c s' g') {t : JsString} (ht : c.newToken = some t) :
    g.token = some t ∧ g'.token = none := by
  cases h with
  | read _ _ _ honly hrest hheld =>
    rw [newToken_of_onlyReads honly] at ht
    cases ht
  | register now email v hcreated =>
    cases ht
    exact ⟨rfl, rfl⟩
  | store now change hcreated =>
    cases ht
    exact ⟨rfl, rfl⟩
  | _ => cases ht

/-- A token in hand was in hand before or has just been drawn. -/
theorem holding (h : LinkStep P s g c s' g') {t : JsString} (ht : g'.token = some t) :
    c.newToken = none ∧ (g.token = some t ∨
      ∃ size encoding, t = P.randomBytes size encoding s.draws ∧ s'.draws = s.draws + 1) := by
  cases h with
  | read _ _ _ honly hrest hheld =>
    refine ⟨newToken_of_onlyReads honly, .inl ?_⟩
    rcases hrest with rfl | ⟨-, hrest, -⟩
    · exact ht
    · rw [hrest.token] at ht
      cases ht
  | draw _ size encoding _ hrest htoken =>
    rw [htoken] at ht
    exact ⟨rfl, .inr ⟨size, encoding, (Option.some.inj ht).symm, rfl⟩⟩
  | drop now cur =>
    rw [afterDrop_token] at ht
    cases ht
  | unpoint change =>
    rw [afterDrop_token] at ht
    cases ht
  | point change =>
    rw [afterPointer_token] at ht
    cases ht
  | _ => cases ht

theorem clock_eq (h : LinkStep P s g c s' g') : s'.clock = s.clock := by
  cases h <;> rfl

/-- What a step does to the record of a change. -/
theorem tok_effect (h : LinkStep P s g c s' g') (hash : JsString) :
    s'.redis (.tok hash) = s.redis (.tok hash) ∨ s'.redis (.tok hash) = none ∨
      (∃ change, hash = P.sha256 change.token ∧ g.token = some change.token ∧
        c = .set (.tok hash) change TOKEN_TTL_SECONDS ∧
          s' = s.set (.tok hash) change TOKEN_TTL_SECONDS) ∨
      ∃ (cur : EmailChange) (now : ℤ), hash = P.sha256 cur.token ∧ g.change = some cur ∧
        c = .setKeepTtl (.tok hash) { cur with lastSent := now } ∧
          s' = s.setKeepTtl (.tok hash) { cur with lastSent := now } := by
  have hset : ∀ (k : Key) (v : k.Value) ttlSeconds, Key.tok hash ≠ k →
      (s.set k v ttlSeconds).redis (.tok hash) = s.redis (.tok hash) :=
    fun k v ttlSeconds hk => LinkDb.set_other hk
  have hdel : ∀ keys, (s.del keys).redis (.tok hash) = s.redis (.tok hash) ∨
      (s.del keys).redis (.tok hash) = none := by
    intro keys
    by_cases hmem : Key.tok hash ∈ keys
    · exact .inr (LinkDb.del_of_mem hmem)
    · exact .inl (LinkDb.del_of_notMem hmem)
  cases h with
  | read _ _ _ honly hrest hheld => exact .inl rfl
  | draw _ size encoding _ hrest htoken => exact .inl rfl
  | register now email v hcreated => exact .inl (hset _ _ _ Key.noConfusion)
  | resendPending now email cur => exact .inl (LinkDb.setKeepTtl_other Key.noConfusion)
  | point change => exact .inl (hset _ _ _ Key.noConfusion)
  | reserve change hkind => exact .inl (hset _ _ _ Key.noConfusion)
  | store now change hcreated =>
    by_cases hk : Key.tok hash = P.tokKey change.token
    · obtain rfl := Key.tok.inj hk
      exact .inr (.inr (.inl ⟨change, rfl, rfl, rfl, rfl⟩))
    · exact .inl (hset _ _ _ hk)
  | resendChange now cur =>
    by_cases hk : Key.tok hash = P.tokKey cur.token
    · obtain rfl := Key.tok.inj hk
      exact .inr (.inr (.inr ⟨cur, now, rfl, rfl, rfl, rfl⟩))
    · exact .inl (LinkDb.setKeepTtl_other hk)
  | dropPending now email => exact (hdel _).imp_right .inl
  | drop now cur => exact (hdel _).imp_right .inl
  | unreserve now change => exact (hdel _).imp_right .inl
  | redeem _ hash' change hrest hget => exact (hdel _).imp_right .inl
  | miss _ hash' hrest hget => exact (hdel _).imp_right .inl
  | unpoint change => exact (hdel _).imp_right .inl

/-- What a step does to the reservation of an address. -/
theorem addr_effect (h : LinkStep P s g c s' g') (email : JsString) :
    s'.redis (.addr email) = s.redis (.addr email) ∨ s'.redis (.addr email) = none ∨
      ∃ change, change.kind = .change ∧ email = P.toLowerCase change.newEmail ∧
        g = .pointed change ∧
        c = .set (.addr email) (⟨change.sub, P.sha256 change.token, change.createdAt⟩ : Reservation)
          TOKEN_TTL_SECONDS ∧
        s' = s.set (.addr email)
          (⟨change.sub, P.sha256 change.token, change.createdAt⟩ : Reservation)
          TOKEN_TTL_SECONDS := by
  have hdel : ∀ keys, (s.del keys).redis (.addr email) = s.redis (.addr email) ∨
      (s.del keys).redis (.addr email) = none := by
    intro keys
    by_cases hmem : Key.addr email ∈ keys
    · exact .inr (LinkDb.del_of_mem hmem)
    · exact .inl (LinkDb.del_of_notMem hmem)
  cases h with
  | read _ _ _ honly hrest hheld => exact .inl rfl
  | draw _ size encoding _ hrest htoken => exact .inl rfl
  | register now email v hcreated => exact .inl (LinkDb.set_other Key.noConfusion)
  | resendPending now email cur => exact .inl (LinkDb.setKeepTtl_other Key.noConfusion)
  | point change => exact .inl (LinkDb.set_other Key.noConfusion)
  | store now change hcreated => exact .inl (LinkDb.set_other Key.noConfusion)
  | resendChange now cur => exact .inl (LinkDb.setKeepTtl_other Key.noConfusion)
  | reserve change hkind =>
    by_cases hk : Key.addr email = P.addrKey change.newEmail
    · obtain rfl := Key.addr.inj hk
      exact .inr (.inr ⟨change, hkind, rfl, rfl, rfl, rfl⟩)
    · exact .inl (LinkDb.set_other hk)
  | dropPending now email => exact (hdel _).imp_right .inl
  | drop now cur => exact (hdel _).imp_right .inl
  | unreserve now change => exact (hdel _).imp_right .inl
  | redeem _ hash' change hrest hget => exact (hdel _).imp_right .inl
  | miss _ hash' hrest hget => exact (hdel _).imp_right .inl
  | unpoint change => exact (hdel _).imp_right .inl

theorem afterDrop_change {now : Option ℤ} {change held : EmailChange}
    (h : (LinkPhase.afterDrop now change).change = some held) : held = change := by
  unfold LinkPhase.afterDrop at h
  split_ifs at h <;> exact (Option.some.inj h).symm

/-- A change in hand was in hand before, has been read or has just been stored. -/
theorem having (h : LinkStep P s g c s' g') {change : EmailChange}
    (hchange : g'.change = some change) : g.change = some change ∨
      (∃ hash, s.get (.tok hash) = some change) ∨ c.newChange = some change := by
  cases h with
  | read _ _ _ honly hrest hheld => exact (hheld change hchange).imp_right .inl
  | draw _ size encoding _ hrest htoken =>
    rw [LinkPhase.change_of_token htoken] at hchange
    cases hchange
  | drop now cur =>
    rw [afterDrop_change hchange]
    exact .inl rfl
  | unpoint change =>
    rw [afterDrop_change hchange]
    exact .inl rfl
  | unreserve now change => exact .inl hchange
  | store now change hcreated => exact .inr (.inr hchange)
  | redeem _ hash change hrest hget =>
    cases hchange
    exact .inr (.inl ⟨hash, hget⟩)
  | point change =>
    unfold LinkPhase.afterPointer at hchange
    split_ifs at hchange
    · exact .inl hchange
    · cases hchange
  | _ => cases hchange

theorem newToken_of_newChange {change : EmailChange} (h : c.newChange = some change) :
    c.newToken = some change.token := by
  cases c with
  | set k v ttlSeconds =>
    cases k with
    | tok hash => exact congrArg (Option.map EmailChange.token) h
    | _ => cases h
  | _ => cases h

/-- A call that is closing a link goes on with it until its address is free. -/
theorem closing (h : LinkStep P s g c s' g') {change : EmailChange}
    (hclosing : g.closing = some change) : g'.closing = some change ∨ change.kind = .confirm ∨
      s'.redis (P.addrKey change.newEmail) = none := by
  have hrest : ¬ g.AtRest := by
    intro hg
    rw [hg.closing] at hclosing
    cases hclosing
  cases h with
  | read _ _ _ honly hsame hheld =>
    rcases hsame with rfl | ⟨hg, -⟩
    · exact .inl hclosing
    · exact absurd hg hrest
  | draw _ size encoding _ hg htoken => exact absurd hg hrest
  | redeem _ hash change hg hget => exact absurd hg hrest
  | miss _ hash hg hget => exact absurd hg hrest
  | unreserve now change =>
    cases hclosing
    exact .inr (.inr (LinkDb.del_of_mem (List.mem_singleton_self _)))
  | unpoint change =>
    cases hclosing
    unfold LinkPhase.afterDrop
    cases hkind : change.kind with
    | change => exact .inl rfl
    | confirm => exact .inr (.inl rfl)
  | _ => cases hclosing

/-- A call that starts closing a link has deleted its record, which it had read or
reads at once. -/
theorem opening (h : LinkStep P s g c s' g') {change : EmailChange}
    (hclosing : g'.closing = some change) : g.closing = some change ∨
      (∃ hash, s.get (.tok hash) = some change ∧ s'.redis (.tok hash) = none) ∨
      g.change = some change ∧ s'.redis (P.tokKey change.token) = none := by
  cases h with
  | read _ _ _ honly hsame hheld =>
    rcases hsame with rfl | ⟨-, hg, -⟩
    · exact .inl hclosing
    · rw [hg.closing] at hclosing
      cases hclosing
  | draw _ size encoding _ hg htoken =>
    rw [LinkPhase.closing_of_token htoken] at hclosing
    cases hclosing
  | redeem _ hash change hg hget =>
    cases hclosing
    exact .inr (.inl ⟨hash, hget, LinkDb.del_of_mem (List.mem_singleton_self _)⟩)
  | drop now cur =>
    unfold LinkPhase.afterDrop at hclosing
    split_ifs at hclosing
    · cases hclosing
      exact .inr (.inr ⟨rfl, LinkDb.del_of_mem (List.mem_cons_self ..)⟩)
    · cases hclosing
  | unpoint change =>
    unfold LinkPhase.afterDrop at hclosing
    split_ifs at hclosing
    · cases hclosing
      exact .inl rfl
    · cases hclosing
  | point change =>
    unfold LinkPhase.afterPointer at hclosing
    split_ifs at hclosing <;> cases hclosing
  | _ => cases hclosing

/-- A call is done with a link when it has freed its address, or has deleted the record
of a confirmation. -/
theorem finishing (h : LinkStep P s g c s' g') {change : EmailChange}
    (hfinished : g'.finished = some change) : g.finished = some change ∨
      (g.closing = some change ∧
        (change.kind = .confirm ∨ s'.redis (P.addrKey change.newEmail) = none)) ∨
      g.change = some change ∧ change.kind = .confirm ∧ s'.redis (P.tokKey change.token) = none := by
  have hdropped : ∀ now (dropped : EmailChange), (LinkPhase.afterDrop now dropped).finished =
      some change → dropped = change ∧ dropped.kind = .confirm := by
    intro now dropped hfinished
    unfold LinkPhase.afterDrop at hfinished
    cases hkind : dropped.kind with
    | change =>
      rw [if_pos hkind] at hfinished
      cases hfinished
    | confirm =>
      rw [hkind, if_neg ChangeKind.noConfusion] at hfinished
      exact ⟨Option.some.inj hfinished, rfl⟩
  cases h with
  | read _ _ _ honly hrest hheld =>
    rcases hrest with rfl | ⟨-, -, hnone⟩
    · exact .inl hfinished
    · rw [hnone] at hfinished
      cases hfinished
  | draw _ size encoding _ hrest htoken =>
    rw [LinkPhase.finished_of_token htoken] at hfinished
    cases hfinished
  | drop now cur =>
    obtain ⟨rfl, hkind⟩ := hdropped now cur hfinished
    exact .inr (.inr ⟨rfl, hkind, LinkDb.del_of_mem (List.mem_cons_self ..)⟩)
  | unreserve now change =>
    cases hfinished
    exact .inr (.inl ⟨rfl, .inr (LinkDb.del_of_mem (List.mem_singleton_self _))⟩)
  | unpoint change =>
    obtain ⟨rfl, hkind⟩ := hdropped none change hfinished
    exact .inr (.inl ⟨rfl, .inl hkind⟩)
  | point change =>
    unfold LinkPhase.afterPointer at hfinished
    split_ifs at hfinished <;> cases hfinished
  | _ => cases hfinished

end LinkStep

section Invariants

variable {ι : Type} {P : Primitives} {tokens : List JsString} {changes : List EmailChange}
  {φ : ι → LinkPhase} {s s' : LinkDb}

/-- No two values drawn have the same hash. -/
def Primitives.Distinct (P : Primitives) : Prop :=
  ∀ size encoding n size' encoding' n', P.sha256 (P.randomBytes size encoding n) =
    P.sha256 (P.randomBytes size' encoding' n') → n = n'

def Primitives.Drawn (P : Primitives) (s : LinkDb) (token : JsString) : Prop :=
  ∃ size encoding n, n < s.draws ∧ token = P.randomBytes size encoding n

theorem Primitives.Drawn.mono {token : JsString} (h : P.Drawn s token) (hle : s.draws ≤ s'.draws) :
    P.Drawn s' token := by
  obtain ⟨size, encoding, n, hn, rfl⟩ := h
  exact ⟨size, encoding, n, hn.trans_le hle, rfl⟩

/-- A value that is drawn next has the hash of none drawn before. -/
theorem Primitives.Drawn.ne_next (hdistinct : P.Distinct) {token : JsString} (h : P.Drawn s token)
    (size : ℕ) (encoding : Encoding) :
    P.sha256 token ≠ P.sha256 (P.randomBytes size encoding s.draws) := by
  obtain ⟨size', encoding', n, hn, rfl⟩ := h
  intro heq
  have := hdistinct _ _ _ _ _ _ heq
  omega

/-- Stored tokens and tokens in hand were drawn, each for one link only. -/
structure Tokens (P : Primitives) (tokens : List JsString) (φ : ι → LinkPhase) (s : LinkDb) :
    Prop where
  drawn : ∀ t ∈ tokens, P.Drawn s t
  held : ∀ i t, (φ i).token = some t → P.Drawn s t ∧ ∀ t' ∈ tokens, P.sha256 t' ≠ P.sha256 t
  apart : ∀ i j t t', (φ i).token = some t → (φ j).token = some t' →
    P.sha256 t = P.sha256 t' → i = j

/-- Records and changes in hand are of links that were stored, each under the hash of
its own token. -/
structure Known (P : Primitives) (tokens : List JsString) (changes : List EmailChange)
    (φ : ι → LinkPhase) (s : LinkDb) : Prop where
  listed : ∀ change ∈ changes, change.token ∈ tokens
  unique : ∀ change ∈ changes, ∀ change' ∈ changes,
    P.sha256 change.token = P.sha256 change'.token → change = change'
  stored : ∀ hash e, s.redis (.tok hash) = some e → hash = P.sha256 (EmailChange.token e.value) ∧
    ∃ change ∈ changes, EmailChange.link e.value = change.link
  known : ∀ i change, (φ i).change = some change →
    ∃ change' ∈ changes, change.link = change'.link

section Known

variable (hk : Known P tokens changes φ s)
include hk

/-- Links of one token are one link. -/
theorem Known.agree {first second : EmailChange}
    (hfirst : ∃ change ∈ changes, first.link = change.link)
    (hsecond : ∃ change ∈ changes, second.link = change.link)
    (heq : P.sha256 first.token = P.sha256 second.token) : first.link = second.link := by
  obtain ⟨change, hmem, hlink⟩ := hfirst
  obtain ⟨change', hmem', hlink'⟩ := hsecond
  rw [EmailChange.token_of_link hlink, EmailChange.token_of_link hlink'] at heq
  rw [hlink, hlink', hk.unique change hmem change' hmem' heq]

/-- What is read under a hash has a token of this hash. -/
theorem Known.read {hash : JsString} {change : EmailChange}
    (h : s.get (.tok hash) = some change) : hash = P.sha256 change.token ∧
      ∃ change' ∈ changes, change.link = change'.link := by
  obtain ⟨e, he, rfl, -⟩ := ExpiringStore.get_eq_some_iff.mp h
  exact hk.stored hash e he

/-- The token in a call's hand is of no link yet. -/
theorem Known.ne_held (ht : Tokens P tokens φ s) {i : ι} {token : JsString}
    (hheld : (φ i).token = some token) {change : EmailChange}
    (hlink : ∃ change' ∈ changes, change.link = change'.link) :
    P.sha256 change.token ≠ P.sha256 token := by
  obtain ⟨change', hmem, hlink⟩ := hlink
  rw [EmailChange.token_of_link hlink]
  exact (ht.held i token hheld).2 _ (hk.listed change' hmem)

/-- A link that was stored and is not any more does not come back. -/
theorem Known.gone_act (ht : Tokens P tokens φ s) {i : ι} {c : Command} {g' : LinkPhase}
    (hstep : LinkStep P s (φ i) c s' g') (hund : Undisturbed s c) {change : EmailChange}
    (hlink : ∃ change' ∈ changes, change.link = change'.link)
    (hgone : s.get (.tok (P.sha256 change.token)) = none) :
    s'.get (.tok (P.sha256 change.token)) = none := by
  have hclock := hstep.clock_eq
  rcases hstep.tok_effect (P.sha256 change.token) with hsame | hnone |
      ⟨new, hhash, hheld, rfl, rfl⟩ | ⟨cur, now, -, -, rfl, rfl⟩
  · rw [LinkDb.get, hclock, ExpiringStore.get_congr hsame]
    exact hgone
  · exact ExpiringStore.get_of_none hnone _
  · exact absurd hhash (hk.ne_held ht hheld hlink)
  · have hstored : (s.get (.tok (P.sha256 change.token))).map EmailChange.link = some _ := hund
    rw [hgone] at hstored
    cases hstored

end Known

variable [DecidableEq ι]

theorem Tokens.act (h : Tokens P tokens φ s) (hdistinct : P.Distinct) {i : ι} {c : Command}
    {g' : LinkPhase} (hstep : LinkStep P s (φ i) c s' g') :
    Tokens P (tokens ++ c.newToken.toList) (Function.update φ i g') s' := by
  have hle := hstep.draws_le
  -- a token in hand after the step, and who has it
  have hin : ∀ j t, (Function.update φ i g' j).token = some t →
      (φ j).token = some t ∧ (j = i → c.newToken = none) ∨ j = i ∧ c.newToken = none ∧
        ∃ size encoding, t = P.randomBytes size encoding s.draws ∧ s'.draws = s.draws + 1 := by
    intro j t ht
    by_cases hj : j = i
    · subst hj
      rw [Function.update_self] at ht
      obtain ⟨hnone, hold | hnew⟩ := hstep.holding ht
      · exact .inl ⟨hold, fun _ => hnone⟩
      · exact .inr ⟨rfl, hnone, hnew⟩
    · rw [Function.update_of_ne hj] at ht
      exact .inl ⟨ht, fun h => absurd h hj⟩
  constructor
  · intro t ht
    rcases List.mem_append.mp ht with ht | ht
    · exact (h.drawn t ht).mono hle
    · obtain ⟨hheld, -⟩ := hstep.storing (Option.mem_toList.mp ht)
      exact (h.held i t hheld).1.mono hle
  · intro j t ht
    rcases hin j t ht with ⟨hold, hnone⟩ | ⟨-, hnone, size, encoding, rfl, hdraws⟩
    · refine ⟨(h.held j t hold).1.mono hle, fun t' ht' => ?_⟩
      rcases List.mem_append.mp ht' with ht' | ht'
      · exact (h.held j t hold).2 t' ht'
      · obtain ⟨hheld, -⟩ := hstep.storing (Option.mem_toList.mp ht')
        intro heq
        obtain rfl := h.apart i j t' t hheld hold heq
        rw [hnone rfl] at ht'
        cases ht'
    · refine ⟨⟨size, encoding, s.draws, by omega, rfl⟩, fun t' ht' => ?_⟩
      rw [hnone, Option.toList_none, List.append_nil] at ht'
      exact (h.drawn t' ht').ne_next hdistinct size encoding
  · intro j k t t' ht ht' heq
    rcases hin j t ht with ⟨hold, -⟩ | ⟨rfl, -, size, encoding, rfl, -⟩
    · rcases hin k t' ht' with ⟨hold', -⟩ | ⟨rfl, -, size, encoding, rfl, -⟩
      · exact h.apart j k t t' hold hold' heq
      · exact absurd heq ((h.held j t hold).1.ne_next hdistinct size encoding)
    · rcases hin k t' ht' with ⟨hold', -⟩ | ⟨rfl, -⟩
      · exact absurd heq.symm ((h.held k t' hold').1.ne_next hdistinct size encoding)
      · rfl

theorem Known.act (hk : Known P tokens changes φ s) (ht : Tokens P tokens φ s) {i : ι} {c : Command} {g' : LinkPhase}
    (hstep : LinkStep P s (φ i) c s' g') :
    Known P (tokens ++ c.newToken.toList) (changes ++ c.newChange.toList)
      (Function.update φ i g') s' := by
  have hnew : ∀ change, c.newChange = some change → (φ i).token = some change.token :=
    fun change h => (hstep.storing (LinkStep.newToken_of_newChange h)).1
  have hmore : ∀ change : EmailChange, (∃ change' ∈ changes, change.link = change'.link) →
      ∃ change' ∈ changes ++ c.newChange.toList, change.link = change'.link := by
    rintro change ⟨change', hmem, hlink⟩
    exact ⟨change', List.mem_append_left _ hmem, hlink⟩
  have hlast : ∀ change, c.newChange = some change →
      ∃ change' ∈ changes ++ c.newChange.toList, change.link = change'.link :=
    fun change h => ⟨change, List.mem_append_right _ (Option.mem_toList.mpr h), rfl⟩
  constructor
  · intro change hmem
    rcases List.mem_append.mp hmem with hmem | hmem
    · exact List.mem_append_left _ (hk.listed change hmem)
    · exact List.mem_append_right _ (Option.mem_toList.mpr
        (LinkStep.newToken_of_newChange (Option.mem_toList.mp hmem)))
  · intro change hmem change' hmem' heq
    rcases List.mem_append.mp hmem with hold | hnew₁
    · rcases List.mem_append.mp hmem' with hold' | hnew₂
      · exact hk.unique change hold change' hold' heq
      · exact absurd heq (hk.ne_held ht (hnew _ (Option.mem_toList.mp hnew₂))
          ⟨change, hold, rfl⟩)
    · rcases List.mem_append.mp hmem' with hold' | hnew₂
      · exact absurd heq.symm (hk.ne_held ht (hnew _ (Option.mem_toList.mp hnew₁))
          ⟨change', hold', rfl⟩)
      · exact Option.some.inj
          ((Option.mem_toList.mp hnew₁).symm.trans (Option.mem_toList.mp hnew₂))
  · intro hash e he
    rcases hstep.tok_effect hash with hsame | hnone | ⟨change, hhash, -, hc, hs⟩ |
        ⟨cur, now, hhash, hcur, -, hs⟩
    · rw [hsame] at he
      exact ⟨(hk.stored hash e he).1, hmore _ (hk.stored hash e he).2⟩
    · rw [hnone] at he
      cases he
    · rw [hs, LinkDb.set_self] at he
      cases he
      exact ⟨hhash, hlast change (by rw [hc]; rfl)⟩
    · rw [hs, LinkDb.setKeepTtl_self] at he
      cases he
      exact ⟨hhash, hmore cur (hk.known i cur hcur)⟩
  · intro j change hchange
    by_cases hj : j = i
    · subst hj
      rw [Function.update_self] at hchange
      rcases hstep.having hchange with hold | ⟨hash, hget⟩ | hnew₁
      · exact hmore change (hk.known j change hold)
      · exact hmore change (hk.read hget).2
      · exact hlast change hnew₁
    · rw [Function.update_of_ne hj] at hchange
      exact hmore change (hk.known j change hchange)

omit [DecidableEq ι] in
/-- The record of a change under way stays, for as long as before, unless the call that
comes next starts closing the link. -/
theorem Known.record_kept (hk : Known P tokens changes φ s) (ht : Tokens P tokens φ s) {i : ι}
    {c : Command} {g' : LinkPhase} (hstep : LinkStep P s (φ i) c s' g') (hund : Undisturbed s c)
    {hash : JsString} {e : ExpiringStore.Stored EmailChange}
    (he : ExpiringStore.visible? s.redis s.clock (.tok hash) = some e)
    (hkind : e.value.kind = .change) :
    (∃ e' : ExpiringStore.Stored EmailChange, s'.redis (.tok hash) = some e' ∧
      e'.deadline = e.deadline ∧ e'.value.link = e.value.link) ∨
    ∃ change, g'.closing = some change ∧ change.link = e.value.link := by
  have hstored : s.redis (.tok hash) = some e := (ExpiringStore.visible?_eq_some_iff.mp he).1
  have hget : s.get (.tok hash) = some e.value := congrArg (Option.map _) he
  have hlink := (hk.stored hash e hstored).2
  have hdel : ∀ keys, Key.tok hash ∉ keys → ∃ e' : ExpiringStore.Stored EmailChange,
      (s.del keys).redis (.tok hash) = some e' ∧ e'.deadline = e.deadline ∧
        e'.value.link = e.value.link :=
    fun keys hmem => ⟨e, (LinkDb.del_of_notMem hmem).trans hstored, rfl, rfl⟩
  have hset : ∀ (k : Key) (v : k.Value) ttlSeconds, Key.tok hash ≠ k →
      ∃ e' : ExpiringStore.Stored EmailChange, (s.set k v ttlSeconds).redis (.tok hash) = some e' ∧
        e'.deadline = e.deadline ∧ e'.value.link = e.value.link :=
    fun k v ttlSeconds hne => ⟨e, (LinkDb.set_other hne).trans hstored, rfl, rfl⟩
  have hkeep : ∀ (k : Key) (v : k.Value), Key.tok hash ≠ k →
      ∃ e' : ExpiringStore.Stored EmailChange, (s.setKeepTtl k v).redis (.tok hash) = some e' ∧
        e'.deadline = e.deadline ∧ e'.value.link = e.value.link :=
    fun k v hne => ⟨e, (LinkDb.setKeepTtl_other hne).trans hstored, rfl, rfl⟩
  generalize hg : φ i = g at hstep
  cases hstep with
  | read _ _ _ honly hrest hheld => exact .inl ⟨e, hstored, rfl, rfl⟩
  | draw _ size encoding _ hrest htoken => exact .inl ⟨e, hstored, rfl, rfl⟩
  | register now email v hcreated => exact .inl (hset _ _ _ Key.noConfusion)
  | resendPending now email cur => exact .inl (hkeep _ _ Key.noConfusion)
  | dropPending now email => exact .inl (hdel _ (by simp))
  | point change => exact .inl (hset _ _ _ Key.noConfusion)
  | reserve change hkind' => exact .inl (hset _ _ _ Key.noConfusion)
  | unreserve now change => exact .inl (hdel _ (by simp [Primitives.addrKey]))
  | unpoint change => exact .inl (hdel _ (by simp))
  | store now change hcreated =>
    refine .inl (hset _ _ _ fun h => ?_)
    have hheld : (φ i).token = some change.token := by rw [hg]; rfl
    refine hk.ne_held ht hheld hlink ?_
    rw [← (hk.stored hash e hstored).1]
    exact Key.tok.inj h
  | resendChange now cur =>
    by_cases hhash : Key.tok hash = P.tokKey cur.token
    · obtain rfl := Key.tok.inj hhash
      refine .inl ⟨⟨{ cur with lastSent := now }, e.deadline⟩, ?_, rfl, ?_⟩
      · show (s.setKeepTtl (.tok (P.sha256 cur.token)) _).redis (.tok (P.sha256 cur.token)) = _
        rw [LinkDb.setKeepTtl_self, he]
        rfl
      · have hsame : (s.get (.tok (P.sha256 cur.token))).map EmailChange.link = some _ := hund
        rw [hget] at hsame
        exact (Option.some.inj hsame).symm
    · exact .inl (hkeep _ _ hhash)
  | drop now cur =>
    by_cases hhash : Key.tok hash = P.tokKey cur.token
    · obtain rfl := Key.tok.inj hhash
      have hcur : (φ i).change = some cur := by rw [hg]; rfl
      have hsame : cur.link = e.value.link :=
        hk.agree (hk.known i cur hcur) hlink (hk.stored _ e hstored).1
      have hchange : cur.kind = .change := (congrArg EmailChange.kind hsame).trans hkind
      refine .inr ⟨cur, ?_, hsame⟩
      rw [LinkPhase.afterDrop, if_pos hchange]
      rfl
    · exact .inl (hdel _ (by simp [hhash]))
  | redeem _ hash' change hrest hread =>
    by_cases hhash : hash = hash'
    · subst hhash
      rw [hget] at hread
      exact .inr ⟨change, rfl, by rw [← Option.some.inj hread]⟩
    · exact .inl (hdel _ (by simp [hhash]))
  | miss _ hash' hrest hread =>
    by_cases hhash : hash = hash'
    · subst hhash
      rw [hget] at hread
      cases hread
    · exact .inl (hdel _ (by simp [hhash]))

/-- An address whose record a call has deleted is not redeemed any more, and each
reserved address is that of a link under way or of one that a call is closing. -/
structure Reserved (P : Primitives) (φ : ι → LinkPhase) (s : LinkDb) : Prop where
  closed : ∀ i change, (φ i).closing = some change →
    s.get (.tok (P.sha256 change.token)) = none
  covered : ∀ email (e : ExpiringStore.Stored Reservation),
    ExpiringStore.visible? s.redis s.clock (.addr email) = some e →
    (∃ t : ExpiringStore.Stored EmailChange, s.redis (.tok e.value.hash) = some t ∧
      t.deadline = e.deadline ∧ t.value.kind = .change ∧ t.value.sub = e.value.sub ∧
        P.toLowerCase t.value.newEmail = email) ∨
    ∃ i change, (φ i).closing = some change ∧ P.sha256 change.token = e.value.hash ∧
      change.kind = .change ∧ P.toLowerCase change.newEmail = email

theorem Reserved.act (hr : Reserved P φ s) (hk : Known P tokens changes φ s)
    (ht : Tokens P tokens φ s) {i : ι} {c : Command} {g' : LinkPhase}
    (hstep : LinkStep P s (φ i) c s' g') (hund : Undisturbed s c) :
    Reserved P (Function.update φ i g') s' := by
  have hclock := hstep.clock_eq
  have hself : Function.update φ i g' i = g' := Function.update_self ..
  constructor
  · intro j change hclosing
    by_cases hj : j = i
    · subst hj
      rw [hself] at hclosing
      rcases hstep.opening hclosing with hold | ⟨hash, hget, hnone⟩ | ⟨-, hnone⟩
      · exact hk.gone_act ht hstep hund (hk.known j change (LinkPhase.change_of_closing hold))
          (hr.closed j change hold)
      · rw [← (hk.read hget).1]
        exact ExpiringStore.get_of_none hnone _
      · exact ExpiringStore.get_of_none hnone _
    · rw [Function.update_of_ne hj] at hclosing
      exact hk.gone_act ht hstep hund (hk.known j change (LinkPhase.change_of_closing hclosing))
        (hr.closed j change hclosing)
  · intro email e he
    rw [hclock] at he
    rcases hstep.addr_effect email with hsame | hnone | ⟨change, hkind, hemail, hphase, hc, hs⟩
    · rw [ExpiringStore.visible?_congr hsame] at he
      rcases hr.covered email e he with ⟨t, ht', hdeadline, hkind, hsub, hemail⟩ |
          ⟨j, change, hclosing, hhash, hkind, hemail⟩
      · have hvisible : ExpiringStore.visible? s.redis s.clock (.tok e.value.hash) = some t := by
          refine ExpiringStore.visible?_eq_some_iff.mpr ⟨ht', ?_⟩
          rw [hdeadline]
          exact (ExpiringStore.visible?_eq_some_iff.mp he).2
        rcases hk.record_kept ht hstep hund hvisible hkind with ⟨t', hstored, hd, hlink⟩ |
            ⟨change, hclosing, hlink⟩
        · refine .inl ⟨t', hstored, hd.trans hdeadline, ?_, ?_, ?_⟩
          · exact (congrArg EmailChange.kind hlink).trans hkind
          · exact (congrArg EmailChange.sub hlink).trans hsub
          · exact (congrArg (fun c => P.toLowerCase c.newEmail) hlink).trans hemail
        · refine .inr ⟨i, change, by rw [hself]; exact hclosing, ?_, ?_, ?_⟩
          · rw [EmailChange.token_of_link hlink]
            exact (hk.stored _ t ht').1.symm
          · exact (congrArg EmailChange.kind hlink).trans hkind
          · exact (congrArg (fun c => P.toLowerCase c.newEmail) hlink).trans hemail
      · by_cases hj : j = i
        · subst hj
          rcases hstep.closing hclosing with hstill | hconfirm | hfree
          · exact .inr ⟨j, change, by rw [hself]; exact hstill, hhash, hkind, hemail⟩
          · rw [hconfirm] at hkind
            cases hkind
          · rw [Primitives.addrKey, hemail, hsame] at hfree
            rw [ExpiringStore.visible?_of_none hfree] at he
            cases he
        · refine .inr ⟨j, change, ?_, hhash, hkind, hemail⟩
          rw [Function.update_of_ne hj]
          exact hclosing
    · rw [ExpiringStore.visible?_of_none hnone] at he
      cases he
    · -- the record was stored in this moment, so it lives as long as the reservation
      have hstored := (ExpiringStore.visible?_eq_some_iff.mp he).1
      rw [hs, LinkDb.set_self] at hstored
      cases hstored
      rw [hc] at hund
      obtain ⟨t, ht', hdeadline⟩ := Option.map_eq_some_iff.mp hund
      have hrecord : s.redis (.tok (P.sha256 change.token)) = some t :=
        (ExpiringStore.visible?_eq_some_iff.mp ht').1
      have hchange : (φ i).change = some change := by rw [hphase]; rfl
      have hlink := hk.agree (hk.stored _ t hrecord).2 (hk.known i change hchange)
        (hk.stored _ t hrecord).1.symm
      refine .inl ⟨t, ?_, hdeadline, ?_, ?_, ?_⟩
      · rw [hs, LinkDb.set_other Key.noConfusion]
        exact hrecord
      · exact (congrArg EmailChange.kind hlink).trans hkind
      · exact (congrArg EmailChange.sub hlink).trans rfl
      · exact (congrArg (fun c => P.toLowerCase c.newEmail) hlink).trans hemail.symm

/-- No call redeems the link of a token any more. -/
def Primitives.ChangeLive (P : Primitives) (s : LinkDb) (token : JsString) : Prop :=
  (s.get (.tok (P.sha256 token))).isSome = true

/-- The link of a token reserves an address. -/
def Primitives.Reserves (P : Primitives) (s : LinkDb) (token : JsString) : Prop :=
  ∃ email v, s.get (.addr email) = some v ∧ Reservation.hash v = P.sha256 token

theorem Primitives.not_changeLive {token : JsString} :
    ¬ P.ChangeLive s token ↔ s.get (.tok (P.sha256 token)) = none := by
  rw [ChangeLive, Bool.not_eq_true, Option.isSome_eq_false_iff, Option.isNone_iff_eq_none]

omit [DecidableEq ι] in
/-- A link that is over and reserves nothing does not reserve anything later. -/
theorem Known.unreserved_act {i : ι} {c : Command} {g' : LinkPhase}
    (hstep : LinkStep P s (φ i) c s' g') (hund : Undisturbed s c) {token : JsString}
    (hover : ¬ P.ChangeLive s token) (hfree : ¬ P.Reserves s token) : ¬ P.Reserves s' token := by
  rintro ⟨email, v, hget, hhash⟩
  have hclock := hstep.clock_eq
  rcases hstep.addr_effect email with hsame | hnone | ⟨change, hkind, hemail, hphase, hc, hs⟩
  · rw [LinkDb.get, hclock, ExpiringStore.get_congr hsame] at hget
    exact hfree ⟨email, v, hget, hhash⟩
  · rw [LinkDb.get, ExpiringStore.get_of_none hnone] at hget
    cases hget
  · obtain ⟨e, he, rfl, -⟩ := ExpiringStore.get_eq_some_iff.mp hget
    rw [hs, LinkDb.set_self] at he
    cases he
    rw [hc] at hund
    obtain ⟨t, ht, -⟩ := Option.map_eq_some_iff.mp hund
    refine hover ?_
    rw [Primitives.ChangeLive, ← hhash]
    exact Option.isSome_iff_exists.mpr ⟨t.value, congrArg (Option.map _) ht⟩

omit [DecidableEq ι] in
/-- A link that is over reserves an address only while a call is closing it. -/
theorem Reserved.closing_of_reserves (hr : Reserved P φ s) {token : JsString}
    (hover : ¬ P.ChangeLive s token) (hreserves : P.Reserves s token) :
    ∃ i change, (φ i).closing = some change ∧ P.sha256 change.token = P.sha256 token ∧
      change.kind = .change ∧
        ∃ v, s.get (P.addrKey change.newEmail) = some v ∧ Reservation.hash v = P.sha256 token := by
  obtain ⟨email, v, hget, hhash⟩ := hreserves
  obtain ⟨e, he, rfl⟩ := Option.map_eq_some_iff.mp hget
  rcases hr.covered email e he with ⟨t, ht, hdeadline, -⟩ |
      ⟨i, change, hclosing, hsame, hkind, rfl⟩
  · refine absurd ?_ hover
    rw [Primitives.ChangeLive, ← hhash]
    refine Option.isSome_iff_exists.mpr ⟨t.value, ExpiringStore.get_eq_some_iff.mpr
      ⟨t, ht, rfl, ?_⟩⟩
    rw [hdeadline]
    exact (ExpiringStore.visible?_eq_some_iff.mp he).2
  · exact ⟨i, change, hclosing, hsame.trans hhash, hkind, e.value, hget, hhash⟩

/-- A change whose keys a call has deleted is over and reserves nothing. -/
def Released (P : Primitives) (φ : ι → LinkPhase) (s : LinkDb) : Prop :=
  ∀ i change, (φ i).finished = some change →
    ¬ P.ChangeLive s change.token ∧ ¬ P.Reserves s change.token

theorem Released.act (hf : Released P φ s) (hr : Reserved P φ s)
    (hk : Known P tokens changes φ s) (ht : Tokens P tokens φ s) {i : ι} {c : Command}
    {g' : LinkPhase} (hstep : LinkStep P s (φ i) c s' g') (hund : Undisturbed s c) :
    Released P (Function.update φ i g') s' := by
  have hr' := hr.act hk ht hstep hund
  have hk' := hk.act ht hstep
  have hkept : ∀ j change, (φ j).finished = some change →
      ¬ P.ChangeLive s' change.token ∧ ¬ P.Reserves s' change.token := by
    intro j change hfinished
    obtain ⟨hover, hfree⟩ := hf j change hfinished
    refine ⟨?_, Known.unreserved_act hstep hund hover hfree⟩
    rw [Primitives.not_changeLive] at hover ⊢
    exact hk.gone_act ht hstep hund (hk.known j change (LinkPhase.change_of_finished hfinished))
      hover
  -- a call closing the same link knows its kind and its address
  have hagree : ∀ change : EmailChange, (∃ change' ∈ changes, change.link = change'.link) →
      ¬ P.ChangeLive s' change.token →
      (change.kind = .confirm ∨ s'.redis (P.addrKey change.newEmail) = none) →
      ¬ P.Reserves s' change.token := by
    intro change hlink hover hend hreserves
    obtain ⟨j, other, hclosing, hsame, hkind, v, hget, -⟩ := hr'.closing_of_reserves hover hreserves
    obtain ⟨change', hmem, hlink⟩ := hlink
    have heq : other.link = change.link :=
      hk'.agree (hk'.known j other (LinkPhase.change_of_closing hclosing))
        ⟨change', List.mem_append_left _ hmem, hlink⟩ hsame
    rcases hend with hconfirm | hfree
    · have := congrArg EmailChange.kind heq
      exact absurd (hkind.symm.trans (this.trans hconfirm)) ChangeKind.noConfusion
    · have hemail : other.newEmail = change.newEmail := (congrArg EmailChange.newEmail heq).trans rfl
      rw [hemail, LinkDb.get, ExpiringStore.get_of_none hfree] at hget
      cases hget
  intro j change hfinished
  by_cases hj : j = i
  · subst hj
    rw [Function.update_self] at hfinished
    rcases hstep.finishing hfinished with hold | ⟨hclosing, hend⟩ | ⟨hcur, hconfirm, hnone⟩
    · exact hkept j change hold
    · have hlink := hk.known j change (LinkPhase.change_of_closing hclosing)
      have hover : ¬ P.ChangeLive s' change.token := by
        rw [Primitives.not_changeLive]
        exact hk.gone_act ht hstep hund hlink (hr.closed j change hclosing)
      exact ⟨hover, hagree change hlink hover hend⟩
    · have hover : ¬ P.ChangeLive s' change.token := by
        rw [Primitives.not_changeLive]
        exact ExpiringStore.get_of_none hnone _
      exact ⟨hover, hagree change (hk.known j change hcur) hover (.inl hconfirm)⟩
  · rw [Function.update_of_ne hj] at hfinished
    exact hkept j change hfinished

/-- The tokens that the commands of a run have stored, and the changes. -/
def storedTokens (log : List (Entry ι Command Command.Reply)) : List JsString :=
  log.flatMap fun e => e.command.newToken.toList

def storedChanges (log : List (Entry ι Command Command.Reply)) : List EmailChange :=
  log.flatMap fun e => e.command.newChange.toList

abbrev linkPhases (P : Primitives) (log : List (Entry ι Command Command.Reply)) :
    ι → LinkPhase := phases (fun _ => linkProtocol P) (fun _ => .idle none) log

structure Consistent (P : Primitives) (log : List (Entry ι Command Command.Reply)) (s : LinkDb) :
    Prop where
  tokens : Tokens P (storedTokens log) (linkPhases P log) s
  known : Known P (storedTokens log) (storedChanges log) (linkPhases P log) s
  reserved : Reserved P (linkPhases P log) s
  released : Released P (linkPhases P log) s

theorem Consistent.initial (hempty : ∀ k, s.redis k = none) :
    Consistent P ([] : List (Entry ι Command Command.Reply)) s := by
  refine ⟨⟨?_, ?_, ?_⟩, ⟨?_, ?_, ?_, ?_⟩, ⟨?_, ?_⟩, ?_⟩
  · intro t ht
    cases ht
  · intro i t ht
    cases ht
  · intro i j t t' ht
    cases ht
  · intro change hchange
    cases hchange
  · intro change hchange
    cases hchange
  · intro hash e he
    rw [hempty] at he
    cases he
  · intro i change hchange
    cases hchange
  · intro i change hchange
    cases hchange
  · intro email e he
    rw [ExpiringStore.visible?_of_none (hempty _)] at he
    cases he
  · intro i change hfinished
    cases hfinished

theorem Consistent.act {log : List (Entry ι Command Command.Reply)} (h : Consistent P log s)
    (hdistinct : P.Distinct) {i : ι} {c : Command} {r : Option c.Reply}
    (hstep : LinkStep P s (linkPhases P log i) c s'
      ((linkProtocol P).next (linkPhases P log i) c r))
    (hund : Undisturbed s c) : Consistent P (log ++ [⟨i, c, r⟩]) s' := by
  have hphases : linkPhases P (log ++ [⟨i, c, r⟩]) = Function.update (linkPhases P log) i
      ((linkProtocol P).next (linkPhases P log i) c r) := phases_append ..
  have htokens : storedTokens (log ++ [⟨i, c, r⟩]) = storedTokens log ++ c.newToken.toList := by
    simp [storedTokens]
  have hchanges : storedChanges (log ++ [⟨i, c, r⟩]) = storedChanges log ++ c.newChange.toList := by
    simp [storedChanges]
  constructor
  · rw [hphases, htokens]
    exact h.tokens.act hdistinct hstep
  · rw [hphases, htokens, hchanges]
    exact h.known.act h.tokens hstep
  · rw [hphases]
    exact h.reserved.act h.known h.tokens hstep hund
  · rw [hphases]
    exact h.released.act h.reserved h.known h.tokens hstep hund

theorem Primitives.ChangeLive.earlier {token : JsString} {now : ℤ} (hle : s.clock ≤ now)
    (h : P.ChangeLive { s with clock := now } token) : P.ChangeLive s token := by
  obtain ⟨change, hget⟩ := Option.isSome_iff_exists.mp h
  exact Option.isSome_iff_exists.mpr ⟨change, ExpiringStore.get_later hle hget⟩

theorem Primitives.Reserves.earlier {token : JsString} {now : ℤ} (hle : s.clock ≤ now)
    (h : P.Reserves { s with clock := now } token) : P.Reserves s token := by
  obtain ⟨email, v, hget, hhash⟩ := h
  exact ⟨email, v, ExpiringStore.get_later hle hget, hhash⟩

/-- The time passes. -/
theorem Consistent.drift {log : List (Entry ι Command Command.Reply)} (h : Consistent P log s) {e : ℕ}
    (hdrift : LinkDb.drift e s = some s') : Consistent P log s' := by
  cases hdrift
  have hle : s.clock ≤ s.clock + e := by omega
  refine ⟨⟨h.tokens.drawn, h.tokens.held, h.tokens.apart⟩,
    ⟨h.known.listed, h.known.unique, h.known.stored, h.known.known⟩, ⟨?_, ?_⟩, ?_⟩
  · intro i change hclosing
    exact ExpiringStore.get_later_none hle (h.reserved.closed i change hclosing)
  · intro email r hr
    exact h.reserved.covered email r (ExpiringStore.visible?_later hle hr)
  · intro i change hfinished
    obtain ⟨hover, hfree⟩ := h.released i change hfinished
    exact ⟨fun h => hover (h.earlier hle), fun h => hfree (h.earlier hle)⟩

end Invariants

end DreamSso.Links
