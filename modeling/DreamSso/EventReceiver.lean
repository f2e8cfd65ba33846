import DreamSso.BffSessions
import DreamSso.Library.GuardedRuns

/-!
The event receiver of the account console. Each event of an envelope is marked as
seen, processed, and unmarked again if that fails; an event that is marked is
passed over.
-/
namespace DreamSso.Bff

open Interleaving JsStrings Transitions

-- routes/backchannel.ts

structure Receipt where
  status : ℕ
  error : Option String
  deriving DecidableEq

/-- The SSO session that a logout event names. -/
def RawEvent.logoutSid (e : RawEvent) : Option JsString :=
  if e.type = js "logout" then e.sid else none

/-- Events of other types are acknowledged. -/
def processEvent (e : RawEvent) : Handler Unit :=
  match e.logoutSid with
  | none => pure ()
  | some sid => do
      let _ ← revokeBySsoSid sid
      pure ()

def processEvents : List RawEvent → Handler Receipt
  | [] => pure ⟨204, none⟩
  | e :: rest =>
    match e.id.filter fun id => decide (id ≠ []) with
    | none => pure ⟨400, some "invalid_event_id"⟩
    | some id => do
        let fresh : Option ℕ ← await (.setSeen id)
        if fresh = none then processEvents rest
        else do
          let processed ← (processEvent e).attempt
          if processed = some () then processEvents rest
          else do
            let _ ← (await (.del [.seen id])).attempt
            pure ⟨500, some "processing_failed"⟩

/-- `POST /backchannel/events`; an `event_token` that is no text is missing. -/
def receive (P : Primitives) (eventToken : Option JsString) : Handler Receipt :=
  match eventToken with
  | none => pure ⟨400, some "missing_event_token"⟩
  | some token => do
      let verified : Option Bool ← (await (.jwtVerify token)).attempt
      if verified = some true then
        let events := (P.signedEvents token).getD []
        if events = [] ∨ 100 < events.length then pure ⟨400, some "invalid_events"⟩
        else processEvents events
      else pure ⟨401, some "invalid_token"⟩

/-- Where a request stands with the events it has still to process: its marker for
the first of them has been set, its revocation has read the index, deleted the
sessions, or failed. -/
inductive ReceivePhase
  | verifying
  | ready (rest : List RawEvent)
  | marked (mark : ℕ) (e : RawEvent) (rest : List RawEvent)
  | read (mark : ℕ) (e : RawEvent) (sids : List JsString) (rest : List RawEvent)
  | cleared (mark : ℕ) (e : RawEvent) (rest : List RawEvent)
  | failed (mark : ℕ) (e : RawEvent)
  | ended
  deriving DecidableEq

namespace ReceivePhase

/-- The marker of an event whose revocation the request has not completed, nor
unmarked the event since. -/
def holding : ReceivePhase → Option (ℕ × RawEvent)
  | marked mark e _ => some (mark, e)
  | read mark e _ _ => some (mark, e)
  | cleared mark e _ => some (mark, e)
  | failed mark e => some (mark, e)
  | _ => none

/-- The events left to process. -/
def left : ReceivePhase → Option (List RawEvent)
  | ready rest => some rest
  | marked _ e rest => some (e :: rest)
  | read _ e _ rest => some (e :: rest)
  | cleared _ e rest => some (e :: rest)
  | _ => none

def afterMark (mark : ℕ) (e : RawEvent) (rest : List RawEvent) : ReceivePhase :=
  if e.logoutSid = none then ready rest else marked mark e rest

def afterRead (mark : ℕ) (e : RawEvent) (sids : List JsString) (rest : List RawEvent) :
    ReceivePhase :=
  if sids = [] then cleared mark e rest else read mark e sids rest

theorem afterMark_revoking {mark : ℕ} {e : RawEvent} {rest : List RawEvent}
    (h : e.logoutSid ≠ none) : afterMark mark e rest = marked mark e rest := if_neg h

theorem afterMark_idle {mark : ℕ} {e : RawEvent} {rest : List RawEvent}
    (h : e.logoutSid = none) : afterMark mark e rest = ready rest := if_pos h

@[simp] theorem afterRead_holding (mark : ℕ) (e : RawEvent) (sids : List JsString)
    (rest : List RawEvent) : (afterRead mark e sids rest).holding = some (mark, e) := by
  unfold afterRead
  split_ifs <;> rfl

@[simp] theorem afterRead_left (mark : ℕ) (e : RawEvent) (sids : List JsString)
    (rest : List RawEvent) : (afterRead mark e sids rest).left = some (e :: rest) := by
  unfold afterRead
  split_ifs <;> rfl

end ReceivePhase

/-- The events of an envelope. -/
def envelope (P : Primitives) (eventToken : Option JsString) : List RawEvent :=
  (eventToken.bind P.signedEvents).getD []

def receiveProtocol (P : Primitives) (eventToken : Option JsString) :
    Protocol Command Command.Reply ReceivePhase where
  next
    | .verifying, .jwtVerify _, some true => .ready (envelope P eventToken)
    | .ready (e :: rest), .setSeen _, some (some mark) => .afterMark mark e rest
    | .ready (_ :: rest), .setSeen _, some none => .ready rest
    | .marked mark e rest, .smembers _, some sids => .afterRead mark e sids rest
    | .marked mark e _, .smembers _, none => .failed mark e
    | .read mark e _ rest, .del _, some _ => .cleared mark e rest
    | .read mark e _ _, .del _, none => .failed mark e
    | .cleared _ _ rest, .del _, some _ => .ready rest
    | .cleared mark e _, .del _, none => .failed mark e
    | .failed mark e, .del _, none => .failed mark e
    | _, _, _ => .ended
  ok
    | .verifying, .jwtVerify token => eventToken = some token
    | .ready (e :: _), .setSeen id => e.id = some id
    | .marked _ e _, .smembers ssoSid => e.logoutSid = some ssoSid
    | .read _ _ sids _, .del keys => keys = sids.map .session
    | .cleared _ e _, .del keys => ∃ ssoSid, e.logoutSid = some ssoSid ∧ keys = [.ssoSid ssoSid]
    | .failed _ e, .del keys => ∃ id, e.id = some id ∧ keys = [.seen id]
    | _, _ => False

/-- A request that answers 204 has no event left. -/
def AllProcessed (g : ReceivePhase) (answer : Option Receipt) : Prop :=
  ∀ receipt, answer = some receipt → receipt.status = 204 → g = .ready []

section Program

variable {P : Primitives} {eventToken : Option JsString}

theorem allProcessed_refused {g : ReceivePhase} {status : ℕ} {error : Option String}
    (h : status ≠ 204) : AllProcessed g (some ⟨status, error⟩) := by
  intro receipt heq hstatus
  cases heq
  exact absurd hstatus h

theorem allProcessed_thrown {g : ReceivePhase} : AllProcessed g none := by
  intro receipt heq
  cases heq

/-- The revocation of a marked event ends with the event processed or failed. -/
theorem revokeBySsoSid_receives {mark : ℕ} {e : RawEvent} {rest : List RawEvent}
    {ssoSid : JsString} (he : e.logoutSid = some ssoSid) :
    (receiveProtocol P eventToken).Obeys
      (fun g count => g = if count = none then .failed mark e else .ready rest)
      (.marked mark e rest) (revokeBySsoSid ssoSid) := by
  refine Protocol.obeys_await_bind.mpr ⟨he, rfl, fun sids => ?_⟩
  change List JsString at sids
  show (receiveProtocol P eventToken).Obeys _ (.afterRead mark e sids rest) _
  by_cases hempty : sids = []
  · rw [if_neg (not_not.mpr hempty), ReceivePhase.afterRead, if_pos hempty]
    exact Protocol.obeys_await_bind.mpr ⟨⟨ssoSid, he, rfl⟩, rfl, fun _ => rfl⟩
  · rw [if_pos hempty, ReceivePhase.afterRead, if_neg hempty]
    refine Protocol.obeys_await_bind.mpr ⟨rfl, rfl, fun _ => ?_⟩
    exact Protocol.obeys_await_bind.mpr ⟨⟨ssoSid, he, rfl⟩, rfl, fun _ => rfl⟩

theorem processEvent_receives (mark : ℕ) (e : RawEvent) (rest : List RawEvent) :
    (receiveProtocol P eventToken).Obeys
      (fun g done => g = if done = none then .failed mark e else .ready rest)
      (.afterMark mark e rest) (processEvent e) := by
  unfold processEvent
  cases hsid : e.logoutSid with
  | none => exact ReceivePhase.afterMark_idle hsid
  | some ssoSid =>
    have hrevoking : e.logoutSid ≠ none := by
      rw [hsid]
      exact Option.some_ne_none _
    rw [ReceivePhase.afterMark_revoking hrevoking]
    refine Protocol.obeys_bind.mpr ((revokeBySsoSid_receives hsid).mono ?_)
    intro g count hg
    cases count with
    | none => exact hg
    | some count => exact hg

theorem processEvents_receives (events : List RawEvent) :
    (receiveProtocol P eventToken).Obeys AllProcessed (.ready events) (processEvents events) := by
  induction events with
  | nil => exact fun _ _ _ => rfl
  | cons e rest ih =>
    unfold processEvents
    cases hid : e.id.filter fun id => decide (id ≠ []) with
    | none => exact allProcessed_refused (by decide)
    | some id =>
      obtain ⟨hid, -⟩ := Option.filter_eq_some_iff.mp hid
      refine Protocol.obeys_await_bind.mpr ⟨hid, allProcessed_thrown, fun fresh => ?_⟩
      change Option ℕ at fresh
      cases fresh with
      | none => exact ih
      | some mark =>
        rw [if_neg (Option.some_ne_none mark)]
        show (receiveProtocol P eventToken).Obeys _ (.afterMark mark e rest) _
        refine Protocol.obeys_bind.mpr (Protocol.obeys_attempt.mpr
          ((processEvent_receives mark e rest).mono ?_))
        intro g done hg
        subst hg
        cases done with
        | some done => exact ih
        | none =>
          refine Protocol.obeys_attempt_bind.mpr ⟨⟨id, hid, rfl⟩, fun _ => ?_⟩
          exact allProcessed_refused (by decide)

theorem receive_obeys (eventToken : Option JsString) : (receiveProtocol P eventToken).Obeys
    AllProcessed .verifying (receive P eventToken) := by
  cases eventToken with
  | none => exact allProcessed_refused (by decide)
  | some token =>
    refine Protocol.obeys_attempt_bind.mpr ⟨rfl, fun verified => ?_⟩
    change Option Bool at verified
    by_cases hverified : verified = some true
    · subst hverified
      rw [if_pos rfl]
      show (receiveProtocol P (some token)).Obeys _ (.ready ((P.signedEvents token).getD [])) _
      dsimp only
      split_ifs
      · exact allProcessed_refused (by decide)
      · exact processEvents_receives _
    · rw [if_neg hverified]
      exact allProcessed_refused (by decide)

end Program

end DreamSso.Bff
