import DreamSso.EventReceiver
import DreamSso.OrderedDelivery
import Mathlib.Data.Fintype.Basic

/-!
At-least-once effect of logout events. A marker that is found stands for a completed
revocation in every run in which the request that set it is done with the event by
then: a request that answers 204 has then seen every logout event of its envelope
revoked, and so has the SSO for every event it settles as delivered.
-/
namespace DreamSso.Bff

open Interleaving JsStrings JsonValues KeyedTables Transitions

/-- What one command of a request in a phase does, where commands may also fail. -/
inductive ReceiveStep (P : Primitives) (eventToken : Option JsString) (s : BffDb) :
    ReceivePhase → (c : Command) → Option c.Reply → BffDb → ReceivePhase → Prop
  | verify (token : JsString) (r : Option Bool) (g' : ReceivePhase)
      (hg' : g' = .ready (envelope P eventToken) ∨ g' = .ended) :
      ReceiveStep P eventToken s .verifying (.jwtVerify token) r s g'
  | mark (e : RawEvent) (rest : List RawEvent) (id : JsString) (hid : e.id = some id)
      (hfree : ExpiringStore.holds s.redis s.clock (.seen id) = false) :
      ReceiveStep P eventToken s (.ready (e :: rest)) (.setSeen id) (some (some s.marks))
        (s.setSeen id).2 (.afterMark s.marks e rest)
  | pass (e : RawEvent) (rest : List RawEvent) (id : JsString) (mark : ℕ) (hid : e.id = some id)
      (hseen : ExpiringStore.get s.redis s.clock (.seen id) = some mark) :
      ReceiveStep P eventToken s (.ready (e :: rest)) (.setSeen id) (some none) s (.ready rest)
  | unanswered (e : RawEvent) (rest : List RawEvent) (id : JsString) (s' : BffDb)
      (hid : e.id = some id) (hs' : s' = s ∨ s' = (s.setSeen id).2) :
      ReceiveStep P eventToken s (.ready (e :: rest)) (.setSeen id) none s' .ended
  | read (mark : ℕ) (e : RawEvent) (rest : List RawEvent) (ssoSid : JsString)
      (sids : List JsString) :
      ReceiveStep P eventToken s (.marked mark e rest) (.smembers ssoSid) (some sids) s
        (.afterRead mark e sids rest)
  | clear (mark : ℕ) (e : RawEvent) (sids : List JsString) (rest : List RawEvent) :
      ReceiveStep P eventToken s (.read mark e sids rest) (.del (sids.map .session)) (some ())
        (s.del (sids.map .session)) (.cleared mark e rest)
  | complete (mark : ℕ) (e : RawEvent) (rest : List RawEvent) (ssoSid : JsString)
      (hsid : e.logoutSid = some ssoSid) :
      ReceiveStep P eventToken s (.cleared mark e rest) (.del [.ssoSid ssoSid]) (some ())
        (s.del [.ssoSid ssoSid]) (.ready rest)
  | fail (mark : ℕ) (e : RawEvent) (g : ReceivePhase) (c : Command) (s' : BffDb)
      (hholding : g.holding = some (mark, e))
      (hseen : ∀ id, s'.redis (.seen id) = s.redis (.seen id)) (hmarks : s'.marks = s.marks) :
      ReceiveStep P eventToken s g c none s' (.failed mark e)
  | unmark (mark : ℕ) (e : RawEvent) (id : JsString) (hid : e.id = some id) :
      ReceiveStep P eventToken s (.failed mark e) (.del [.seen id]) (some ())
        (s.del [.seen id]) .ended
  | stay (mark : ℕ) (e : RawEvent) (id : JsString) (s' : BffDb) (hid : e.id = some id)
      (hs' : s' = s ∨ s' = s.del [.seen id]) :
      ReceiveStep P eventToken s (.failed mark e) (.del [.seen id]) none s' (.failed mark e)

theorem receive_step {P : Primitives} {eventToken : Option JsString} {s : BffDb}
    {g : ReceivePhase} {c : Command} (w : Interleaving.Outcome × Outside)
    (hok : (receiveProtocol P eventToken).ok g c) :
    ReceiveStep P eventToken s g c ((bffServer P).faulty.perform w c s).1
      ((bffServer P).faulty.perform w c s).2
      ((receiveProtocol P eventToken).next g c ((bffServer P).faulty.perform w c s).1) := by
  obtain ⟨outcome, out⟩ := w
  have hsids : ∀ (sids : List JsString) id, Key.seen id ∉ sids.map Key.session := by
    intro sids id hmem
    obtain ⟨sid, -, hsid⟩ := List.mem_map.mp hmem
    cases hsid
  have hindex : ∀ ssoSid id, Key.seen id ∉ [Key.ssoSid ssoSid] := by
    intro ssoSid id hmem
    cases List.mem_singleton.mp hmem
  cases g with
  | verifying =>
    cases c with
    | jwtVerify token =>
      have hsame : ((bffServer P).faulty.perform (outcome, out) (.jwtVerify token) s).2 = s := by
        cases outcome <;> rfl
      rw [hsame]
      generalize ((bffServer P).faulty.perform (outcome, out) (.jwtVerify token) s).1 = r
      change Option Bool at r
      refine .verify token r _ ?_
      cases r with
      | none => exact .inr rfl
      | some verified =>
        cases verified with
        | true => exact .inl rfl
        | false => exact .inr rfl
    | _ => cases hok
  | ready events =>
    cases events with
    | nil => cases c <;> cases hok
    | cons e rest =>
      cases c with
      | setSeen id =>
        have hid : e.id = some id := hok
        cases outcome with
        | answered =>
          by_cases hholds : ExpiringStore.holds s.redis s.clock (.seen id) = true
          · obtain ⟨mark, hmark⟩ := Option.isSome_iff_exists.mp hholds
            have hanswer : (bffServer P).faulty.perform (.answered, out) (.setSeen id) s =
                (some none, s) := by
              show (some (s.setSeen id).1, (s.setSeen id).2) = _
              rw [BffDb.setSeen, if_pos hholds]
            rw [hanswer]
            exact .pass e rest id mark hid hmark
          · rw [Bool.not_eq_true] at hholds
            have hanswer : (bffServer P).faulty.perform (.answered, out) (.setSeen id) s =
                (some (some s.marks), (s.setSeen id).2) := by
              show (some (s.setSeen id).1, (s.setSeen id).2) = _
              rw [BffDb.setSeen, if_neg (Bool.eq_false_iff.mp hholds)]
            rw [hanswer]
            exact .mark e rest id hid hholds
        | refused => exact .unanswered e rest id s hid (.inl rfl)
        | lost => exact .unanswered e rest id _ hid (.inr rfl)
      | _ => cases hok
  | marked mark e rest =>
    cases c with
    | smembers ssoSid =>
      cases outcome with
      | answered => exact .read mark e rest ssoSid _
      | refused => exact .fail mark e _ _ s rfl (fun _ => rfl) rfl
      | lost => exact .fail mark e _ _ s rfl (fun _ => rfl) rfl
    | _ => cases hok
  | read mark e sids rest =>
    cases c with
    | del keys =>
      obtain rfl : keys = sids.map .session := hok
      cases outcome with
      | answered => exact .clear mark e sids rest
      | refused => exact .fail mark e _ _ s rfl (fun _ => rfl) rfl
      | lost =>
        exact .fail mark e _ _ _ rfl (fun id => BffDb.del_of_notMem (hsids sids id)) rfl
    | _ => cases hok
  | cleared mark e rest =>
    cases c with
    | del keys =>
      obtain ⟨ssoSid, hsid, rfl⟩ := hok
      cases outcome with
      | answered => exact .complete mark e rest ssoSid hsid
      | refused => exact .fail mark e _ _ s rfl (fun _ => rfl) rfl
      | lost =>
        exact .fail mark e _ _ _ rfl (fun id => BffDb.del_of_notMem (hindex ssoSid id)) rfl
    | _ => cases hok
  | failed mark e =>
    cases c with
    | del keys =>
      obtain ⟨id, hid, rfl⟩ := hok
      cases outcome with
      | answered => exact .unmark mark e id hid
      | refused => exact .stay mark e id s hid (.inl rfl)
      | lost => exact .stay mark e id _ hid (.inr rfl)
    | _ => cases hok
  | ended => cases c <;> cases hok

/-- The number of the marker stored for an event id. -/
def markOf (s : BffDb) (id : JsString) : Option ℕ :=
  (s.redis (.seen id)).map ExpiringStore.Stored.value

theorem markOf_congr {s s' : BffDb} {id : JsString}
    (h : s'.redis (.seen id) = s.redis (.seen id)) : markOf s' id = markOf s id := by
  rw [markOf, markOf, h]

theorem markOf_of_none {s : BffDb} {id : JsString} (h : s.redis (.seen id) = none) :
    markOf s id = none := by rw [markOf, h, Option.map_none]

theorem markOf_of_get {s : BffDb} {id : JsString} {mark : ℕ}
    (h : ExpiringStore.get s.redis s.clock (.seen id) = some mark) : markOf s id = some mark := by
  obtain ⟨e, he, hvalue, -⟩ := ExpiringStore.get_eq_some_iff.mp h
  rw [markOf, he, Option.map_some, hvalue]

/-- A marker stays, is removed, or is set with the next number. -/
theorem receive_markers {P : Primitives} {eventToken : Option JsString} {s s' : BffDb}
    {g g' : ReceivePhase} {c : Command} {r : Option c.Reply}
    (hstep : ReceiveStep P eventToken s g c r s' g') (id : JsString) :
    s.marks ≤ s'.marks ∧ (markOf s' id = markOf s id ∨ markOf s' id = none ∨
      markOf s' id = some s.marks ∧ s'.marks = s.marks + 1 ∧ c = .setSeen id) := by
  have hset : ∀ id', s.marks ≤ (s.setSeen id').2.marks ∧
      (markOf (s.setSeen id').2 id = markOf s id ∨ markOf (s.setSeen id').2 id = none ∨
        markOf (s.setSeen id').2 id = some s.marks ∧ (s.setSeen id').2.marks = s.marks + 1 ∧
          Command.setSeen id' = .setSeen id) := by
    intro id'
    by_cases hid : id = id'
    · subst hid
      unfold BffDb.setSeen
      split_ifs
      · exact ⟨le_refl _, .inl rfl⟩
      · refine ⟨Nat.le_succ _, .inr (.inr ⟨?_, rfl, rfl⟩)⟩
        exact congrArg (Option.map ExpiringStore.Stored.value)
          (ExpiringStore.setEx_self s.redis (.seen id) _ _)
    · refine ⟨?_, .inl (markOf_congr (BffDb.setSeen_other fun h => hid (Key.seen.inj h)))⟩
      unfold BffDb.setSeen
      split_ifs
      · exact le_refl _
      · exact Nat.le_succ _
  have hdel : ∀ keys, s.marks ≤ (s.del keys).marks ∧
      (markOf (s.del keys) id = markOf s id ∨ markOf (s.del keys) id = none) := by
    intro keys
    refine ⟨le_refl _, ?_⟩
    by_cases hmem : Key.seen id ∈ keys
    · exact .inr (markOf_of_none (BffDb.del_of_mem hmem))
    · exact .inl (markOf_congr (BffDb.del_of_notMem hmem))
  cases hstep with
  | mark e rest id' hid hfree => exact hset id'
  | unanswered e rest id' _ hid hs' =>
    rcases hs' with rfl | rfl
    · exact ⟨le_refl _, .inl rfl⟩
    · exact hset id'
  | clear mark e sids rest => exact ⟨(hdel _).1, (hdel _).2.imp_right .inl⟩
  | complete mark e rest ssoSid hsid => exact ⟨(hdel _).1, (hdel _).2.imp_right .inl⟩
  | unmark mark e id' hid => exact ⟨(hdel _).1, (hdel _).2.imp_right .inl⟩
  | stay mark e id' _ hid hs' =>
    rcases hs' with rfl | rfl
    · exact ⟨le_refl _, .inl rfl⟩
    · exact ⟨(hdel _).1, (hdel _).2.imp_right .inl⟩
  | fail mark e _ _ _ hholding hseen hmarks => exact ⟨hmarks.ge, .inl (markOf_congr (hseen id))⟩
  | _ => exact ⟨le_refl _, .inl rfl⟩

/-- The marker that a request has been told it has set, with the event it set it for. -/
def marking : ReceivePhase → (c : Command) → Option c.Reply → Option (ℕ × RawEvent)
  | .ready (e :: _), .setSeen _, some (some mark) => some (mark, e)
  | _, _, _ => none

/-- The event whose revocation a request has completed, with its marker. -/
def completion : ReceivePhase → (c : Command) → Option c.Reply → Option (ℕ × RawEvent)
  | .cleared mark e _, .del _, some _ => some (mark, e)
  | _, _, _ => none

theorem receive_marking {P : Primitives} {eventToken : Option JsString} {s s' : BffDb}
    {g g' : ReceivePhase} {c : Command} {r : Option c.Reply}
    (hstep : ReceiveStep P eventToken s g c r s' g') {m : ℕ × RawEvent}
    (h : marking g c r = some m) : m.1 = s.marks ∧ s'.marks = s.marks + 1 ∧
      ∃ id rest, m.2.id = some id ∧ c = .setSeen id ∧ g' = .afterMark m.1 m.2 rest := by
  cases hstep with
  | mark e rest id hid hfree =>
    cases h
    refine ⟨rfl, ?_, id, rest, hid, rfl, rfl⟩
    rw [BffDb.setSeen, if_neg (Bool.eq_false_iff.mp hfree)]
  | complete mark e rest ssoSid hsid => cases h
  | fail mark e g c _ hholding hseen hmarks =>
    cases g with
    | ready events => cases hholding
    | _ => cases h
  | _ => cases h

/-- Who holds a marker goes on holding it, completes the revocation or unmarks the
event. -/
theorem receive_holding {P : Primitives} {eventToken : Option JsString} {s s' : BffDb}
    {g g' : ReceivePhase} {c : Command} {r : Option c.Reply}
    (hstep : ReceiveStep P eventToken s g c r s' g') {m : ℕ × RawEvent}
    (h : g.holding = some m) : g'.holding = some m ∨ completion g c r = some m ∨
      ∃ id, m.2.id = some id ∧ markOf s' id = none := by
  cases hstep with
  | read mark e rest ssoSid sids =>
    cases h
    exact .inl (ReceivePhase.afterRead_holding ..)
  | clear mark e sids rest => exact .inl h
  | complete mark e rest ssoSid hsid => exact .inr (.inl h)
  | fail mark e g c _ hholding hseen hmarks =>
    rw [hholding] at h
    exact .inl h
  | unmark mark e id hid =>
    cases h
    exact .inr (.inr ⟨id, hid, markOf_of_none (BffDb.del_of_mem (List.mem_singleton_self _))⟩)
  | stay mark e id _ hid hs' => exact .inl h
  | _ => cases h

section Runs

variable {ι : Type} [DecidableEq ι]

/-- Requests to the receiver, on a Redis whose markers are numbered. -/
def receiverRuns (P : Primitives) (eventTokens : ι → Option JsString) :
    System (Config ι Command Command.Reply BffDb Receipt)
      (Move ι (Interleaving.Outcome × Outside) ℕ) :=
  (bffServer P).faulty.system
    (fun s => ∀ id mark, markOf s id = some mark → mark < s.marks)
    fun i => receive P (eventTokens i)

abbrev receivePhases (P : Primitives) (eventTokens : ι → Option JsString)
    (log : List (Entry ι Command Command.Reply)) (i : ι) : ReceivePhase :=
  phases (fun i => receiveProtocol P (eventTokens i)) (fun _ => .verifying) log i

/-- The markers that requests have been told they have set. -/
abbrev markings (P : Primitives) (eventTokens : ι → Option JsString)
    (log : List (Entry ι Command Command.Reply)) : List (ℕ × RawEvent) :=
  milestones (fun i => receiveProtocol P (eventTokens i)) (fun _ => .verifying) marking log

/-- The events whose revocation has been completed, by the marker they had. -/
abbrev completed (P : Primitives) (eventTokens : ι → Option JsString)
    (log : List (Entry ι Command Command.Reply)) : List (ℕ × RawEvent) :=
  milestones (fun i => receiveProtocol P (eventTokens i)) (fun _ => .verifying) completion log

/-- A marker that is found for a logout event was set for this event, by a request
that was told so and is neither still at work on the event nor has failed on it
without unmarking it. -/
def processedBefore (P : Primitives) (eventTokens : ι → Option JsString) (s : BffDb)
    (log : List (Entry ι Command Command.Reply)) (i : ι) : Command → Prop
  | .setSeen id => ((receivePhases P eventTokens log i).left.bind List.head?).all (fun e =>
      e.logoutSid.isNone || (ExpiringStore.get s.redis s.clock (.seen id)).all fun mark =>
        decide ((mark, e) ∈ markings P eventTokens log)) = true ∧
      ∀ j, ((receivePhases P eventTokens log i).left.bind List.head?).all (fun e =>
        (ExpiringStore.get s.redis s.clock (.seen id)).all fun mark =>
          decide ((receivePhases P eventTokens log j).holding ≠ some (mark, e))) = true
  | _ => True

def markersProcessed (P : Primitives) (eventTokens : ι → Option JsString) :
    Condition ι Command Command.Reply BffDb ℕ where
  act := processedBefore P eventTokens
  drift _ _ _ := True

/-- Markers are numbered as they are set; one that is still there belongs to a
completed revocation or to a request that holds it. -/
structure Markers (P : Primitives) (eventTokens : ι → Option JsString)
    (log : List (Entry ι Command Command.Reply)) (s : BffDb) : Prop where
  stored : ∀ id mark, markOf s id = some mark → mark < s.marks
  told : ∀ m ∈ markings P eventTokens log, m.1 < s.marks
  keyed : ∀ id mark e, markOf s id = some mark → (mark, e) ∈ markings P eventTokens log →
    e.id = some id
  covered : ∀ id mark e, markOf s id = some mark → (mark, e) ∈ markings P eventTokens log →
    e.logoutSid ≠ none → (mark, e) ∈ completed P eventTokens log ∨
      ∃ j, (receivePhases P eventTokens log j).holding = some (mark, e)

/-- The revocation of the event has been completed. -/
def Revocation (P : Primitives) (eventTokens : ι → Option JsString)
    (log : List (Entry ι Command Command.Reply)) (e : RawEvent) : Prop :=
  ∃ mark, (mark, e) ∈ completed P eventTokens log

/-- Of the events of an envelope that are not left to process every logout has had
its revocation. -/
def Handled (P : Primitives) (eventTokens : ι → Option JsString)
    (log : List (Entry ι Command Command.Reply)) : Prop :=
  ∀ i rest, (receivePhases P eventTokens log i).left = some rest →
    ∃ handled, envelope P (eventTokens i) = handled ++ rest ∧
      ∀ x ∈ handled, x.logoutSid ≠ none → Revocation P eventTokens log x

variable {P : Primitives} {eventTokens : ι → Option JsString} {s s' : BffDb} {i : ι}
  {c : Command} {r : Option c.Reply} {log : List (Entry ι Command Command.Reply)}
  {g' : ReceivePhase}

theorem completed_append {m : ℕ × RawEvent} (h : m ∈ completed P eventTokens log)
    (e : Entry ι Command Command.Reply) : m ∈ completed P eventTokens (log ++ [e]) := by
  rw [completed, milestones_append]
  exact List.mem_append_left _ h

theorem completed_step {m : ℕ × RawEvent}
    (h : completion (receivePhases P eventTokens log i) c r = some m) :
    m ∈ completed P eventTokens (log ++ [⟨i, c, r⟩]) := by
  rw [completed, milestones_append]
  exact List.mem_append_right _ (Option.mem_toList.mpr h)

theorem markings_step {m : ℕ × RawEvent} (h : m ∈ markings P eventTokens (log ++ [⟨i, c, r⟩])) :
    m ∈ markings P eventTokens log ∨
      marking (receivePhases P eventTokens log i) c r = some m := by
  rw [markings, milestones_append] at h
  exact (List.mem_append.mp h).imp_right Option.mem_toList.mp

theorem receive_moved (hnext : (receiveProtocol P (eventTokens i)).next
    (receivePhases P eventTokens log i) c r = g') (j : ι) :
    (j = i ∧ receivePhases P eventTokens (log ++ [⟨i, c, r⟩]) j = g') ∨
      (j ≠ i ∧ receivePhases P eventTokens (log ++ [⟨i, c, r⟩]) j =
        receivePhases P eventTokens log j) := by
  rw [← hnext]
  exact phases_cases (fun i => receiveProtocol P (eventTokens i)) (fun _ => .verifying) log i c r j

theorem Markers.act (h : Markers P eventTokens log s)
    (hstep : ReceiveStep P (eventTokens i) s (receivePhases P eventTokens log i) c r s' g')
    (hnext : (receiveProtocol P (eventTokens i)).next (receivePhases P eventTokens log i) c r = g') :
    Markers P eventTokens (log ++ [⟨i, c, r⟩]) s' := by
  refine ⟨?_, ?_, ?_, ?_⟩
  · intro id mark hmark
    obtain ⟨hmarks, hsame | hgone | ⟨hset, hnew, -⟩⟩ := receive_markers hstep id
    · have := h.stored id mark (hsame ▸ hmark)
      omega
    · rw [hgone] at hmark
      cases hmark
    · rw [hset] at hmark
      cases hmark
      omega
  · intro m hm
    rcases markings_step hm with hold | hnew
    · have := h.told m hold
      have := (receive_markers hstep []).1
      omega
    · obtain ⟨hm, hmarks, -⟩ := receive_marking hstep hnew
      omega
  · intro id mark e hmark he
    obtain ⟨-, hsame | hgone | ⟨hset, -, hc⟩⟩ := receive_markers hstep id
    · rw [hsame] at hmark
      rcases markings_step he with hold | hnew
      · exact h.keyed id mark e hmark hold
      · have hlt := h.stored id mark hmark
        have hfresh : mark = s.marks := (receive_marking hstep hnew).1
        omega
    · rw [hgone] at hmark
      cases hmark
    · rw [hset] at hmark
      cases hmark
      rcases markings_step he with hold | hnew
      · exact absurd (h.told _ hold) (lt_irrefl _)
      · obtain ⟨-, -, id', -, hid, hc', -⟩ := receive_marking hstep hnew
        rw [hc] at hc'
        cases hc'
        exact hid
  · intro id mark e hmark he hlogout
    obtain ⟨-, hsame | hgone | ⟨hset, -, -⟩⟩ := receive_markers hstep id
    · rw [hsame] at hmark
      rcases markings_step he with hold | hnew
      · rcases h.covered id mark e hmark hold hlogout with hdone | ⟨j, hj⟩
        · exact .inl (completed_append hdone _)
        · rcases receive_moved hnext j with ⟨rfl, hphase⟩ | ⟨-, hphase⟩
          · rcases receive_holding hstep hj with hkept | hdone | ⟨id', hid', hnone⟩
            · exact .inr ⟨j, by rw [hphase]; exact hkept⟩
            · exact .inl (completed_step hdone)
            · -- the event that is unmarked is the one this marker is for
              have hid := h.keyed id mark e hmark hold
              rw [hid'] at hid
              cases hid
              rw [hsame, hmark] at hnone
              cases hnone
          · exact .inr ⟨j, by rw [hphase]; exact hj⟩
      · have hlt := h.stored id mark hmark
        have hfresh : mark = s.marks := (receive_marking hstep hnew).1
        omega
    · rw [hgone] at hmark
      cases hmark
    · rw [hset] at hmark
      cases hmark
      rcases markings_step he with hold | hnew
      · exact absurd (h.told _ hold) (lt_irrefl _)
      · obtain ⟨-, -, -, rest, -, -, hg'⟩ := receive_marking hstep hnew
        refine .inr ⟨i, ?_⟩
        rcases receive_moved hnext i with ⟨-, hphase⟩ | ⟨hne, -⟩
        · rw [hphase, hg', ReceivePhase.afterMark_revoking hlogout]
          rfl
        · exact absurd rfl hne

theorem Handled.act (h : Handled P eventTokens log) (hmarkers : Markers P eventTokens log s)
    (hstep : ReceiveStep P (eventTokens i) s (receivePhases P eventTokens log i) c r s' g')
    (hnext : (receiveProtocol P (eventTokens i)).next (receivePhases P eventTokens log i) c r = g')
    (hmeets : processedBefore P eventTokens s log i c) :
    Handled P eventTokens (log ++ [⟨i, c, r⟩]) := by
  have hkeep : ∀ {j rest}, (receivePhases P eventTokens log j).left = some rest →
      ∃ handled, envelope P (eventTokens j) = handled ++ rest ∧ ∀ x ∈ handled,
        x.logoutSid ≠ none → Revocation P eventTokens (log ++ [⟨i, c, r⟩]) x := by
    intro j rest hleft
    obtain ⟨handled, henvelope, hdone⟩ := h j rest hleft
    refine ⟨handled, henvelope, fun x hx hlogout => ?_⟩
    obtain ⟨mark, hmark⟩ := hdone x hx hlogout
    exact ⟨mark, completed_append hmark _⟩
  -- one more event is handled
  have hmore : ∀ {e : RawEvent} {rest : List RawEvent},
      (receivePhases P eventTokens log i).left = some (e :: rest) →
      (e.logoutSid ≠ none → Revocation P eventTokens (log ++ [⟨i, c, r⟩]) e) →
      ∃ handled, envelope P (eventTokens i) = handled ++ rest ∧ ∀ x ∈ handled,
        x.logoutSid ≠ none → Revocation P eventTokens (log ++ [⟨i, c, r⟩]) x := by
    intro e rest hleft he
    obtain ⟨handled, henvelope, hdone⟩ := hkeep hleft
    refine ⟨handled ++ [e], by rw [henvelope, List.append_assoc]; rfl, fun x hx hlogout => ?_⟩
    rcases List.mem_append.mp hx with hbefore | hlast
    · exact hdone x hbefore hlogout
    · cases List.mem_singleton.mp hlast
      exact he hlogout
  intro j rest hleft
  rcases receive_moved hnext j with ⟨rfl, hphase⟩ | ⟨-, hphase⟩
  · rw [hphase] at hleft
    generalize hg : receivePhases P eventTokens log j = g at hstep hmore
    cases hstep with
    | verify token _ _ hg' =>
      rcases hg' with rfl | rfl
      · cases hleft
        exact ⟨[], rfl, fun x hx => by cases hx⟩
      · cases hleft
    | mark e rest' id hid hfree =>
      by_cases hlogout : e.logoutSid = none
      · rw [ReceivePhase.afterMark_idle hlogout] at hleft
        cases hleft
        exact hmore rfl fun hne => absurd hlogout hne
      · rw [ReceivePhase.afterMark_revoking hlogout] at hleft
        cases hleft
        exact hkeep (by rw [hg]; rfl)
    | pass e rest' id mark hid hseen =>
      cases hleft
      refine hmore rfl fun hlogout => ?_
      obtain ⟨htold, hfree⟩ := hmeets
      rw [hg, hseen] at htold
      have hmarking : (mark, e) ∈ markings P eventTokens log := by
        rcases (Bool.or_eq_true ..).mp htold with hnone | hmem
        · exact absurd (Option.isNone_iff_eq_none.mp hnone) hlogout
        · exact of_decide_eq_true hmem
      rcases hmarkers.covered id mark e (markOf_of_get hseen) hmarking hlogout with
        hdone | ⟨k, hk⟩
      · exact ⟨mark, completed_append hdone _⟩
      · have hnot := hfree k
        rw [hg, hseen] at hnot
        exact absurd hk (of_decide_eq_true hnot)
    | read mark e rest' ssoSid sids =>
      rw [ReceivePhase.afterRead_left] at hleft
      cases hleft
      exact hkeep (by rw [hg]; rfl)
    | clear mark e sids rest' =>
      cases hleft
      exact hkeep (by rw [hg]; rfl)
    | complete mark e rest' ssoSid hsid =>
      cases hleft
      exact hmore rfl fun _ => ⟨mark, completed_step (by rw [hg]; rfl)⟩
    | _ => cases hleft
  · rw [hphase] at hleft
    exact hkeep hleft

/-- What the receiver reads of an event that the SSO has sent. -/
def received (e : WireEvent) : RawEvent where
  id := some e.id.text
  type := e.type
  sid := match e.payload with
    | .obj members => match Json.member? members (js "sid") with
      | some (.str sid) => some sid
      | _ => none
    | _ => none

/-- Each batch that a worker of the SSO has seen this client answer with 204 was the
envelope of a request that has answered so. -/
def AnsweredHere (P : Primitives) (eventTokens : ι → Option JsString) (clientId : ClientId)
    (cfg : Config ι Command Command.Reply BffDb Receipt) (sent : List (Event Service Action)) :
    Prop :=
  ∀ e ∈ sent, ∀ w jitter claim batch, e.label = .send w (some 204) jitter →
    e.before.workers w = .sending claim batch → claim.clientId = clientId →
    ∃ i receipt, cfg.requests i = .done receipt ∧ receipt.status = 204 ∧
      envelope P (eventTokens i) = batch.map received

/-- A batch holds claimed rows only. -/
theorem mem_boundedBatch {rows : List PendingRow} {e : WireEvent} (h : e ∈ boundedBatch rows) :
    ∃ row ∈ rows, row.toWireEvent = e := by
  unfold boundedBatch at h
  obtain ⟨k, hk⟩ := boundedBatchFrom_take [] (rows.take
    (if rows.head?.any fun r => decide (r.attempts > 0) then 1 else BATCH_MAX))
  rw [hk, List.nil_append] at h
  obtain ⟨row, hrow, he⟩ := List.mem_map.mp h
  exact ⟨row, List.mem_of_mem_take (List.mem_of_mem_take hrow), he⟩

/-- A row that a step settles as delivered was in a batch answered with 204. -/
theorem delivered_in_batch {start s s' : Service} {sent : List (Event Service Action)}
    {a : Action} (hstart : start.Initial) (hsent : Exec delivery start sent s)
    (hstep : DreamSso.step s a = some s') {r' : OutboxRow} (hr' : r' ∈ s'.db.eventOutbox.rows)
    (hdelivered : r'.status = .delivered)
    (hbefore : ∀ r ∈ s.db.eventOutbox.rows, r.id = r'.id → r.status ≠ .delivered) :
    ∃ e ∈ sent, ∃ w jitter claim batch, e.label = .send w (some 204) jitter ∧
      e.before.workers w = .sending claim batch ∧ claim.clientId = r'.targetClientId ∧
      r'.wire ∈ batch := by
  obtain ⟨now, claim, ids, hcommits, r, hr, hstored, hrow⟩ :=
    newly_delivered hstep hr' hdelivered hbefore
  obtain ⟨w, clock, -, hphase, hheld, -⟩ := hcommits
  simp only [settledBy, Bool.and_eq_true, decide_eq_true_eq] at hrow
  obtain ⟨⟨htarget, hid⟩, -⟩ := hrow
  obtain ⟨e, he, batch, jitter, hlabel, hsending, hids⟩ :=
    delivered_answered hstart hsent w claim ids hphase
  refine ⟨e, he, w, jitter, claim, batch, hlabel, hsending, ?_, ?_⟩
  · rw [hstored, htarget]
  · -- the event with the id of the row is the row as it was claimed
    obtain ⟨_, _, -, hfirst, -, -⟩ := hsent.split he
    have hformed := (coherent_of_run hstart hfirst).formed w
    rw [hsending] at hformed
    cases hformed
    rw [← hids] at hid
    obtain ⟨sentEvent, hmem, hsame⟩ := List.mem_map.mp hid
    obtain ⟨row, hclaimed, hrow⟩ := mem_boundedBatch hmem
    have hsnap := (coherent_of_run hstart hsent).current w claim (by rw [hphase]; rfl)
      (holdsLease_token hheld)
    obtain ⟨q, hq, hwire, -⟩ := hsnap.present row hclaimed
    have hqr : q = r := by
      refine s.db.eventOutbox.row_ext hq hr ?_
      rw [← hsame, ← hrow, ← hwire]
      rfl
    have hlast : r'.wire = r.wire := by
      rw [OutboxRow.wire, OutboxRow.wire, hstored]
    rw [hlast, ← hqr, hwire, hrow]
    exact hmem

/-- In every run whose steps meet the condition each request that answers 204 has
seen every logout event of its envelope revoked. A pending logout event of the SSO's
outbox stays stored, and is delivered only once its revocation has been completed. -/
theorem logout_delivered (P : Primitives) (eventTokens : ι → Option JsString)
    {start cfg : Config ι Command Command.Reply BffDb Receipt}
    {trace : List (Event (Config ι Command Command.Reply BffDb Receipt)
      (Move ι (Interleaving.Outcome × Outside) ℕ))}
    (hstart : (receiverRuns P eventTokens).initial start)
    (hrun : Exec (receiverRuns P eventTokens) start trace cfg)
    (hmeets : ∀ e ∈ trace, (markersProcessed P eventTokens).Meets e.before e.label) :
    (∀ i receipt, cfg.requests i = .done receipt → receipt.status = 204 →
      ∀ e ∈ envelope P (eventTokens i), e.logoutSid ≠ none →
        Revocation P eventTokens cfg.log e) ∧
    ∀ (clientId : ClientId) (sso s s' : Service) (sent : List (Event Service Action)) (a : Action),
      sso.Initial → Exec delivery sso sent s → DreamSso.step s a = some s' →
      AnsweredHere P eventTokens clientId cfg sent →
      ∀ r ∈ s.db.eventOutbox.rows, r.status = .pending → r.targetClientId = clientId →
        (received r.wire).logoutSid ≠ none →
        ∃ r' ∈ s'.db.eventOutbox.rows, r'.toStoredEvent = r.toStoredEvent ∧
          (r'.status = .delivered → Revocation P eventTokens cfg.log (received r.wire)) := by
  obtain ⟨hnumbered, hlog, hprograms⟩ := hstart
  have hbegin : Markers P eventTokens start.log start.store ∧ Handled P eventTokens start.log := by
    rw [hlog]
    refine ⟨⟨hnumbered, ?_, ?_, ?_⟩, ?_⟩
    · intro m hm
      cases hm
    · intro id mark e _ he
      cases he
    · intro id mark e _ he
      cases he
    · intro i rest hleft
      cases hleft
  have hobey : ∀ i, (receiveProtocol P (eventTokens i)).Obeys AllProcessed
      (receivePhases P eventTokens start.log i) (start.requests i) := by
    intro i
    rw [hlog, hprograms]
    exact receive_obeys (eventTokens i)
  obtain ⟨⟨-, hhandled⟩, hobeys⟩ := Server.run_meeting
    (I := fun s log => Markers P eventTokens log s ∧ Handled P eventTokens log)
    (fun s log i c w h hok hmeets => by
      have hstep := receive_step (s := s) w hok
      exact ⟨h.1.act hstep rfl, h.2.act h.1 hstep rfl hmeets⟩)
    (fun s s' log e h _ hdrift => by
      cases hdrift
      exact ⟨⟨h.1.stored, h.1.told, h.1.keyed, h.1.covered⟩, h.2⟩)
    hrun hmeets hobey hbegin
  have hanswered : ∀ i receipt, cfg.requests i = .done receipt → receipt.status = 204 →
      ∀ e ∈ envelope P (eventTokens i), e.logoutSid ≠ none →
        Revocation P eventTokens cfg.log e := by
    intro i receipt hdone hstatus e he hlogout
    have hended := hobeys i
    rw [hdone] at hended
    have hready := hended receipt rfl hstatus
    obtain ⟨handled, henvelope, hrevoked⟩ := hhandled i [] (congrArg ReceivePhase.left hready)
    rw [henvelope, List.append_nil] at he
    exact hrevoked e he hlogout
  refine ⟨hanswered, ?_⟩
  intro clientId sso s s' sent a hsso hsent hstep hhere r hr hpending htarget hlogout
  obtain ⟨r', hr', hstored⟩ := pending_kept hstep hr hpending
  refine ⟨r', hr', hstored, fun hdelivered => ?_⟩
  have hbefore : ∀ q ∈ s.db.eventOutbox.rows, q.id = r'.id → q.status ≠ .delivered := by
    intro q hq hid
    rw [hstored] at hid
    rw [s.db.eventOutbox.row_ext hq hr hid, hpending]
    decide
  obtain ⟨e, he, w, jitter, claim, batch, hlabel, hsending, hclient, hmem⟩ :=
    delivered_in_batch hsso hsent hstep hr' hdelivered hbefore
  rw [hstored, htarget] at hclient
  obtain ⟨i, receipt, hdone, hstatus, henvelope⟩ :=
    hhere e he w jitter claim batch hlabel hsending hclient
  have hwire : r'.wire = r.wire := by
    rw [OutboxRow.wire, OutboxRow.wire, hstored]
  rw [hwire] at hmem
  refine hanswered i receipt hdone hstatus (received r.wire) ?_ hlogout
  rw [henvelope]
  exact List.mem_map_of_mem hmem

end Runs

section Interleaved

instance {ι : Type} [DecidableEq ι] [Fintype ι] (P : Primitives)
    (eventTokens : ι → Option JsString) (s : BffDb) (log : List (Entry ι Command Command.Reply))
    (i : ι) (c : Command) : Decidable ((markersProcessed P eventTokens).act s log i c) :=
  match c with
  | .setSeen _ => inferInstanceAs (Decidable (_ = true ∧ ∀ _, _ = true))
  | .randomBytes => inferInstanceAs (Decidable True)
  | .setSession _ _ _ => inferInstanceAs (Decidable True)
  | .sadd _ _ => inferInstanceAs (Decidable True)
  | .expire _ _ => inferInstanceAs (Decidable True)
  | .smembers _ => inferInstanceAs (Decidable True)
  | .del _ => inferInstanceAs (Decidable True)
  | .getSession _ => inferInstanceAs (Decidable True)
  | .ttl _ => inferInstanceAs (Decidable True)
  | .renew _ => inferInstanceAs (Decidable True)
  | .jwtVerify _ => inferInstanceAs (Decidable True)
  | .dateNow => inferInstanceAs (Decidable True)

instance {ι : Type} [DecidableEq ι] (P : Primitives) (eventTokens : ι → Option JsString)
    (s : BffDb) (log : List (Entry ι Command Command.Reply)) (e : ℕ) :
    Decidable ((markersProcessed P eventTokens).drift s log e) := inferInstanceAs (Decidable True)

def logoutEvent : OutboundEvent :=
  ⟨js "logout", .obj [(js "sub", .str (js "u")), (js "sid", .str (js "sso"))], none, none⟩

/-- The event as it is stored: the members of its payload are sorted. -/
def logoutWire : WireEvent :=
  ⟨numberedIds 1, js "logout", .obj [(js "sid", .str (js "sso")), (js "sub", .str (js "u"))]⟩

/-- The SSO has signed one envelope, with one logout event. -/
def oneEnvelope : Primitives where
  randomBytes n := List.replicate (n + 1) 0x61
  sessionTtl := 86400
  signedEvents token := if token = js "signed" then some [received logoutWire] else none

/-- The envelope is delivered twice. -/
def twoDeliveries : Fin 2 → Option JsString := fun _ => some (js "signed")

def verifying : Outside := ⟨fun _ => none, fun _ => some true⟩

def deliveriesOf (i : Fin 2) (count : ℕ) :
    List (Move (Fin 2) (Interleaving.Outcome × Outside) ℕ) :=
  List.replicate count (.act i (.answered, verifying))

def twoDeliveriesStart : Config (Fin 2) Command Command.Reply BffDb Receipt :=
  ⟨⟨0, 0, 0, fun _ => none⟩, [], fun i => receive oneEnvelope (twoDeliveries i)⟩

theorem twoDeliveries_initial :
    (receiverRuns oneEnvelope twoDeliveries).initial twoDeliveriesStart := by
  refine ⟨fun id mark hmark => ?_, rfl, rfl⟩
  cases hmark

/-- The SSO sends the event in a batch of its own. -/
def sendLogout : List Action :=
  [.insertEvents 0 numberedIds (js "app") [logoutEvent],
    .start 0 (js "app"), .claim 0 1 1 (Uuid.numbered 9), .sign 0 true 0, .renew 0 2,
    .send 0 (some 204) 0]

/-- Every batch sent is the envelope. -/
def sendsEnvelope (s : Service) : Action → Bool
  | .send w _ _ => match s.workers w with
    | .sending _ batch => decide (batch.map received = [received logoutWire])
    | _ => true
  | _ => true

theorem logout_delivered_twoDeliveries :
    ∃ (cfg : Config (Fin 2) Command Command.Reply BffDb Receipt) (sso' s : Service)
      (r : OutboxRow), cfg.requests 0 = .done ⟨204, none⟩ ∧
      cfg.requests 1 = .done ⟨204, none⟩ ∧
      DreamSso.step s (.settle 0 3 3) = some sso' ∧ r ∈ s.db.eventOutbox.rows ∧
      Revocation oneEnvelope twoDeliveries cfg.log (received logoutWire) ∧
      ∃ r' ∈ sso'.db.eventOutbox.rows, r'.toStoredEvent = r.toStoredEvent ∧
        (r'.status = .delivered →
          Revocation oneEnvelope twoDeliveries cfg.log (received r.wire)) := by
  have hrun : (((deliveriesOf 0 4 ++ deliveriesOf 1 2).foldlM
      ((bffServer oneEnvelope).faulty.stepMeeting (markersProcessed oneEnvelope twoDeliveries))
      twoDeliveriesStart).any fun cfg => decide ((cfg.requests 0).result? = some ⟨204, none⟩ ∧
        (cfg.requests 1).result? = some ⟨204, none⟩)) = true := by
    decide +kernel
  obtain ⟨cfg, hcfg, hdone⟩ := (Option.any_eq_true ..).mp hrun
  obtain ⟨hfirst, hsecond⟩ := of_decide_eq_true hdone
  obtain ⟨trace, hexec, hmeets⟩ := Server.exec_of_moves_meeting hcfg
    (fun s => ∀ id mark, markOf s id = some mark → mark < s.marks)
    fun i => receive oneEnvelope (twoDeliveries i)
  have hsent : (sendLogout.foldlM (fun s a => if sendsEnvelope s a then DreamSso.step s a else none)
      oneClient).any (fun s => (DreamSso.step s (.settle 0 3 3)).isSome &&
        s.db.eventOutbox.rows.any fun r => decide (r.status = .pending ∧
          r.targetClientId = js "app" ∧ r.wire = logoutWire)) = true := by
    decide +kernel
  obtain ⟨s, hs, hsettles⟩ := (Option.any_eq_true ..).mp hsent
  obtain ⟨hstep, hrow⟩ := (Bool.and_eq_true ..).mp hsettles
  obtain ⟨sso', hstep⟩ := Option.isSome_iff_exists.mp hstep
  obtain ⟨r, hr, hdecide⟩ := List.any_eq_true.mp hrow
  obtain ⟨hpending, htarget, hwire⟩ := of_decide_eq_true hdecide
  obtain ⟨sent, hsending, hbatches⟩ := exec_of_foldlM_where (T := delivery)
    (G := fun s a => sendsEnvelope s a = true) (fun s a t h => by
      rw [Option.ite_none_right_eq_some] at h
      exact ⟨h.2, h.1⟩) sendLogout hs
  have hboth := logout_delivered oneEnvelope twoDeliveries twoDeliveries_initial hexec hmeets
  have hhere : AnsweredHere oneEnvelope twoDeliveries (js "app") cfg sent := by
    intro e he w jitter claim batch hlabel hphase _
    have hbatch := hbatches e he
    rw [hlabel, sendsEnvelope, hphase] at hbatch
    exact ⟨0, ⟨204, none⟩, Prog.eq_done hfirst, rfl, (of_decide_eq_true hbatch).symm⟩
  have hlogout : (received logoutWire).logoutSid ≠ none := by decide
  obtain ⟨r', hr', hstored, hdelivered⟩ := hboth.2 (js "app") oneClient s sso' sent _
    oneClient_initial hsending hstep hhere r hr hpending htarget (by rw [hwire]; exact hlogout)
  exact ⟨cfg, sso', s, r, Prog.eq_done hfirst, Prog.eq_done hsecond, hstep, hr,
    hboth.1 0 ⟨204, none⟩ (Prog.eq_done hfirst) rfl _ (List.mem_singleton_self _) hlogout,
    r', hr', hstored, hdelivered⟩

/-- The second delivery finds the marker of the first, which has crashed before its
revocation: the second answers 204 and nothing has been revoked. -/
theorem answered_unrevoked :
    ∃ start trace cfg, (receiverRuns oneEnvelope twoDeliveries).initial start ∧
      Exec (receiverRuns oneEnvelope twoDeliveries) start trace cfg ∧
      cfg.requests 1 = .done (⟨204, none⟩ : Receipt) ∧
      ∃ e ∈ envelope oneEnvelope (twoDeliveries 1), e.logoutSid ≠ none ∧
        ¬ Revocation oneEnvelope twoDeliveries cfg.log e := by
  have hrun : (((deliveriesOf 0 2 ++ deliveriesOf 1 2).foldlM (bffServer oneEnvelope).faulty.step
      twoDeliveriesStart).any fun cfg => decide ((cfg.requests 1).result? = some ⟨204, none⟩ ∧
        completed oneEnvelope twoDeliveries cfg.log = [])) = true := by
    decide +kernel
  obtain ⟨cfg, hcfg, hdone⟩ := (Option.any_eq_true ..).mp hrun
  obtain ⟨hanswered, hnone⟩ := of_decide_eq_true hdone
  obtain ⟨trace, hexec⟩ := Server.exec_of_moves hcfg
    (fun s => ∀ id mark, markOf s id = some mark → mark < s.marks)
    fun i => receive oneEnvelope (twoDeliveries i)
  refine ⟨twoDeliveriesStart, trace, cfg, twoDeliveries_initial, hexec, Prog.eq_done hanswered,
    received logoutWire, List.mem_singleton_self _, by decide, ?_⟩
  rintro ⟨mark, hmark⟩
  rw [hnone] at hmark
  cases hmark

end Interleaved

end DreamSso.Bff
