import DreamSso.SessionCalls
import Mathlib.Data.Fintype.Basic

/-!
Back-channel logout of the account console. A revocation is final, and no update
revives a session or prolongs it, in every run in which creations for an SSO
session do not overlap its revocations, an index outlives the sessions it lists,
and nothing comes between the two commands of an update.
-/
namespace DreamSso.Bff

open Interleaving JsStrings Transitions

/-- The session can be read. -/
def readable (s : BffDb) (sid : JsString) : Bool :=
  (ExpiringStore.get s.redis s.clock (.session sid)).isSome

/-- The sessions listed for an SSO session. -/
def members (s : BffDb) (ssoSid : JsString) : List JsString :=
  (ExpiringStore.get s.redis s.clock (.ssoSid ssoSid)).getD []

/-- Once this time has passed, as many seconds still fit in what remains of the
session. -/
def fits (s : BffDb) (milliseconds : ℕ) (sid : JsString) (ttl : ℤ) : Bool :=
  (ExpiringStore.visible? s.redis s.clock (.session sid)).any fun e =>
    e.deadline.any fun d => decide (0 < ttl ∧ s.clock + milliseconds + 1000 * ttl ≤ d)

/-- The revocation has still to delete these. -/
def SessionPhase.reads : SessionPhase → List JsString
  | .read sids => sids
  | _ => []

/-- Index and session of a creation that is done. -/
def SessionPhase.listing (bound : Option JsString) : SessionPhase → Option (JsString × JsString)
  | .listed sid => bound.map fun ssoSid => (ssoSid, sid)
  | _ => none

section Runs

variable {ι : Type} [DecidableEq ι]

/-- Calls of the session functions on a Redis without sessions. -/
def sessionRuns (P : Primitives) (calls : ι → SessionCall) :
    System (Config ι Command Command.Reply BffDb SessionAnswer) (Move ι Outside ℕ) :=
  (bffServer P).system (fun s => s.redis = fun _ => none) fun i => (calls i).program P

abbrev sessionPhases (P : Primitives) (calls : ι → SessionCall)
    (log : List (Entry ι Command Command.Reply)) (i : ι) : SessionPhase :=
  phases (fun i => sessionProtocol P (calls i)) (fun _ => .before) log i

/-- The index of an SSO session is read while no creation for it is under way, and
no creation for it begins before the revocation is over. An update reads a time to
live that is not rounded up, and its session is not deleted before it is written
again. -/
def undisturbedBy (P : Primitives) (calls : ι → SessionCall) (s : BffDb)
    (log : List (Entry ι Command Command.Reply)) (i : ι) : Command → Prop
  | .smembers ssoSid => ∀ j, (calls j).boundTo = some ssoSid →
      (sessionPhases P calls log j).creating = false
  | .randomBytes => ∀ j, (calls j).revokes.isSome = true → (calls j).revokes = (calls i).boundTo →
      (sessionPhases P calls log j).revoking = false
  | .ttl sid => fits s 0 sid (ExpiringStore.ttl s.redis s.clock (.session sid)) = true
  | .del keys => ∀ j, (sessionPhases P calls log j).pending.all
      (fun p => decide (Key.session p.1 ∉ keys)) = true
  | _ => True

/-- Time passes only as far as what each pending update has read still fits, and as
every session that can still be read has its index. -/
def undisturbed (P : Primitives) (calls : ι → SessionCall) :
    Condition ι Command Command.Reply BffDb ℕ where
  act := undisturbedBy P calls
  drift s log milliseconds :=
    (∀ j, (sessionPhases P calls log j).pending.all
      (fun p => fits s milliseconds p.1 p.2) = true) ∧
    ∀ j, ((sessionPhases P calls log j).listing (calls j).boundTo).all
      (fun l => !readable { s with clock := s.clock + milliseconds } l.2 ||
        (ExpiringStore.get s.redis (s.clock + milliseconds) (.ssoSid l.1)).isSome) = true

/-- Ids are drawn once, by one creation each. -/
structure Ids (P : Primitives) (calls : ι → SessionCall)
    (log : List (Entry ι Command Command.Reply)) (s : BffDb) : Prop where
  drew : ∀ j sid, (sessionPhases P calls log j).sid? = some sid → ⟨j, .randomBytes, some sid⟩ ∈ log
  issued : ∀ j sid, (⟨j, .randomBytes, some sid⟩ : Entry ι Command Command.Reply) ∈ log →
    ∃ n < s.draws, P.randomBytes n = sid
  once : ∀ j k sid, (⟨j, .randomBytes, some sid⟩ : Entry ι Command Command.Reply) ∈ log →
    (⟨k, .randomBytes, some sid⟩ : Entry ι Command Command.Reply) ∈ log → j = k

/-- The session was created by a command that let it live until then. -/
def CreatedUntil (calls : ι → SessionCall)
    (hist : List (BffDb × Entry ι Command Command.Reply)) (sid : JsString) (bound : ℤ) : Prop :=
  ∃ s j data ttlSeconds, (s, ⟨j, .setSession sid data ttlSeconds, some ()⟩) ∈ hist ∧
    calls j = .create data ttlSeconds ∧ bound = s.clock + BffDb.milliseconds ttlSeconds

/-- A stored session was created and lives no longer than it was created to; what a
pending update is about to write does not either. -/
structure Records (P : Primitives) (calls : ι → SessionCall)
    (hist : List (BffDb × Entry ι Command Command.Reply)) (s : BffDb) : Prop where
  known : ∀ sid e, s.redis (.session sid) = some e →
    ∃ j, (sessionPhases P calls (entries hist) j).created = some sid
  within : ∀ sid e, s.redis (.session sid) = some e → ∃ d bound, e.deadline = some d ∧
    CreatedUntil calls hist sid bound ∧ d ≤ bound
  positive : ∀ j data ttlSeconds, calls j = .create data ttlSeconds →
    (sessionPhases P calls (entries hist) j).created.isSome = true → ttlSeconds ≠ 0
  pending : ∀ j sid ttl, sessionPhases P calls (entries hist) j = .timed sid ttl → 0 < ttl ∧
    readable s sid = true ∧ ∃ bound, CreatedUntil calls hist sid bound ∧
      s.clock + 1000 * ttl ≤ bound

/-- Readable sessions are listed, and a revocation under way has read them. -/
structure Index (P : Primitives) (calls : ι → SessionCall)
    (log : List (Entry ι Command Command.Reply)) (s : BffDb) : Prop where
  listed : ∀ j ssoSid sid, (calls j).boundTo = some ssoSid →
    sessionPhases P calls log j = .listed sid → readable s sid = true → sid ∈ members s ssoSid
  awaited : ∀ r j ssoSid, (calls r).revokes = some ssoSid →
    (sessionPhases P calls log r).revoking = true → (calls j).boundTo = some ssoSid →
    (sessionPhases P calls log j).creating = false ∧
      ∀ sid, sessionPhases P calls log j = .listed sid → readable s sid = true →
        sid ∈ (sessionPhases P calls log r).reads

/-- A revocation of the SSO session has been completed after the creation of this
session bound to it had drawn its id. -/
def Revoked (calls : ι → SessionCall) (log : List (Entry ι Command Command.Reply))
    (sid : JsString) : Prop :=
  ∃ earlier r ssoSid later j, log = earlier ++ ⟨r, .del [.ssoSid ssoSid], some ()⟩ :: later ∧
    (calls r).revokes = some ssoSid ∧ (calls j).boundTo = some ssoSid ∧
    (⟨j, .randomBytes, some sid⟩ : Entry ι Command Command.Reply) ∈ earlier

/-- Revoked sessions cannot be read and are not about to be stored. -/
def Gone (P : Primitives) (calls : ι → SessionCall) (log : List (Entry ι Command Command.Reply))
    (s : BffDb) : Prop :=
  ∀ sid, Revoked calls log sid →
    readable s sid = false ∧ ∀ j, sessionPhases P calls log j ≠ .drawn sid

/-- No read after a revocation has found a revoked session. -/
def Silent (calls : ι → SessionCall) (log : List (Entry ι Command Command.Reply)) : Prop :=
  ∀ earlier k sid r later, log = earlier ++ ⟨k, .getSession sid, r⟩ :: later →
    Revoked calls earlier sid → r = some none

/-- Every update has written a session that could be read. -/
def Unrevived (calls : ι → SessionCall)
    (hist : List (BffDb × Entry ι Command Command.Reply)) : Prop :=
  ∀ earlier s i sid data ttlSeconds r later,
    hist = earlier ++ (s, ⟨i, .setSession sid data ttlSeconds, r⟩) :: later →
    (∀ data t, calls i ≠ .create data t) → readable s sid = true

variable {P : Primitives} {calls : ι → SessionCall} {s s' : BffDb} {i : ι} {c : Command}
  {r : Option c.Reply} {log : List (Entry ι Command Command.Reply)}
  {hist : List (BffDb × Entry ι Command Command.Reply)} {g' : SessionPhase}

omit [DecidableEq ι] in
theorem step_clock {call : SessionCall} {g : SessionPhase}
    (hstep : SessionStep P call s g c r s' g') : s'.clock = s.clock := by
  cases hstep with
  | rewrite sid ttl data hcall =>
    unfold BffDb.setSession
    split_ifs <;> rfl
  | _ => rfl

omit [DecidableEq ι] in
theorem step_draws {call : SessionCall} {g : SessionPhase}
    (hstep : SessionStep P call s g c r s' g') : s.draws ≤ s'.draws := by
  cases hstep with
  | draw data ttlSeconds hcall => exact Nat.le_succ _
  | rewrite sid ttl data hcall =>
    unfold BffDb.setSession
    split_ifs <;> exact le_refl _
  | _ => exact le_refl _

omit [DecidableEq ι] in
/-- The id a call has drawn was drawn before, unless this is the draw. -/
theorem step_sid? {call : SessionCall} {g : SessionPhase} {sid : JsString}
    (hstep : SessionStep P call s g c r s' g') (h : g'.sid? = some sid) :
    g.sid? = some sid ∨ (⟨i, c, r⟩ : Entry ι Command Command.Reply) =
      ⟨i, .randomBytes, some sid⟩ := by
  cases hstep with
  | draw data ttlSeconds hcall =>
    obtain rfl := Option.some.inj h
    exact .inr rfl
  | read ssoSid sids hrevokes hsids =>
    unfold SessionPhase.afterRead at h
    split_ifs at h <;> cases h
  | store sid' data ttlSeconds hcall hpos => exact .inl h
  | list sid' ssoSid hbound => exact .inl h
  | limit sid' ssoSid data ttlSeconds hcall => exact .inl h
  | _ => cases h

theorem moved (hnext : (sessionProtocol P (calls i)).next (sessionPhases P calls log i) c r = g')
    (j : ι) : (j = i ∧ sessionPhases P calls (log ++ [⟨i, c, r⟩]) j = g') ∨
      (j ≠ i ∧ sessionPhases P calls (log ++ [⟨i, c, r⟩]) j = sessionPhases P calls log j) := by
  rw [← hnext]
  exact phases_cases (fun i => sessionProtocol P (calls i)) (fun _ => .before) log i c r j

theorem Ids.act (h : Ids P calls log s) (hinj : Function.Injective P.randomBytes)
    (hstep : SessionStep P (calls i) s (sessionPhases P calls log i) c r s' g')
    (hnext : (sessionProtocol P (calls i)).next (sessionPhases P calls log i) c r = g') :
    Ids P calls (log ++ [⟨i, c, r⟩]) s' := by
  have hdrew : ∀ j sid, (sessionPhases P calls (log ++ [⟨i, c, r⟩]) j).sid? = some sid →
      (⟨j, .randomBytes, some sid⟩ : Entry ι Command Command.Reply) ∈ log ++ [⟨i, c, r⟩] := by
    intro j sid hj
    rcases moved hnext j with ⟨rfl, hphase⟩ | ⟨-, hphase⟩
    · rw [hphase] at hj
      rcases step_sid? (i := j) hstep hj with hbefore | hdraw
      · exact List.mem_append_left _ (h.drew j sid hbefore)
      · exact List.mem_append_right _ (List.mem_singleton.mpr hdraw.symm)
    · rw [hphase] at hj
      exact List.mem_append_left _ (h.drew j sid hj)
  by_cases hdraw : c = .randomBytes
  · subst hdraw
    generalize sessionPhases P calls log i = g at hstep
    cases hstep with
    | draw data ttlSeconds hcall =>
      have hnew : ∀ j sid, (⟨j, .randomBytes, some sid⟩ : Entry ι Command Command.Reply) ∈
          log ++ [⟨i, .randomBytes, some (P.randomBytes s.draws)⟩] →
          (⟨j, .randomBytes, some sid⟩ : Entry ι Command Command.Reply) ∈ log ∨
            (j = i ∧ P.randomBytes s.draws = sid) := by
        intro j sid hmem
        rcases List.mem_append.mp hmem with hold | hlast
        · exact .inl hold
        · cases List.mem_singleton.mp hlast
          exact .inr ⟨rfl, rfl⟩
      refine ⟨hdrew, fun j sid hmem => ?_, fun j k sid hj hk => ?_⟩
      · rcases hnew j sid hmem with hold | ⟨-, rfl⟩
        · obtain ⟨n, hn, hsid⟩ := h.issued j sid hold
          exact ⟨n, Nat.lt_succ_of_lt hn, hsid⟩
        · exact ⟨s.draws, Nat.lt_succ_self _, rfl⟩
      · -- an id drawn before is another one
        have hfresh : ∀ j, (⟨j, .randomBytes, some (P.randomBytes s.draws)⟩ :
            Entry ι Command Command.Reply) ∉ log := by
          intro j hold
          obtain ⟨n, hn, hsid⟩ := h.issued j _ hold
          exact absurd (hinj hsid) (Nat.ne_of_lt hn)
        rcases hnew j sid hj with hjold | ⟨rfl, rfl⟩
        · rcases hnew k sid hk with hkold | ⟨rfl, rfl⟩
          · exact h.once j k sid hjold hkold
          · exact absurd hjold (hfresh j)
        · rcases hnew k _ hk with hkold | ⟨rfl, -⟩
          · exact absurd hkold (hfresh k)
          · rfl
  · have hsame : ∀ j sid, (⟨j, .randomBytes, some sid⟩ : Entry ι Command Command.Reply) ∈
        log ++ [⟨i, c, r⟩] → (⟨j, .randomBytes, some sid⟩ : Entry ι Command Command.Reply) ∈ log := by
      intro j sid hmem
      rcases List.mem_append.mp hmem with hold | hlast
      · exact hold
      · cases List.mem_singleton.mp hlast
        exact absurd rfl hdraw
    refine ⟨hdrew, fun j sid hmem => ?_, fun j k sid hj hk => ?_⟩
    · obtain ⟨n, hn, hsid⟩ := h.issued j sid (hsame j sid hmem)
      exact ⟨n, Nat.lt_of_lt_of_le hn (step_draws hstep), hsid⟩
    · exact h.once j k sid (hsame j sid hj) (hsame k sid hk)

omit [DecidableEq ι] in
theorem readable_iff {sid : JsString} : readable s sid = true ↔
    ∃ e, s.redis (.session sid) = some e ∧ ∀ d, e.deadline = some d → s.clock < d := by
  rw [readable, Option.isSome_iff_exists]
  constructor
  · rintro ⟨v, hv⟩
    obtain ⟨e, he, -, hlive⟩ := ExpiringStore.get_eq_some_iff.mp hv
    exact ⟨e, he, hlive⟩
  · rintro ⟨e, he, hlive⟩
    exact ⟨e.value, ExpiringStore.get_eq_some_iff.mpr ⟨e, he, rfl, hlive⟩⟩

omit [DecidableEq ι] in
theorem readable_congr {sid : JsString} (hclock : s'.clock = s.clock)
    (hredis : s'.redis (.session sid) = s.redis (.session sid)) :
    readable s' sid = readable s sid := by
  rw [readable, readable, hclock, ExpiringStore.get_congr hredis]

omit [DecidableEq ι] in
/-- A stored session stays, is deleted, or is written: by its creation, or by an
update that has read a time to live. -/
theorem step_session {call : SessionCall} {g : SessionPhase}
    (hstep : SessionStep P call s g c r s' g') (sid : JsString) :
    s'.redis (.session sid) = s.redis (.session sid) ∨
      (s'.redis (.session sid) = none ∧ ∃ keys, c = .del keys ∧ Key.session sid ∈ keys) ∨
      ∃ data ttlSeconds, ttlSeconds ≠ 0 ∧
        (⟨i, c, r⟩ : Entry ι Command Command.Reply) = ⟨i, .setSession sid data ttlSeconds, some ()⟩ ∧
        s'.redis (.session sid) = some ⟨data, some (s.clock + BffDb.milliseconds ttlSeconds)⟩ ∧
        (g = .drawn sid ∧ g' = .stored sid ∧ call = .create data ttlSeconds ∨
          ∃ ttl, g = .timed sid ttl ∧ ttlSeconds = updateTtl P ttl) := by
  have hdel : ∀ keys, (s.del keys).redis (.session sid) = s.redis (.session sid) ∨
      (s.del keys).redis (.session sid) = none ∧ Key.session sid ∈ keys := by
    intro keys
    by_cases hmem : Key.session sid ∈ keys
    · exact .inr ⟨BffDb.del_of_mem hmem, hmem⟩
    · exact .inl (BffDb.del_of_notMem hmem)
  have hgone : ∀ keys, (s.del keys).redis (.session sid) = s.redis (.session sid) ∨
      (s.del keys).redis (.session sid) = none ∧
        ∃ keys', Command.del keys = .del keys' ∧ Key.session sid ∈ keys' :=
    fun keys => (hdel keys).imp id fun h => ⟨h.1, keys, rfl, h.2⟩
  have hindex : ∀ ssoSid, Key.session sid ≠ .ssoSid ssoSid := fun _ h => by cases h
  cases hstep with
  | store sid' data ttlSeconds hcall hpos =>
    by_cases hsid : sid = sid'
    · subst hsid
      exact .inr (.inr ⟨data, ttlSeconds, hpos, rfl, BffDb.storeSession_self,
        .inl ⟨rfl, rfl, hcall⟩⟩)
    · exact .inl (BffDb.storeSession_other fun h => hsid (Key.session.inj h))
  | rewrite sid' ttl data hcall =>
    unfold BffDb.setSession
    split_ifs with hzero
    · exact .inl rfl
    · by_cases hsid : sid = sid'
      · subst hsid
        exact .inr (.inr ⟨data, updateTtl P ttl, hzero, rfl, BffDb.storeSession_self,
          .inr ⟨ttl, rfl, rfl⟩⟩)
      · exact .inl (BffDb.storeSession_other fun h => hsid (Key.session.inj h))
  | list sid' ssoSid hbound => exact .inl (BffDb.sadd_other (hindex ssoSid))
  | limit sid' ssoSid data ttlSeconds hcall => exact .inl (BffDb.expire_other (hindex ssoSid))
  | clear sids => exact (hgone _).imp id .inl
  | unindex ssoSid hrevokes => exact (hgone _).imp id .inl
  | destroy sid' => exact (hgone _).imp id .inl
  | _ => exact .inl rfl

omit [DecidableEq ι] in
theorem step_created {call : SessionCall} {g : SessionPhase} {sid : JsString}
    (hstep : SessionStep P call s g c r s' g') (h : g.created = some sid) :
    g'.created = some sid := by
  cases hstep with
  | list sid' ssoSid hbound => exact h
  | limit sid' ssoSid data ttlSeconds hcall => exact h
  | _ => cases h

omit [DecidableEq ι] in
theorem CreatedUntil.append {sid : JsString} {bound : ℤ} (h : CreatedUntil calls hist sid bound)
    (x : BffDb × Entry ι Command Command.Reply) : CreatedUntil calls (hist ++ [x]) sid bound := by
  obtain ⟨s, j, data, ttlSeconds, hmem, hrest⟩ := h
  exact ⟨s, j, data, ttlSeconds, List.mem_append_left _ hmem, hrest⟩

/-- What fits now is positive and ends before the session does. -/
theorem fits_iff {milliseconds : ℕ} {sid : JsString} {ttl : ℤ} :
    fits s milliseconds sid ttl = true ↔ ∃ e d, s.redis (.session sid) = some e ∧
      e.deadline = some d ∧ s.clock < d ∧ 0 < ttl ∧ s.clock + milliseconds + 1000 * ttl ≤ d := by
  rw [fits, Option.any_eq_true]
  constructor
  · rintro ⟨e, he, hfits⟩
    obtain ⟨hstored, hlive⟩ := ExpiringStore.visible?_eq_some_iff.mp he
    obtain ⟨d, hd, hdecide⟩ := (Option.any_eq_true ..).mp hfits
    obtain ⟨hpos, hle⟩ := of_decide_eq_true hdecide
    exact ⟨e, d, hstored, hd, hlive d hd, hpos, hle⟩
  · rintro ⟨e, d, hstored, hd, hlive, hpos, hle⟩
    refine ⟨e, ExpiringStore.visible?_eq_some_iff.mpr ⟨hstored, fun d' hd' => ?_⟩, ?_⟩
    · rw [hd] at hd'
      cases hd'
      exact hlive
    · rw [hd]
      exact decide_eq_true ⟨hpos, hle⟩

theorem Records.act (h : Records P calls hist s)
    (hstep : SessionStep P (calls i) s (sessionPhases P calls (entries hist) i) c r s' g')
    (hnext : (sessionProtocol P (calls i)).next (sessionPhases P calls (entries hist) i) c r = g')
    (hmeets : undisturbedBy P calls s (entries hist) i c) :
    Records P calls (hist ++ [(s, ⟨i, c, r⟩)]) s' := by
  have hclock := step_clock hstep
  have hcreated : ∀ j sid, (sessionPhases P calls (entries hist) j).created = some sid →
      (sessionPhases P calls (entries (hist ++ [(s, ⟨i, c, r⟩)])) j).created = some sid := by
    intro j sid hj
    rw [entries_append]
    rcases moved hnext j with ⟨rfl, hphase⟩ | ⟨-, hphase⟩
    · rw [hphase]
      exact step_created hstep hj
    · rw [hphase]
      exact hj
  refine ⟨?_, ?_, ?_, ?_⟩
  · intro sid e he
    rcases step_session (i := i) hstep sid with hsame | ⟨hnone, -⟩ | ⟨data, ttlSeconds, -, -, -, hwho⟩
    · obtain ⟨j, hj⟩ := h.known sid e (hsame ▸ he)
      exact ⟨j, hcreated j sid hj⟩
    · rw [hnone] at he
      cases he
    · rcases hwho with ⟨-, hstored, -⟩ | ⟨ttl, htimed, -⟩
      · refine ⟨i, ?_⟩
        rw [entries_append]
        rcases moved hnext i with ⟨-, hphase⟩ | ⟨hne, -⟩
        · rw [hphase, hstored]
          rfl
        · exact absurd rfl hne
      · obtain ⟨-, hread, -⟩ := h.pending i sid ttl htimed
        obtain ⟨e', he', -⟩ := readable_iff.mp hread
        obtain ⟨j, hj⟩ := h.known sid e' he'
        exact ⟨j, hcreated j sid hj⟩
  · intro sid e he
    rcases step_session (i := i) hstep sid with
      hsame | ⟨hnone, -⟩ | ⟨data, ttlSeconds, -, hentry, hwritten, hwho⟩
    · obtain ⟨d, bound, hd, huntil, hle⟩ := h.within sid e (hsame ▸ he)
      exact ⟨d, bound, hd, huntil.append _, hle⟩
    · rw [hnone] at he
      cases he
    · rw [hwritten] at he
      cases he
      rcases hwho with ⟨-, -, hcall⟩ | ⟨ttl, htimed, rfl⟩
      · refine ⟨_, _, rfl, ⟨s, i, data, ttlSeconds, ?_, hcall, rfl⟩, le_refl _⟩
        exact List.mem_append_right _ (List.mem_singleton.mpr (congrArg (Prod.mk s) hentry.symm))
      · obtain ⟨hpos, -, bound, huntil, hle⟩ := h.pending i sid ttl htimed
        refine ⟨_, bound, rfl, huntil.append _, ?_⟩
        rw [updateTtl, if_pos hpos, BffDb.milliseconds]
        omega
  · intro j data ttlSeconds hcall hsome
    rw [entries_append] at hsome
    rcases moved hnext j with ⟨rfl, hphase⟩ | ⟨-, hphase⟩
    · by_cases hbefore : (sessionPhases P calls (entries hist) j).created.isSome = true
      · exact h.positive j data ttlSeconds hcall hbefore
      · rw [hphase] at hsome
        generalize hg : sessionPhases P calls (entries hist) j = g at hstep hbefore
        cases hstep with
        | store sid data' ttlSeconds' hcall' hpos =>
          rw [hcall] at hcall'
          cases hcall'
          exact hpos
        | list sid ssoSid hbound => exact absurd rfl hbefore
        | limit sid ssoSid data' ttlSeconds' hcall' => exact absurd rfl hbefore
        | read ssoSid sids hrevokes hsids =>
          unfold SessionPhase.afterRead at hsome
          split_ifs at hsome <;> cases hsome
        | _ => cases hsome
    · rw [hphase] at hsome
      exact h.positive j data ttlSeconds hcall hsome
  · intro j sid ttl hj
    rw [entries_append] at hj
    rcases moved hnext j with ⟨rfl, hphase⟩ | ⟨-, hphase⟩
    · rw [hphase] at hj
      generalize hg : sessionPhases P calls (entries hist) j = g at hstep
      cases hstep with
      | time sid' ttl' httl =>
        cases hj
        have hfits : fits s 0 sid ttl = true := by
          rw [← httl]
          exact hmeets
        obtain ⟨e, d, he, hd, hlive, hpos, hle⟩ := fits_iff.mp hfits
        obtain ⟨d', bound, hd', huntil, hbound⟩ := h.within sid e he
        rw [hd] at hd'
        cases hd'
        refine ⟨hpos, readable_iff.mpr ⟨e, he, fun d' hd' => ?_⟩, bound, huntil.append _, ?_⟩
        · rw [hd] at hd'
          cases hd'
          exact hlive
        · have hle : s.clock + ((0 : ℕ) : ℤ) + 1000 * ttl ≤ d := hle
          omega
      | read ssoSid sids hrevokes hsids =>
        unfold SessionPhase.afterRead at hj
        split_ifs at hj
      | _ => cases hj
    · rw [hphase] at hj
      obtain ⟨hpos, hread, bound, huntil, hle⟩ := h.pending j sid ttl hj
      refine ⟨hpos, ?_, bound, huntil.append _, by rw [hclock]; exact hle⟩
      rcases step_session (i := i) hstep sid with
        hsame | ⟨-, keys, rfl, hmem⟩ | ⟨data, ttlSeconds, hseconds, -, hwritten, -⟩
      · rw [readable_congr hclock hsame]
        exact hread
      · have hkept := hmeets j
        rw [hj] at hkept
        exact absurd hmem (of_decide_eq_true hkept)
      · refine readable_iff.mpr ⟨_, hwritten, fun d hd => ?_⟩
        cases hd
        rw [hclock, BffDb.milliseconds]
        omega

/-- Only its creation makes a session readable. -/
theorem Records.readable_back (h : Records P calls hist s)
    (hstep : SessionStep P (calls i) s (sessionPhases P calls (entries hist) i) c r s' g')
    {sid : JsString} (hread : readable s' sid = true) : readable s sid = true ∨
      (sessionPhases P calls (entries hist) i = .drawn sid ∧ g' = .stored sid) := by
  rcases step_session (i := i) hstep sid with hsame | ⟨hnone, -⟩ | ⟨_, _, -, -, -, hwho⟩
  · rw [readable_congr (step_clock hstep) hsame] at hread
    exact .inl hread
  · obtain ⟨e, he, -⟩ := readable_iff.mp hread
    rw [hnone] at he
    cases he
  · rcases hwho with ⟨hdrawn, hstored, -⟩ | ⟨ttl, htimed, -⟩
    · exact .inr ⟨hdrawn, hstored⟩
    · exact .inl (h.pending i sid ttl htimed).2.1

omit [DecidableEq ι] in
theorem members_congr {ssoSid : JsString} (hclock : s'.clock = s.clock)
    (hredis : s'.redis (.ssoSid ssoSid) = s.redis (.ssoSid ssoSid)) :
    members s' ssoSid = members s ssoSid := by
  rw [members, members, hclock, ExpiringStore.get_congr hredis]

omit [DecidableEq ι] in
theorem mem_members_sadd {ssoSid sid x : JsString} (h : x = sid ∨ x ∈ members s ssoSid) :
    x ∈ members (s.sadd ssoSid sid) ssoSid := by
  have hget : members (s.sadd ssoSid sid) ssoSid = (members s ssoSid).insert sid := by
    rw [members, BffDb.sadd, ExpiringStore.get_setKeepTtl_self]
    rfl
  rw [hget]
  exact List.mem_insert_iff.mpr h

omit [DecidableEq ι] in
theorem members_expire {ssoSid : JsString} {ttlSeconds : ℕ} (hpos : ttlSeconds ≠ 0) :
    members (s.expire (.ssoSid ssoSid) ttlSeconds) ssoSid = members s ssoSid := by
  rw [members, members]
  congr 1
  cases hget : ExpiringStore.get s.redis s.clock (.ssoSid ssoSid) with
  | none =>
    have hentry : ExpiringStore.visible? s.redis s.clock (.ssoSid ssoSid) = none :=
      Option.map_eq_none_iff.mp hget
    refine ExpiringStore.get_of_none ?_ _
    rw [BffDb.expire_self, hentry, Option.map_none]
  | some sids =>
    obtain ⟨e, hentry, rfl⟩ := Option.map_eq_some_iff.mp hget
    refine ExpiringStore.get_eq_some_iff.mpr
      ⟨⟨e.value, some (s.clock + BffDb.milliseconds ttlSeconds)⟩, ?_, rfl, fun d hd => ?_⟩
    · rw [BffDb.expire_self, hentry, Option.map_some]
    · cases hd
      show s.clock < s.clock + BffDb.milliseconds ttlSeconds
      rw [BffDb.milliseconds]
      omega

omit [DecidableEq ι] in
/-- What an index lists it lists after the step, unless a revocation deletes it. -/
theorem step_members {call : SessionCall} {g : SessionPhase}
    (hstep : SessionStep P call s g c r s' g')
    (hpos : ∀ data t, call = .create data t → g.created.isSome = true → t ≠ 0) (ssoSid : JsString) :
    (∀ sid ∈ members s ssoSid, sid ∈ members s' ssoSid) ∨
      (call.revokes = some ssoSid ∧ g = .cleared) := by
  have hsame : s'.redis (.ssoSid ssoSid) = s.redis (.ssoSid ssoSid) →
      ∀ sid ∈ members s ssoSid, sid ∈ members s' ssoSid := by
    intro hredis sid hsid
    rw [members_congr (step_clock hstep) hredis]
    exact hsid
  have hsession : ∀ sid, Key.ssoSid ssoSid ≠ .session sid := fun _ h => by cases h
  cases hstep with
  | store sid data ttlSeconds hcall hzero =>
    exact .inl (hsame (BffDb.storeSession_other (hsession sid)))
  | rewrite sid ttl data hcall =>
    exact .inl (hsame (BffDb.setSession_other (hsession sid)))
  | list sid ssoSid' hbound =>
    by_cases hsso : ssoSid = ssoSid'
    · subst hsso
      exact .inl fun x hx => mem_members_sadd (.inr hx)
    · exact .inl (hsame (BffDb.sadd_other fun h => hsso (Key.ssoSid.inj h)))
  | limit sid ssoSid' data ttlSeconds hcall =>
    by_cases hsso : ssoSid = ssoSid'
    · subst hsso
      refine .inl fun x hx => ?_
      rw [members_expire (hpos data ttlSeconds hcall rfl)]
      exact hx
    · exact .inl (hsame (BffDb.expire_other fun h => hsso (Key.ssoSid.inj h)))
  | clear sids =>
    refine .inl (hsame (BffDb.del_of_notMem fun hmem => ?_))
    obtain ⟨sid, -, hsid⟩ := List.mem_map.mp hmem
    exact hsession sid hsid.symm
  | unindex ssoSid' hrevokes =>
    by_cases hsso : ssoSid = ssoSid'
    · subst hsso
      exact .inr ⟨hrevokes, rfl⟩
    · refine .inl (hsame (BffDb.del_of_notMem fun hmem => ?_))
      exact hsso (Key.ssoSid.inj (List.mem_singleton.mp hmem))
  | destroy sid =>
    refine .inl (hsame (BffDb.del_of_notMem fun hmem => ?_))
    exact hsession sid (List.mem_singleton.mp hmem)
  | _ => exact .inl (hsame rfl)

/-- Only one creation has an id. -/
theorem Ids.unique (h : Ids P calls log s) {j k : ι} {sid : JsString}
    (hj : (sessionPhases P calls log j).sid? = some sid)
    (hk : (sessionPhases P calls log k).sid? = some sid) : j = k :=
  h.once j k sid (h.drew j sid hj) (h.drew k sid hk)

omit [DecidableEq ι] in
theorem boundTo_of_revokes {call : SessionCall} {ssoSid : JsString}
    (h : call.revokes = some ssoSid) : call.boundTo = none := by
  cases call with
  | revoke ssoSid' => rfl
  | _ => cases h

theorem Index.act (h : Index P calls (entries hist) s) (hids : Ids P calls (entries hist) s)
    (hrecords : Records P calls hist s)
    (hstep : SessionStep P (calls i) s (sessionPhases P calls (entries hist) i) c r s' g')
    (hnext : (sessionProtocol P (calls i)).next (sessionPhases P calls (entries hist) i) c r = g')
    (hmeets : undisturbedBy P calls s (entries hist) i c) :
    Index P calls (entries hist ++ [⟨i, c, r⟩]) s' := by
  -- a session listed before the step and readable after it was readable before it
  have hback : ∀ j sid, sessionPhases P calls (entries hist) j = .listed sid →
      readable s' sid = true → readable s sid = true := by
    intro j sid hj hread
    rcases hrecords.readable_back hstep hread with hold | ⟨hdrawn, -⟩
    · exact hold
    · have hi : (sessionPhases P calls (entries hist) i).sid? = some sid := by rw [hdrawn]; rfl
      have hij := hids.unique hi (by rw [hj]; rfl)
      subst hij
      rw [hdrawn] at hj
      cases hj
  have hmembers := step_members hstep (fun data t => hrecords.positive i data t)
  constructor
  · intro j ssoSid sid hbound hj hread
    have hkept : sessionPhases P calls (entries hist) j = .listed sid → sid ∈ members s' ssoSid := by
      intro hold
      have hbefore := hback j sid hold hread
      rcases hmembers ssoSid with hmem | ⟨hrevokes, hcleared⟩
      · exact hmem sid (h.listed j ssoSid sid hbound hold hbefore)
      · have hin := (h.awaited i j ssoSid hrevokes (by rw [hcleared]; rfl) hbound).2 sid hold hbefore
        rw [hcleared] at hin
        cases hin
    rcases moved hnext j with ⟨rfl, hphase⟩ | ⟨-, hphase⟩
    · rw [hphase] at hj
      generalize hg : sessionPhases P calls (entries hist) j = g at hstep hkept
      cases hstep with
      | list sid' ssoSid' hbound' =>
        cases hj
        rw [hbound] at hbound'
        cases hbound'
        exact mem_members_sadd (.inl rfl)
      | limit sid' ssoSid' data ttlSeconds hcall =>
        cases hj
        exact hkept rfl
      | read ssoSid' sids hrevokes hsids =>
        unfold SessionPhase.afterRead at hj
        split_ifs at hj
      | _ => cases hj
    · exact hkept (hphase ▸ hj)
  · intro k j ssoSid hrevokes hrevoking hbound
    rcases moved hnext k with ⟨rfl, hphase⟩ | ⟨-, hphase⟩
    · -- the revocation's own step
      have hjk : j ≠ k := by
        rintro rfl
        rw [boundTo_of_revokes hrevokes] at hbound
        cases hbound
      have hj : sessionPhases P calls (entries hist ++ [⟨k, c, r⟩]) j =
          sessionPhases P calls (entries hist) j := by
        rcases moved hnext j with ⟨hjk', -⟩ | ⟨-, hj⟩
        · exact absurd hjk' hjk
        · exact hj
      rw [hphase] at hrevoking
      rw [hphase, hj]
      have hwaiting := h.awaited k j ssoSid hrevokes
      generalize hg : sessionPhases P calls (entries hist) k = g at hstep hwaiting
      cases hstep with
      | read ssoSid' sids hrevokes' hsids =>
        rw [hrevokes] at hrevokes'
        cases hrevokes'
        refine ⟨hmeets j hbound, fun sid hlisted hread => ?_⟩
        have hmem := h.listed j ssoSid sid hbound hlisted hread
        have hreads : (SessionPhase.afterRead sids).reads = sids := by
          unfold SessionPhase.afterRead
          split_ifs with hempty
          · exact hempty.symm
          · rfl
        rw [hreads, ← hsids]
        exact hmem
      | clear sids =>
        obtain ⟨hcreating, hreads⟩ := hwaiting rfl hbound
        refine ⟨hcreating, fun sid hlisted hread => ?_⟩
        have hdeleted : (s.del (sids.map .session)).redis (.session sid) = none :=
          BffDb.del_of_mem (List.mem_map_of_mem (hreads sid hlisted
            (hback j sid hlisted hread)))
        obtain ⟨e, he, -⟩ := readable_iff.mp hread
        rw [hdeleted] at he
        cases he
      | _ => cases hrevoking
    · rw [hphase] at hrevoking
      rw [hphase]
      obtain ⟨hcreating, hreads⟩ := h.awaited k j ssoSid hrevokes hrevoking hbound
      rcases moved hnext j with ⟨rfl, hj⟩ | ⟨-, hj⟩
      · -- a creation for the same SSO session is not under way
        rw [hj]
        have hback' := hback j
        generalize hg : sessionPhases P calls (entries hist) j = g at hstep hcreating hreads hback'
        cases hstep with
        | draw data ttlSeconds hcall =>
          have hquiet := hmeets k (by rw [hrevokes]; rfl) (by rw [hrevokes, hbound])
          rw [hrevoking] at hquiet
          cases hquiet
        | store sid data ttlSeconds hcall hpos => cases hcreating
        | list sid ssoSid' hbound' => cases hcreating
        | limit sid ssoSid' data ttlSeconds hcall =>
          refine ⟨rfl, fun sid' hlisted hread => ?_⟩
          cases hlisted
          exact hreads sid rfl (hback' sid rfl hread)
        | read ssoSid' sids hrevokes' hsids =>
          rw [boundTo_of_revokes hrevokes'] at hbound
          cases hbound
        | _ => exact ⟨rfl, fun _ hlisted => by cases hlisted⟩
      · rw [hj]
        exact ⟨hcreating, fun sid hlisted hread => hreads sid hlisted (hback j sid hlisted hread)⟩

omit [DecidableEq ι] in
theorem unindex_phase {call : SessionCall} {g : SessionPhase} {keys : List Key} {ssoSid : JsString}
    {r : Option Unit} (hkeys : keys = [.ssoSid ssoSid])
    (hstep : SessionStep P call s g (.del keys) r s' g') : g = .cleared := by
  cases hstep with
  | unindex ssoSid' hrevokes => rfl
  | clear sids =>
    have hmem : Key.ssoSid ssoSid ∈ sids.map Key.session := hkeys ▸ List.mem_singleton_self _
    obtain ⟨sid, -, hsid⟩ := List.mem_map.mp hmem
    cases hsid
  | destroy sid => cases hkeys

omit [DecidableEq ι] in
/-- A further command completes a revocation or revokes nothing new. -/
theorem revoked_append {sid : JsString} (h : Revoked calls (log ++ [⟨i, c, r⟩]) sid) :
    Revoked calls log sid ∨ ∃ ssoSid j, c = .del [.ssoSid ssoSid] ∧
      (calls i).revokes = some ssoSid ∧ (calls j).boundTo = some ssoSid ∧
      (⟨j, .randomBytes, some sid⟩ : Entry ι Command Command.Reply) ∈ log := by
  obtain ⟨earlier, k, ssoSid, later, j, heq, hrevokes, hbound, hdraw⟩ := h
  rcases split_append heq with ⟨rest, hrest, -⟩ | ⟨rfl, hlast, -⟩
  · exact .inl ⟨earlier, k, ssoSid, rest, j, hrest, hrevokes, hbound, hdraw⟩
  · obtain ⟨rfl, hc, -⟩ := Entry.mk.injEq .. ▸ hlast
    exact .inr ⟨ssoSid, j, hc, hrevokes, hbound, hdraw⟩

/-- When an index is deleted nothing that belongs in it can be read. -/
theorem Index.unindex (h : Index P calls (entries hist) s) (hids : Ids P calls (entries hist) s)
    (hrecords : Records P calls hist s) {ssoSid sid : JsString} {j : ι}
    (hcleared : sessionPhases P calls (entries hist) i = .cleared)
    (hrevokes : (calls i).revokes = some ssoSid) (hbound : (calls j).boundTo = some ssoSid)
    (hdraw : (⟨j, .randomBytes, some sid⟩ : Entry ι Command Command.Reply) ∈ entries hist) :
    readable s sid = false ∧ ∀ k, sessionPhases P calls (entries hist) k ≠ .drawn sid := by
  obtain ⟨hcreating, hreads⟩ := h.awaited i j ssoSid hrevokes (by rw [hcleared]; rfl) hbound
  have howner : ∀ k, (sessionPhases P calls (entries hist) k).sid? = some sid → k = j :=
    fun k hk => hids.once k j sid (hids.drew k sid hk) hdraw
  constructor
  · refine eq_false_of_ne_true fun hread => ?_
    obtain ⟨e, he, -⟩ := readable_iff.mp hread
    obtain ⟨k, hk⟩ := hrecords.known sid e he
    obtain rfl := howner k (SessionPhase.sid?_of_created hk)
    cases hphase : sessionPhases P calls (entries hist) k with
    | stored sid' =>
      rw [hphase] at hcreating
      cases hcreating
    | listed sid' =>
      rw [hphase] at hk
      cases hk
      have hin := hreads sid hphase hread
      rw [hcleared] at hin
      cases hin
    | _ =>
      rw [hphase] at hk
      cases hk
  · intro k hk
    obtain rfl := howner k (by rw [hk]; rfl)
    rw [hk] at hcreating
    cases hcreating

theorem Gone.act (h : Gone P calls (entries hist) s) (hindex : Index P calls (entries hist) s)
    (hids : Ids P calls (entries hist) s) (hrecords : Records P calls hist s)
    (hinj : Function.Injective P.randomBytes)
    (hstep : SessionStep P (calls i) s (sessionPhases P calls (entries hist) i) c r s' g')
    (hnext : (sessionProtocol P (calls i)).next (sessionPhases P calls (entries hist) i) c r = g') :
    Gone P calls (entries hist ++ [⟨i, c, r⟩]) s' := by
  intro sid hrevoked
  -- what was gone before the step, or is gone with the index it deletes
  obtain ⟨hunread, hnotdrawn, j, hdraw⟩ : readable s sid = false ∧
      (∀ k, sessionPhases P calls (entries hist) k ≠ .drawn sid) ∧
      ∃ j, (⟨j, .randomBytes, some sid⟩ : Entry ι Command Command.Reply) ∈ entries hist := by
    rcases revoked_append hrevoked with hold | ⟨ssoSid, j, rfl, hrevokes, hbound, hdraw⟩
    · obtain ⟨hunread, hnotdrawn⟩ := h sid hold
      obtain ⟨earlier, k, ssoSid, later, j, heq, -, -, hdraw⟩ := hold
      exact ⟨hunread, hnotdrawn, j, heq ▸ List.mem_append_left _ hdraw⟩
    · obtain ⟨hunread, hnotdrawn⟩ := hindex.unindex hids hrecords (unindex_phase rfl hstep)
        hrevokes hbound hdraw
      exact ⟨hunread, hnotdrawn, j, hdraw⟩
  constructor
  · refine eq_false_of_ne_true fun hread => ?_
    rcases hrecords.readable_back hstep hread with hold | ⟨hdrawn, -⟩
    · rw [hunread] at hold
      cases hold
    · exact hnotdrawn i hdrawn
  · intro k hk
    rcases moved hnext k with ⟨rfl, hphase⟩ | ⟨-, hphase⟩
    · rw [hphase] at hk
      generalize hg : sessionPhases P calls (entries hist) k = g at hstep
      cases hstep with
      | draw data ttlSeconds hcall =>
        -- an id just drawn is not one drawn before
        obtain ⟨n, hn, hsid⟩ := hids.issued j sid hdraw
        have hsame := hinj (hsid.trans (SessionPhase.drawn.inj hk).symm)
        omega
      | read ssoSid sids hrevokes hsids =>
        unfold SessionPhase.afterRead at hk
        split_ifs at hk
      | _ => cases hk
    · exact hnotdrawn k (hphase ▸ hk)

theorem Silent.act (h : Silent calls (entries hist)) (hgone : Gone P calls (entries hist) s)
    (hstep : SessionStep P (calls i) s (sessionPhases P calls (entries hist) i) c r s' g') :
    Silent calls (entries hist ++ [⟨i, c, r⟩]) := by
  intro earlier k sid reply later heq hrevoked
  rcases split_append heq with ⟨rest, hrest, -⟩ | ⟨rfl, hlast, -⟩
  · exact h earlier k sid reply rest hrest hrevoked
  · generalize sessionPhases P calls (entries hist) i = g at hstep
    cases hlast
    cases hstep with
    | look =>
      have hunread := (hgone sid hrevoked).1
      rw [readable, Option.isSome_eq_false_iff, Option.isNone_iff_eq_none] at hunread
      rw [hunread]

theorem Unrevived.act (h : Unrevived calls hist) (hrecords : Records P calls hist s)
    (hstep : SessionStep P (calls i) s (sessionPhases P calls (entries hist) i) c r s' g') :
    Unrevived calls (hist ++ [(s, ⟨i, c, r⟩)]) := by
  intro earlier s₀ k sid data ttlSeconds reply later heq hupdate
  rcases split_append heq with ⟨rest, hrest, -⟩ | ⟨rfl, hlast, -⟩
  · exact h earlier s₀ k sid data ttlSeconds reply rest hrest hupdate
  · generalize hg : sessionPhases P calls (entries hist) i = g at hstep
    cases hlast
    cases hstep with
    | store _ _ _ hcall hpos => exact absurd hcall (hupdate _ _)
    | refuse _ _ hcall => exact absurd hcall (hupdate _ _)
    | rewrite _ ttl _ hcall => exact (hrecords.pending i sid ttl hg).2.1

/-- Everything kept by a run whose steps meet the condition. -/
structure Sound (P : Primitives) (calls : ι → SessionCall)
    (hist : List (BffDb × Entry ι Command Command.Reply)) (s : BffDb) : Prop where
  ids : Ids P calls (entries hist) s
  records : Records P calls hist s
  index : Index P calls (entries hist) s
  gone : Gone P calls (entries hist) s
  silent : Silent calls (entries hist)
  unrevived : Unrevived calls hist

/-- Time passes. -/
theorem Sound.tick (h : Sound P calls hist s) {milliseconds : ℕ}
    (hmeets : (undisturbed P calls).drift s (entries hist) milliseconds) :
    Sound P calls hist { s with clock := s.clock + milliseconds } := by
  obtain ⟨hpending, hlasting⟩ := hmeets
  have hback : ∀ sid, readable { s with clock := s.clock + milliseconds } sid = true →
      readable s sid = true := by
    intro sid hread
    obtain ⟨e, he, hlive⟩ := readable_iff.mp hread
    refine readable_iff.mpr ⟨e, he, fun d hd => ?_⟩
    have hlater : s.clock + milliseconds < d := hlive d hd
    omega
  refine ⟨⟨h.ids.drew, h.ids.issued, h.ids.once⟩, ⟨h.records.known, h.records.within,
    h.records.positive, ?_⟩, ⟨?_, ?_⟩, ?_, h.silent, h.unrevived⟩
  · intro j sid ttl hj
    have hfits := hpending j
    rw [hj] at hfits
    obtain ⟨e, d, he, hd, -, hpos, hle⟩ := fits_iff.mp hfits
    obtain ⟨d', bound, hd', huntil, hbound⟩ := h.records.within sid e he
    rw [hd] at hd'
    cases hd'
    refine ⟨hpos, readable_iff.mpr ⟨e, he, fun d' hd' => ?_⟩, bound, huntil, ?_⟩
    · rw [hd] at hd'
      cases hd'
      show s.clock + milliseconds < d
      omega
    · show s.clock + milliseconds + 1000 * ttl ≤ bound
      omega
  · intro j ssoSid sid hbound hj hread
    have hmem := h.index.listed j ssoSid sid hbound hj (hback sid hread)
    have hlists := hlasting j
    rw [hj, hbound] at hlists
    have hindex : (ExpiringStore.get s.redis (s.clock + milliseconds) (.ssoSid ssoSid)).isSome =
        true := by
      rcases (Bool.or_eq_true ..).mp hlists with hunread | hindex
      · rw [Bool.not_eq_true'] at hunread
        exact absurd hread (Bool.eq_false_iff.mp hunread)
      · exact hindex
    obtain ⟨sids, hsids⟩ := Option.isSome_iff_exists.mp hindex
    have hbefore : ExpiringStore.get s.redis s.clock (.ssoSid ssoSid) = some sids :=
      ExpiringStore.get_later (by omega) hsids
    rw [members, hbefore] at hmem
    show sid ∈ (ExpiringStore.get s.redis (s.clock + milliseconds) (.ssoSid ssoSid)).getD []
    rw [hsids]
    exact hmem
  · intro r j ssoSid hrevokes hrevoking hbound
    obtain ⟨hcreating, hreads⟩ := h.index.awaited r j ssoSid hrevokes hrevoking hbound
    exact ⟨hcreating, fun sid hlisted hread => hreads sid hlisted (hback sid hread)⟩
  · intro sid hrevoked
    obtain ⟨hunread, hnotdrawn⟩ := h.gone sid hrevoked
    refine ⟨eq_false_of_ne_true fun hread => ?_, hnotdrawn⟩
    rw [hback sid hread] at hunread
    cases hunread

theorem Sound.act (h : Sound P calls hist s) (hinj : Function.Injective P.randomBytes)
    (out : Outside)
    (hok : (sessionProtocol P (calls i)).ok (sessionPhases P calls (entries hist) i) c)
    (hmeets : undisturbedBy P calls s (entries hist) i c) :
    Sound P calls (hist ++ [(s, ⟨i, c, (BffDb.perform P out c s).1⟩)])
      (BffDb.perform P out c s).2 := by
  have hstep := session_step (s := s) out hok
  have hrecords := h.records.act hstep rfl hmeets
  have hids := h.ids.act hinj hstep rfl
  have hindex := h.index.act h.ids h.records hstep rfl hmeets
  have hgone := h.gone.act h.index h.ids h.records hinj hstep rfl
  have hsilent := h.silent.act h.gone hstep
  rw [← entries_append hist (s, _)] at hids hindex hgone hsilent
  exact ⟨hids, hrecords, hindex, hgone, hsilent, h.unrevived.act h.records hstep⟩

/-- In every run whose steps meet the condition: no read after the completion of a
revocation finds a session bound to its SSO session whose creation had drawn its id
by then; every update writes a session that can still be read; and no session lives
longer than it was created to. -/
theorem logout_final (P : Primitives) (calls : ι → SessionCall)
    (hinj : Function.Injective P.randomBytes)
    {start cfg : Config ι Command Command.Reply BffDb SessionAnswer}
    {trace : List (Event (Config ι Command Command.Reply BffDb SessionAnswer) (Move ι Outside ℕ))}
    (hstart : (sessionRuns P calls).initial start)
    (hrun : Exec (sessionRuns P calls) start trace cfg)
    (hmeets : ∀ e ∈ trace, (undisturbed P calls).Meets e.before e.label) :
    Silent calls cfg.log ∧ Unrevived calls (recorded trace) ∧
      ∀ sid e, cfg.store.redis (.session sid) = some e → ∃ d bound, e.deadline = some d ∧
        CreatedUntil calls (recorded trace) sid bound ∧ d ≤ bound := by
  obtain ⟨hempty, hlog, hprograms⟩ := hstart
  have hnil : ∀ {α : Type} {first later : List α} {a : α}, [] ≠ first ++ a :: later := by
    intro α first later a heq
    simp at heq
  have hbegin : Sound P calls [] start.store := by
    refine ⟨⟨?_, ?_, ?_⟩, ⟨?_, ?_, ?_, ?_⟩, ⟨?_, ?_⟩, ?_, ?_, ?_⟩
    · intro j sid hj
      cases hj
    · intro j sid hmem
      cases hmem
    · intro j k sid hmem
      cases hmem
    · intro sid e he
      rw [hempty] at he
      cases he
    · intro sid e he
      rw [hempty] at he
      cases he
    · intro j data ttlSeconds _ hsome
      cases hsome
    · intro j sid ttl hj
      cases hj
    · intro j ssoSid sid _ hj
      cases hj
    · intro r j ssoSid _ hrevoking
      cases hrevoking
    · rintro sid ⟨earlier, r, ssoSid, later, j, heq, -⟩
      exact absurd heq hnil
    · intro earlier k sid r later heq
      exact absurd heq hnil
    · intro earlier s i sid data ttlSeconds r later heq
      exact absurd heq hnil
  obtain ⟨⟨hsound, hentries⟩, -⟩ := Server.run_recorded
    (P := fun i => sessionProtocol P (calls i)) (J := fun hist s => Sound P calls hist s)
    (fun hist s i c out h hok hmeets => h.act hinj out hok hmeets)
    (fun hist s s' milliseconds h hmeets hdrift => by
      cases hdrift
      exact h.tick hmeets)
    hrun hmeets hlog
    (fun i => by
      rw [hprograms]
      exact (calls i).program_obeys)
    hbegin
  rw [hentries]
  exact ⟨hsound.silent, hsound.unrevived, hsound.records.within⟩

end Runs

section Interleaved

instance {ι : Type} [DecidableEq ι] [Fintype ι] (P : Primitives) (calls : ι → SessionCall)
    (s : BffDb) (log : List (Entry ι Command Command.Reply)) (i : ι) (c : Command) :
    Decidable ((undisturbed P calls).act s log i c) :=
  match c with
  | .smembers _ => inferInstanceAs (Decidable (∀ _, _ = some _ → _ = false))
  | .randomBytes => inferInstanceAs (Decidable (∀ _, _ = true → _ = _ → _ = false))
  | .ttl _ => inferInstanceAs (Decidable (_ = true))
  | .del _ => inferInstanceAs (Decidable (∀ _, _ = true))
  | .setSession _ _ _ => inferInstanceAs (Decidable True)
  | .sadd _ _ => inferInstanceAs (Decidable True)
  | .expire _ _ => inferInstanceAs (Decidable True)
  | .getSession _ => inferInstanceAs (Decidable True)
  | .setSeen _ => inferInstanceAs (Decidable True)
  | .renew _ => inferInstanceAs (Decidable True)
  | .jwtVerify _ => inferInstanceAs (Decidable True)
  | .dateNow => inferInstanceAs (Decidable True)

instance {ι : Type} [DecidableEq ι] [Fintype ι] (P : Primitives) (calls : ι → SessionCall)
    (s : BffDb) (log : List (Entry ι Command Command.Reply)) (e : ℕ) :
    Decidable ((undisturbed P calls).drift s log e) :=
  inferInstanceAs (Decidable ((∀ _, _ = true) ∧ ∀ _, _ = true))

/-- The `n`-th id is `n + 1` letters long. -/
def countedIds : Primitives where
  randomBytes n := List.replicate (n + 1) 0x61
  sessionTtl := 86400
  signedEvents _ := none

theorem countedIds_injective : Function.Injective countedIds.randomBytes := by
  intro m n h
  have hlength := congrArg List.length h
  simpa [countedIds] using hlength

def portalSession (accessToken : String) : SessionData :=
  ⟨js "ann", some (js "sso"), js accessToken, 0⟩

/-- A creation, an update of its session, a logout and a read. -/
def fourCalls : Fin 4 → SessionCall
  | 0 => .create (portalSession "first") 100
  | 1 => .update (js "a") (portalSession "second")
  | 2 => .revoke (js "sso")
  | 3 => .get (js "a")

def noRenewal : Outside := ⟨fun _ => none, fun _ => none⟩

def callsOf (i : Fin 4) (count : ℕ) : List (Move (Fin 4) Outside ℕ) :=
  List.replicate count (.act i noRenewal)

def emptyRedis : BffDb := ⟨0, 0, 0, fun _ => none⟩

def fourCallsStart : Config (Fin 4) Command Command.Reply BffDb SessionAnswer :=
  ⟨emptyRedis, [], fun i => (fourCalls i).program countedIds⟩

def oneCallAfterAnother : List (Move (Fin 4) Outside ℕ) :=
  callsOf 0 4 ++ [.drift 5000] ++ callsOf 1 2 ++ callsOf 2 3 ++ callsOf 3 1

theorem logout_final_oneAfterAnother :
    ∃ start trace cfg, (sessionRuns countedIds fourCalls).initial start ∧
      Exec (sessionRuns countedIds fourCalls) start trace cfg ∧
      cfg.requests 2 = .done (.revoked 1) ∧ cfg.requests 3 = .done (.found none) ∧
      Silent fourCalls cfg.log := by
  have hrun : ((oneCallAfterAnother.foldlM ((bffServer countedIds).stepMeeting
      (undisturbed countedIds fourCalls)) fourCallsStart).any fun cfg =>
        decide ((cfg.requests 2).result? = some (.revoked 1) ∧
          (cfg.requests 3).result? = some (.found none))) = true := by
    decide +kernel
  obtain ⟨cfg, hcfg, hdone⟩ := (Option.any_eq_true ..).mp hrun
  obtain ⟨hrevoked, hfound⟩ := of_decide_eq_true hdone
  obtain ⟨trace, hexec, hmeets⟩ := Server.exec_of_moves_meeting hcfg
    (fun s => s.redis = fun _ => none) fun i => (fourCalls i).program countedIds
  have hinitial : (sessionRuns countedIds fourCalls).initial fourCallsStart := ⟨rfl, rfl, rfl⟩
  exact ⟨fourCallsStart, trace, cfg, hinitial, hexec, Prog.eq_done hrevoked, Prog.eq_done hfound,
    (logout_final countedIds fourCalls countedIds_injective hinitial hexec hmeets).1⟩

/-- An update reads the time to live before the logout and writes after it: the
session that was revoked is read again. -/
theorem revoked_session_read :
    ∃ start first mid second cfg, (sessionRuns countedIds fourCalls).initial start ∧
      Exec (sessionRuns countedIds fourCalls) start first mid ∧
      mid.requests 0 = .done (.created (js "a")) ∧ mid.requests 2 = .done (.revoked 1) ∧
      (∀ e ∈ mid.log, e.who ≠ 3) ∧ Exec (sessionRuns countedIds fourCalls) mid second cfg ∧
      cfg.requests 3 = .done (.found (some (portalSession "second"))) := by
  have hrun : (((callsOf 0 4 ++ callsOf 1 1 ++ callsOf 2 3).foldlM (bffServer countedIds).step
      fourCallsStart).any fun mid => decide ((mid.requests 0).result? = some (.created (js "a")) ∧
        (mid.requests 2).result? = some (.revoked 1) ∧ ∀ e ∈ mid.log, e.who ≠ 3) &&
      ((callsOf 1 1 ++ callsOf 3 1).foldlM (bffServer countedIds).step mid).any fun cfg =>
        decide ((cfg.requests 3).result? = some (.found (some (portalSession "second"))))) =
      true := by
    decide +kernel
  obtain ⟨mid, hmid, hboth⟩ := (Option.any_eq_true ..).mp hrun
  obtain ⟨hbefore, hafter⟩ := (Bool.and_eq_true ..).mp hboth
  obtain ⟨hcreated, hrevoked, hunread⟩ := of_decide_eq_true hbefore
  obtain ⟨cfg, hcfg, hfound⟩ := (Option.any_eq_true ..).mp hafter
  obtain ⟨first, hfirst⟩ := Server.exec_of_moves hmid (fun s => s.redis = fun _ => none)
    fun i => (fourCalls i).program countedIds
  obtain ⟨second, hsecond⟩ := Server.exec_of_moves hcfg (fun s => s.redis = fun _ => none)
    fun i => (fourCalls i).program countedIds
  exact ⟨fourCallsStart, first, mid, second, cfg, ⟨rfl, rfl, rfl⟩, hfirst, Prog.eq_done hcreated,
    Prog.eq_done hrevoked, hunread, hsecond, Prog.eq_done (of_decide_eq_true hfound)⟩

end Interleaved

end DreamSso.Bff
