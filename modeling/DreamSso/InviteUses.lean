import DreamSso.InviteFrames
import DreamSso.Library.GuardedRuns
import Mathlib.Data.Fintype.Prod

/-!
Invitation codes under calls that run at the same time. A completion reads its code, creates
the account and consumes the code; a start reads the code and counts a use. Each is a command
of its own, and others may be executed in between.
-/
namespace DreamSso.Registration

open Interleaving JsConversions JsStrings Transitions

section Phases

/-- What a call has of a code: its row as it was read, or an account created with it. -/
inductive InvitePhase
  | idle
  | held (code : JsString) (invite : LiveInvite)
  | created (code : JsString)
  | plain

def InvitePhase.next : InvitePhase → (c : Command) → Option c.Reply → InvitePhase
  | _, .liveInvite code, some (some invite) => .held code invite
  | .held code _, .createAccount _ _ _ _ _ _, some .committed => .created code
  | .held _ _, .createAccount _ _ _ _ _ _, _ => .idle
  | .idle, .createAccount _ _ _ _ _ _, some .committed => .plain
  | _, .consumeInvite _ _, _ => .idle
  | _, .touchInvite _, _ => .idle
  | _, .countUse _ _, _ => .idle
  | _, .voidInvite _, _ => .idle
  | g, _, _ => g

/-- Only completions create accounts, and consume the code they have created one with; a use
is counted of a row that was read below the cap. -/
def InvitePhase.Allows (completes : Bool) : InvitePhase → Command → Prop
  | g, .liveInvite _ => g = .idle
  | g, .countUse code _ => ∃ read invite, g = .held read invite ∧ code = invite.code ∧
      invite.useCount < MAX_CODE_USES
  | g, .createAccount _ _ _ _ _ _ => completes = true ∧
      (g = .idle ∨ ∃ code invite, g = .held code invite)
  | g, .consumeInvite code _ => completes = true ∧ g = .created code
  | _, .touchInvite _ => completes = false
  | g, .voidInvite _ => completes = false ∧ ∀ code, g ≠ .created code
  | _, _ => True

def inviteProtocol (completes : Bool) : Protocol Command Command.Reply InvitePhase where
  next := InvitePhase.next
  ok := InvitePhase.Allows completes

/-- The call keeps to the protocol from a phase on. -/
def KeepsInvites (completes : Bool) (g : InvitePhase) (p : Handler α) : Prop :=
  (inviteProtocol completes).Obeys (fun _ _ => True) g p

/-- Commands that have nothing to do with the row of a code. -/
def Neutral : Command → Prop
  | .link _ => True
  | .ask _ => True
  | .emailTaken _ => True
  | .duplicates _ _ => True
  | _ => False

variable {P : Primitives} {completes : Bool} {g : InvitePhase}

theorem neutral_keeps (c : Command) (hc : Neutral c) :
    (inviteProtocol completes).ok g c ∧ ∀ r, (inviteProtocol completes).next g c r = g := by
  cases c with
  | link c => exact ⟨trivial, fun r => by cases g <;> rfl⟩
  | ask q => exact ⟨trivial, fun r => by cases g <;> rfl⟩
  | emailTaken email => exact ⟨trivial, fun r => by cases g <;> rfl⟩
  | duplicates username email => exact ⟨trivial, fun r => by cases g <;> rfl⟩
  | _ => exact absurd hc id

theorem keeps_only {p : Handler α} (h : p.Only Neutral) : KeepsInvites completes g p :=
  Protocol.Obeys.of_only h neutral_keeps fun _ => trivial

theorem keeps_only_bind {p : Handler α} {f : α → Handler β} (h : p.Only Neutral)
    (hf : ∀ a, KeepsInvites completes g (f a)) : KeepsInvites completes g (p >>= f) :=
  Protocol.Obeys.only_bind h neutral_keeps trivial hf

theorem ask_only (q : Question) : (ask q).Only Neutral := only_await.mpr trivial

theorem links_only (p : Links.Handler α) : (links p).Only Neutral := by
  unfold links
  induction p with
  | done a => trivial
  | thrown => trivial
  | call c k ih => exact ⟨trivial, fun r => ih _⟩

theorem dropRemembered_only (pendingEmail : Option JsString) :
    (dropRemembered P pendingEmail).Only Neutral := by
  unfold dropRemembered
  split
  · exact links_only _
  · trivial

theorem sendLink_only (email : JsString) (code : Option JsString) (nextBackoff : ℤ) :
    (sendLink P email code nextBackoff).Only Neutral := by
  unfold sendLink
  refine (links_only _).bind fun issued => (ask_only _).bind fun sent => ?_
  split
  · trivial
  · exact (ask_only _).bind fun _ => trivial

theorem admitAddress_only (email : JsString) : (admitAddress P email).Only Neutral := by
  unfold admitAddress
  split
  · trivial
  · refine only_await_bind trivial fun taken => ?_
    split
    · exact trivial
    · refine (links_only _).bind fun pendingChange => ?_
      beta_reduce
      split
      · trivial
      · refine (ask_only _).bind fun configured => ?_
        split
        · trivial
        · refine (ask_only _).bind fun reserved => ?_
          split <;> trivial

theorem keeps_getLiveInvite {code : JsString} {f : Option LiveInvite → Handler α}
    (hnone : KeepsInvites completes .idle (f none))
    (hsome : ∀ invite, KeepsInvites completes (.held code invite) (f (some invite))) :
    KeepsInvites completes .idle (getLiveInvite code >>= f) := by
  unfold getLiveInvite
  split
  · refine Protocol.obeys_await_bind.mpr ⟨rfl, trivial, fun r => ?_⟩
    cases r with
    | none => exact hnone
    | some invite => exact hsome invite
  · exact hnone

theorem keeps_voidInvite {code : JsString} {pendingEmail : Option JsString}
    (hg : ∀ code, g ≠ .created code) {f : Unit → Handler α}
    (hf : ∀ g', KeepsInvites false g' (f ())) :
    KeepsInvites false g (voidInvite P code pendingEmail >>= f) := by
  rw [voidInvite, Prog.bind_assoc]
  refine keeps_only_bind (dropRemembered_only _) fun _ => ?_
  exact Protocol.obeys_await_bind.mpr ⟨⟨rfl, hg⟩, trivial, fun _ => hf _⟩

theorem keeps_claimInviteUse {code email : JsString} {invite : LiveInvite} {f : Use → Handler α}
    (hf : ∀ use g', KeepsInvites false g' (f use)) :
    KeepsInvites false (.held code invite) (claimInviteUse P invite email >>= f) := by
  unfold claimInviteUse
  split
  · rw [Prog.bind_assoc]
    exact Protocol.obeys_await_bind.mpr ⟨rfl, trivial, fun _ => hf _ _⟩
  · split
    · rw [Prog.bind_assoc]
      exact keeps_voidInvite (fun _ => InvitePhase.noConfusion) fun g' => hf _ g'
    · next hbelow =>
      rw [Prog.bind_assoc]
      refine keeps_only_bind (dropRemembered_only _) fun _ => ?_
      rw [Prog.bind_assoc]
      exact Protocol.obeys_await_bind.mpr
        ⟨⟨code, invite, rfl, rfl, not_le.mp hbelow⟩, trivial, fun _ => hf _ _⟩

theorem keeps_startWith {invite : Option LiveInvite} {email : JsString}
    (hg : ∀ x ∈ invite, ∃ code, g = .held code x) :
    KeepsInvites false g (startWith P invite email) := by
  unfold startWith
  refine keeps_only_bind (admitAddress_only _) fun admitted => ?_
  split
  · trivial
  · unfold claimAndSend
    split
    · exact keeps_only (sendLink_only _ _ _)
    · next x =>
      obtain ⟨code, rfl⟩ := hg x rfl
      refine keeps_claimInviteUse fun use g' => ?_
      cases use with
      | voided => exact keeps_only ((ask_only _).bind fun _ => trivial)
      | resend => exact keeps_only (sendLink_only _ _ _)
      | claimed => exact keeps_only (sendLink_only _ _ _)

theorem keeps_startRegistration (body : StartBody) :
    KeepsInvites false .idle (startRegistration P body) := by
  unfold startRegistration
  refine keeps_only_bind (ask_only _) fun assertion => ?_
  split
  · trivial
  · refine keeps_only_bind (ask_only _) fun enabled => ?_
    split
    · trivial
    · refine keeps_only_bind (ask_only _) fun needCode => ?_
      split
      · refine keeps_getLiveInvite trivial fun invite => ?_
        exact keeps_startWith fun x hx => ⟨_, by rw [Option.mem_some.mp hx]⟩
      · exact keeps_startWith nofun

/-- The code a pending registration carries. -/
def carried (pending : Links.PendingRegistration) : Option JsString :=
  pending.code.filter fun code => decide (code ≠ [])

theorem keeps_finishRegistration {pending : Links.PendingRegistration} {email : JsString}
    {sub : Uuid} (hg : ∀ code ∈ carried pending, g = .created code) :
    KeepsInvites true g (finishRegistration P pending email sub) := by
  have hrest : ∀ g', KeepsInvites true g' (do
      links (Links.dropPending P.toPrimitives email)
      let ticket ← ask (.mintLoginTicket sub)
      pure (.complete ticket) : Handler Response) := fun g' =>
    keeps_only ((links_only _).bind fun _ => (ask_only _).bind fun _ => trivial)
  unfold finishRegistration
  split
  · exact hrest g
  · next code hcode =>
    rw [hg code hcode]
    exact Protocol.obeys_await_bind.mpr ⟨⟨rfl, rfl⟩, trivial, fun _ => hrest _⟩

theorem keeps_createAndFinish {body : CompleteBody} {pending : Links.PendingRegistration}
    {role : Option JsString}
    (hg : (g = .idle ∧ carried pending = none) ∨
      ∃ code invite, g = .held code invite ∧ carried pending = some code) :
    KeepsInvites true g (createAndFinish P body pending role) := by
  unfold createAndFinish
  refine keeps_only_bind (ask_only _) fun sub => keeps_only_bind (ask_only _) fun hash => ?_
  refine Protocol.obeys_await_bind.mpr ⟨⟨rfl, ?_⟩, trivial, fun r => ?_⟩
  · exact hg.imp And.left fun ⟨code, invite, h, _⟩ => ⟨code, invite, h⟩
  · cases r with
    | duplicate => trivial
    | unavailable => trivial
    | committed =>
      refine keeps_finishRegistration fun code hcode => ?_
      obtain ⟨-, hnone⟩ | ⟨code', invite, rfl, hsome⟩ := hg
      · rw [hnone] at hcode
        cases hcode
      · rw [hsome] at hcode
        rw [← Option.some.inj hcode]
        rfl

theorem keeps_completeRegistration (body : CompleteBody) :
    KeepsInvites true .idle (completeRegistration P body) := by
  unfold completeRegistration
  refine keeps_only_bind (ask_only _) fun assertion => ?_
  split
  · trivial
  · refine keeps_only_bind (ask_only _) fun enabled => ?_
    split
    · trivial
    · refine keeps_only_bind (links_only _) fun found => ?_
      split
      · trivial
      · next pending =>
        split
        · trivial
        · refine keeps_only_bind (only_await.mpr trivial) fun taken => ?_
          split
          · trivial
          · unfold invitedRole
            split
            · next hnone => exact keeps_createAndFinish (.inl ⟨rfl, hnone⟩)
            · next code hcode =>
              rw [Prog.bind_assoc]
              refine keeps_getLiveInvite trivial fun invite => ?_
              exact keeps_createAndFinish (.inr ⟨code, invite, rfl, hcode⟩)

end Phases

section Rows

variable {P : Primitives} {out : Outside} {s : Db} {code : JsString}

/-- What one command does to the row of a code. -/
structure RowStep (c : Command) (code : JsString) (f : InviteRow → InviteRow) : Prop where
  opens : ∀ row, Db.open_ (f row) = true → Db.open_ row = true
  expires : ∀ row, (f row).expiresAt = row.expiresAt
  keeps : c ≠ .voidInvite code → (∀ sub, c ≠ .consumeInvite code sub) →
    ∀ row, Db.open_ (f row) = Db.open_ row
  closes : ∀ sub, c = .consumeInvite code sub → ∀ row, Db.open_ (f row) = false
  counts : (∀ email, c ≠ .countUse code email) → ∀ row, (f row).useCount = row.useCount
  adds : ∀ row, (f row).useCount ≤ row.useCount + 1

theorem RowStep.same {c : Command} (hc : ∀ sub, c ≠ .consumeInvite code sub) :
    RowStep c code id where
  opens _ h := h
  expires _ := rfl
  keeps _ _ _ := rfl
  closes sub h := absurd h (hc sub)
  counts _ _ := rfl
  adds _ := Nat.le_succ _

theorem updateInvite_map {matching : InviteRow → Bool} {f : InviteRow → InviteRow} :
    (s.updateInvite code matching f).invites code =
      (s.invites code).map fun row => if matching row then f row else row :=
  Function.update_self ..

theorem row_after (P : Primitives) (out : Outside) (s : Db) (c : Command) (code : JsString) :
    ∃ f, (s.perform P out c).2.invites code = (s.invites code).map f ∧ RowStep c code f := by
  have hsame : (∀ sub, c ≠ .consumeInvite code sub) →
      (s.perform P out c).2.invites code = s.invites code →
      ∃ f, (s.perform P out c).2.invites code = (s.invites code).map f ∧ RowStep c code f :=
    fun hc h => ⟨id, by rw [h, Option.map_id, id], .same hc⟩
  cases c with
  | touchInvite code' =>
    by_cases hcode : code = code'
    · subst hcode
      refine ⟨_, updateInvite_map, ⟨fun _ h => h, fun _ => rfl, fun _ _ _ => rfl, nofun,
        fun _ _ => rfl, fun _ => Nat.le_succ _⟩⟩
    · exact hsame nofun (updateInvite_other hcode)
  | countUse code' email =>
    by_cases hcode : code = code'
    · subst hcode
      refine ⟨_, updateInvite_map, ⟨fun _ h => h, fun _ => rfl, fun _ _ _ => rfl, nofun,
        fun hc => absurd rfl (hc email), fun _ => le_rfl⟩⟩
    · exact hsame nofun (updateInvite_other hcode)
  | voidInvite code' =>
    by_cases hcode : code = code'
    · subst hcode
      refine ⟨_, updateInvite_map, ⟨fun row h => ?_, fun row => ?_, fun hc => absurd rfl hc, nofun,
        fun _ row => ?_, fun row => ?_⟩⟩
      · split at h
        · next hopen => exact hopen
        · exact h
      all_goals split <;> first | rfl | exact Nat.le_succ _
    · exact hsame nofun (updateInvite_other hcode)
  | consumeInvite code' sub =>
    by_cases hcode : code = code'
    · subst hcode
      refine ⟨_, updateInvite_map, ⟨fun row h => ?_, fun row => ?_, fun _ hc => absurd rfl (hc sub),
        fun _ _ row => ?_, fun _ row => ?_, fun row => ?_⟩⟩
      · split at h
        · next hopen => exact hopen
        · exact h
      · split <;> rfl
      · split
        · simp [Db.open_]
        · next hclosed => exact Bool.not_eq_true _ ▸ hclosed
      · split <;> rfl
      · split <;> exact Nat.le_succ _
    · refine hsame (fun sub' h => hcode ?_) (updateInvite_other hcode)
      exact ((Command.consumeInvite.inj h).1).symm
  | createAccount sub username displayName email passwordHash invitedRole =>
    refine hsame nofun ?_
    show (s.createAccount P out sub username displayName email passwordHash
      invitedRole).2.invites code = _
    unfold Db.createAccount
    split_ifs <;> rfl
  | _ => exact hsame nofun rfl

theorem usable_iff {now : ℤ} {row : InviteRow} :
    Db.usable now row = true ↔ Db.open_ row = true ∧ now < row.expiresAt := by
  simp [Db.usable, Db.open_, and_assoc]

theorem clock_after (c : Command) : (s.perform P out c).2.clock = s.clock := by
  cases c with
  | link c => cases c <;> rfl
  | createAccount sub username displayName email passwordHash invitedRole =>
    show (s.createAccount P out sub username displayName email passwordHash invitedRole).2.clock = _
    unfold Db.createAccount
    split_ifs <;> rfl
  | _ => rfl

end Rows

inductive InviteCall
  | start (body : StartBody)
  | complete (body : CompleteBody)
  | void (code : JsString) (pendingEmail : Option JsString)

def InviteCall.program (P : Primitives) : InviteCall → Handler Unit
  | .start body => do
      let _ ← startRegistration P body
      pure ()
  | .complete body => do
      let _ ← completeRegistration P body
      pure ()
  | .void code pendingEmail => Registration.voidInvite P code pendingEmail

def InviteCall.completes : InviteCall → Bool
  | .complete _ => true
  | _ => false

theorem keeps_program (P : Primitives) (call : InviteCall) :
    KeepsInvites call.completes .idle (call.program P) := by
  cases call with
  | start body =>
    exact Protocol.obeys_bind.mpr ((keeps_startRegistration body).mono fun _ a _ => by
      cases a <;> trivial)
  | complete body =>
    exact Protocol.obeys_bind.mpr ((keeps_completeRegistration body).mono fun _ a _ => by
      cases a <;> trivial)
  | void code pendingEmail =>
    unfold InviteCall.program voidInvite
    refine keeps_only_bind (dropRemembered_only _) fun _ => ?_
    exact Protocol.obeys_await.mpr ⟨⟨rfl, fun _ => InvitePhase.noConfusion⟩, fun _ => trivial⟩

section Runs

variable {ι : Type} [DecidableEq ι] (calls : ι → InviteCall)

/-- Runs of any calls, from a table in which no code is over the cap. -/
def inviteRuns (P : Primitives) :
    System (Config ι Command Command.Reply Db Unit) (Move ι Outside ℕ) :=
  (registrationServer P).system
    (fun s => ∀ code row, s.invites code = some row → row.useCount ≤ MAX_CODE_USES)
    fun i => (calls i).program P

def invitePhase (log : List (Entry ι Command Command.Reply)) (i : ι) : InvitePhase :=
  phases (fun i => inviteProtocol (calls i).completes) (fun _ => .idle) log i

/-- The code an account is committed with. -/
def InvitePhase.commits : InvitePhase → (c : Command) → Option c.Reply → Option JsString
  | .held code _, .createAccount _ _ _ _ _ _, some .committed => some code
  | _, _, _ => none

/-- The codes accounts have been committed with, in their order. -/
def committedCodes (log : List (Entry ι Command Command.Reply)) : List JsString :=
  milestones (fun i => inviteProtocol (calls i).completes) (fun _ => .idle)
    InvitePhase.commits log

/-- The completion has read its code and not consumed it yet. -/
def InHand (log : List (Entry ι Command Command.Reply)) (i : ι) (code : JsString) : Prop :=
  (calls i).completes = true ∧
    ((∃ invite, invitePhase calls log i = .held code invite) ∨
      invitePhase calls log i = .created code)

def readsInvite : Command → Bool
  | .liveInvite _ => true
  | _ => false

def countsUse (code : JsString) : Command → Bool
  | .countUse code' _ => decide (code' = code)
  | _ => false

/-- A use of the code has been counted since the call has read a row. -/
def countedSince (log : List (Entry ι Command Command.Reply)) (i : ι) (code : JsString) : Bool :=
  (log.reverse.takeWhile fun e => !(decide (e.who = i) && readsInvite e.command)).any
    fun e => countsUse code e.command

/-- A completion reads its code only while no other one has it in hand; a code is voided and
expires only while no completion has read it and not created its account yet; and a use is
counted only if none has been since the row was read. -/
def apart : Condition ι Command Command.Reply Db ℕ where
  act _ log i
    | .liveInvite code => (calls i).completes = true → ∀ j, j ≠ i → ¬InHand calls log j code
    | .voidInvite code => ∀ j, (calls j).completes = true →
        ∀ invite, invitePhase calls log j ≠ .held code invite
    | .countUse code _ => countedSince log i code = false
    | _ => True
  drift s log elapsed := ∀ j, (calls j).completes = true → ∀ code invite,
    invitePhase calls log j = .held code invite →
    ∀ row, s.invites code = some row → s.clock + elapsed < row.expiresAt

/-- What holds of the codes in every state of a run. -/
structure InviteFacts (hist : List (Db × Entry ι Command Command.Reply)) (s : Db) : Prop where
  alone : ∀ i j code, InHand calls (entries hist) i code → InHand calls (entries hist) j code →
    i = j
  held : ∀ i, (calls i).completes = true → ∀ code invite,
    invitePhase calls (entries hist) i = .held code invite →
    ∃ row, s.invites code = some row ∧ Db.usable s.clock row = true
  once : (committedCodes calls (entries hist)).Nodup
  spent : ∀ code ∈ committedCodes calls (entries hist),
    (∃ i, (calls i).completes = true ∧ invitePhase calls (entries hist) i = .created code) ∨
      ∀ row, s.invites code = some row → Db.open_ row = false
  live : ∀ before x, before ++ [x] <+: hist → ∀ code,
    (invitePhase calls (entries before) x.2.who).commits x.2.command x.2.reply = some code →
    ∃ row, x.1.invites code = some row ∧ Db.usable x.1.clock row = true
  counts : ∀ code row, s.invites code = some row → row.useCount ≤ MAX_CODE_USES
  fresh : ∀ i code invite, invitePhase calls (entries hist) i = .held code invite →
    invite.code = code ∧ (countedSince (entries hist) i code = false →
      ∃ row, s.invites code = some row ∧ row.useCount = invite.useCount)

variable {calls} {P : Primitives} {out : Outside} {s : Db} {i j : ι} {c : Command} {code : JsString}
  {log : List (Entry ι Command Command.Reply)} {g : InvitePhase}
  {hist : List (Db × Entry ι Command Command.Reply)} {invite : LiveInvite}

theorem countedSince_append {e : Entry ι Command Command.Reply} :
    countedSince (log ++ [e]) i code =
      (!(decide (e.who = i) && readsInvite e.command) &&
        (countsUse code e.command || countedSince log i code)) := by
  unfold countedSince
  rw [List.reverse_append, List.reverse_singleton, List.singleton_append, List.takeWhile_cons]
  cases (!(decide (e.who = i) && readsInvite e.command)) <;> simp

theorem liveInvite_found {invite : LiveInvite} (h : s.liveInvite code = some invite) :
    invite.code = code ∧ ∃ row, s.invites code = some row ∧ Db.usable s.clock row = true ∧
      row.useCount = invite.useCount := by
  obtain ⟨row, hrow, rfl⟩ := Option.map_eq_some_iff.mp h
  obtain ⟨hfound, husable⟩ := Option.filter_eq_some_iff.mp hrow
  exact ⟨rfl, row, hfound, husable, rfl⟩

/-- A call has a code in hand because it has just read it, or had it before and has
neither voided nor consumed it. -/
theorem held_of_next {b : Bool} (hok : g.Allows b c)
    (h : g.next c (s.perform P out c).1 = .held code invite) :
    (c = .liveInvite code ∧ s.liveInvite code = some invite) ∨
      (g = .held code invite ∧ readsInvite c = false ∧ countsUse code c = false ∧
        c ≠ .voidInvite code ∧ ∀ sub, c ≠ .consumeInvite code sub) := by
  cases c with
  | liveInvite code' =>
    have hg : g = .idle := hok
    subst hg
    cases hread : s.liveInvite code' with
    | none =>
      have hreply : (s.perform P out (.liveInvite code')).1 = some none := congrArg some hread
      rw [hreply] at h
      cases h
    | some found =>
      have hreply : (s.perform P out (.liveInvite code')).1 = some (some found) :=
        congrArg some hread
      rw [hreply] at h
      obtain ⟨rfl, rfl⟩ := InvitePhase.held.inj h
      exact .inl ⟨rfl, hread⟩
  | createAccount sub username displayName email passwordHash invitedRole =>
    exfalso
    revert h
    obtain ⟨-, rfl | ⟨code', invite', rfl⟩⟩ := hok
    all_goals
      cases (s.perform P out (.createAccount sub username displayName email passwordHash
        invitedRole)).1 with
      | none => exact InvitePhase.noConfusion
      | some made => cases made <;> exact InvitePhase.noConfusion
  | touchInvite code' => cases g <;> cases h
  | countUse code' email => cases g <;> cases h
  | voidInvite code' => cases g <;> cases h
  | consumeInvite code' sub => cases g <;> cases h
  | _ =>
    refine .inr ⟨?_, rfl, rfl, nofun, nofun⟩
    cases g <;> exact h

/-- An account is committed with the code a call has read, and the code is to be consumed then. -/
theorem commits_cases {r : Option c.Reply} (h : g.commits c r = some code) :
    (∃ invite, g = .held code invite) ∧ g.next c r = .created code ∧
      ∀ b, g.Allows b c → b = true := by
  unfold InvitePhase.commits at h
  split at h
  · next code' invite sub username displayName email passwordHash invitedRole =>
    obtain rfl := Option.some.inj h
    exact ⟨⟨invite, rfl⟩, rfl, fun b hok => hok.1⟩
  · cases h

theorem created_of_next {b : Bool} {r : Option c.Reply} (hok : g.Allows b c)
    (h : g.next c r = .created code) : g = .created code ∨ g.commits c r = some code := by
  cases c with
  | createAccount sub username displayName email passwordHash invitedRole =>
    obtain ⟨-, rfl | ⟨code', invite, rfl⟩⟩ := hok
    · cases r with
      | none => cases h
      | some made => cases made <;> cases h
    · cases r with
      | none => cases h
      | some made =>
        cases made with
        | committed => exact .inr (congrArg some (InvitePhase.created.inj h))
        | duplicate => cases h
        | unavailable => cases h
  | liveInvite code' =>
    have hg : g = .idle := hok
    subst hg
    cases r with
    | none => cases h
    | some found => cases found <;> cases h
  | touchInvite code' => cases g <;> cases h
  | countUse code' email => cases g <;> cases h
  | voidInvite code' => cases g <;> cases h
  | consumeInvite code' sub => cases g <;> cases h
  | _ =>
    left
    cases g <;> exact h

/-- A code an account was created with is to be consumed until it is. -/
theorem next_of_created {r : Option c.Reply} (hok : InvitePhase.Allows true (.created code) c) :
    InvitePhase.next (.created code) c r = .created code ∨ ∃ sub, c = .consumeInvite code sub := by
  cases c with
  | consumeInvite code' sub =>
    obtain ⟨-, hcode⟩ := hok
    exact .inr ⟨sub, by rw [InvitePhase.created.inj hcode]⟩
  | createAccount sub username displayName email passwordHash invitedRole =>
    obtain ⟨-, h | ⟨code', invite, h⟩⟩ := hok <;> cases h
  | liveInvite code' => cases hok
  | touchInvite code' => cases hok
  | countUse code' email =>
    obtain ⟨read, invite, h, -⟩ := hok
    cases h
  | voidInvite code' => cases hok.1
  | _ => exact .inl rfl

/-- The commands of one call after those of a record. -/
def addEntry (P : Primitives) (out : Outside) (hist : List (Db × Entry ι Command Command.Reply))
    (s : Db) (i : ι) (c : Command) : List (Db × Entry ι Command Command.Reply) :=
  hist ++ [(s, ⟨i, c, (s.perform P out c).1⟩)]

theorem phase_cases (P : Primitives) (out : Outside) (calls : ι → InviteCall)
    (hist : List (Db × Entry ι Command Command.Reply)) (s : Db) (i : ι) (c : Command) (j : ι) :
    (j = i ∧ invitePhase calls (entries (addEntry P out hist s i c)) j =
        (invitePhase calls (entries hist) i).next c (s.perform P out c).1) ∨
      (j ≠ i ∧ invitePhase calls (entries (addEntry P out hist s i c)) j =
        invitePhase calls (entries hist) j) := by
  unfold addEntry invitePhase
  rw [entries_append]
  exact phases_cases (fun i => inviteProtocol (calls i).completes) (fun _ => .idle) (entries hist)
    i c (s.perform P out c).1 j

theorem committedCodes_after :
    committedCodes calls (entries (addEntry P out hist s i c)) =
      committedCodes calls (entries hist) ++
        ((invitePhase calls (entries hist) i).commits c (s.perform P out c).1).toList := by
  unfold addEntry committedCodes
  rw [entries_append]
  exact milestones_append ..

section Step

variable (h : InviteFacts calls hist s)
  (hok : (invitePhase calls (entries hist) i).Allows (calls i).completes c)
  (hapart : (apart calls).act s (entries hist) i c)

include hok

theorem inHand_after {k : ι} (hk : InHand calls (entries (addEntry P out hist s i c)) k code) :
    InHand calls (entries hist) k code ∨ (k = i ∧ c = .liveInvite code) := by
  obtain ⟨hcompletes, hphase⟩ := hk
  obtain ⟨rfl, hnext⟩ | ⟨-, hsame⟩ := phase_cases P out calls hist s i c k
  · rw [hnext] at hphase
    rcases hphase with ⟨invite, hheld⟩ | hcreated
    · rcases held_of_next hok hheld with ⟨hc, -⟩ | ⟨hg, -⟩
      · exact .inr ⟨rfl, hc⟩
      · exact .inl ⟨hcompletes, .inl ⟨invite, hg⟩⟩
    · rcases created_of_next hok hcreated with hg | hcommits
      · exact .inl ⟨hcompletes, .inr hg⟩
      · obtain ⟨⟨invite, hg⟩, -⟩ := commits_cases hcommits
        exact .inl ⟨hcompletes, .inl ⟨invite, hg⟩⟩
  · rw [hsame] at hphase
    exact .inl ⟨hcompletes, hphase⟩

include h hapart

theorem alone_after {k k' : ι} (hk : InHand calls (entries (addEntry P out hist s i c)) k code)
    (hk' : InHand calls (entries (addEntry P out hist s i c)) k' code) : k = k' := by
  have hread : ∀ {k k' : ι}, k = i → c = .liveInvite code → (calls i).completes = true →
      InHand calls (entries hist) k' code → k = k' := by
    intro k k' hki hc hcompletes hheld
    subst hc
    by_contra hne
    exact hapart hcompletes k' (fun h => hne (hki.trans h.symm)) hheld
  rcases inHand_after hok hk with hbefore | ⟨hki, hc⟩
  · rcases inHand_after hok hk' with hbefore' | ⟨hki', hc'⟩
    · exact h.alone k k' code hbefore hbefore'
    · exact (hread hki' hc' (hki' ▸ hk'.1) hbefore).symm
  · rcases inHand_after hok hk' with hbefore' | ⟨hki', -⟩
    · exact hread hki hc (hki ▸ hk.1) hbefore'
    · exact hki.trans hki'.symm

theorem held_after {k : ι} (hk : (calls k).completes = true)
    (hheld : invitePhase calls (entries (addEntry P out hist s i c)) k = .held code invite) :
    ∃ row, (s.perform P out c).2.invites code = some row ∧
      Db.usable (s.perform P out c).2.clock row = true := by
  have hkept : invitePhase calls (entries hist) k = .held code invite → c ≠ .voidInvite code →
      (∀ sub, c ≠ .consumeInvite code sub) → ∃ row,
        (s.perform P out c).2.invites code = some row ∧
          Db.usable (s.perform P out c).2.clock row = true := by
    intro hbefore hvoid hconsume
    obtain ⟨row, hrow, husable⟩ := h.held k hk code invite hbefore
    obtain ⟨f, hf, hstep⟩ := row_after P out s c code
    obtain ⟨hopen, hexpires⟩ := usable_iff.mp husable
    refine ⟨f row, by rw [hf, hrow, Option.map_some], usable_iff.mpr ⟨?_, ?_⟩⟩
    · rw [hstep.keeps hvoid hconsume, hopen]
    · rw [clock_after, hstep.expires]
      exact hexpires
  obtain ⟨rfl, hnext⟩ | ⟨hother, hsame⟩ := phase_cases P out calls hist s i c k
  · rw [hnext] at hheld
    rcases held_of_next hok hheld with ⟨rfl, hread⟩ | ⟨hg, -, -, hvoid, hconsume⟩
    · obtain ⟨-, row, hrow, husable, -⟩ := liveInvite_found hread
      exact ⟨row, hrow, husable⟩
    · exact hkept hg hvoid hconsume
  · rw [hsame] at hheld
    refine hkept hheld (fun hc => ?_) fun sub hc => ?_
    · subst hc
      exact hapart k hk invite hheld
    · subst hc
      obtain ⟨hcompletes, hcreated⟩ := hok
      exact hother (h.alone k i code ⟨hk, .inl ⟨invite, hheld⟩⟩ ⟨hcompletes, .inr hcreated⟩)

omit hapart in
theorem spent_after : ∀ made ∈ committedCodes calls (entries (addEntry P out hist s i c)),
    (∃ k, (calls k).completes = true ∧
      invitePhase calls (entries (addEntry P out hist s i c)) k = .created made) ∨
      ∀ row, (s.perform P out c).2.invites made = some row → Db.open_ row = false := by
  intro made hmade
  rw [committedCodes_after, List.mem_append, Option.mem_toList] at hmade
  rcases hmade with hmade | hmade
  · have hclosed : (∀ row, s.invites made = some row → Db.open_ row = false) →
        ∀ row, (s.perform P out c).2.invites made = some row → Db.open_ row = false := by
      intro hall row hrow
      obtain ⟨f, hf, hstep⟩ := row_after P out s c made
      obtain ⟨old, hold, rfl⟩ := Option.map_eq_some_iff.mp (hf ▸ hrow)
      by_contra hopen
      have hbefore := hstep.opens old (Bool.not_eq_false _ ▸ hopen)
      rw [hall old hold] at hbefore
      cases hbefore
    rcases h.spent made hmade with ⟨k, hk, hcreated⟩ | hall
    · obtain ⟨rfl, hnext⟩ | ⟨-, hsame⟩ := phase_cases P out calls hist s i c k
      · rw [hcreated] at hnext hok
        rw [hk] at hok
        rcases next_of_created (r := (s.perform P out c).1) hok with hkept | ⟨sub, rfl⟩
        · exact .inl ⟨k, hk, hnext.trans hkept⟩
        · right
          intro row hrow
          obtain ⟨f, hf, hstep⟩ := row_after P out s
            (.consumeInvite made sub) made
          obtain ⟨old, -, rfl⟩ := Option.map_eq_some_iff.mp (hf ▸ hrow)
          exact hstep.closes sub rfl old
      · exact .inl ⟨k, hk, hsame.trans hcreated⟩
    · exact .inr (hclosed hall)
  · left
    obtain ⟨-, hnext, hcompletes⟩ := commits_cases hmade
    refine ⟨i, hcompletes _ hok, ?_⟩
    · obtain ⟨-, hphase⟩ | ⟨hne, -⟩ := phase_cases P out calls hist s i c i
      · exact hphase.trans hnext
      · exact absurd rfl hne

omit hapart in
theorem once_after : (committedCodes calls (entries (addEntry P out hist s i c))).Nodup := by
  rw [committedCodes_after]
  refine List.Nodup.append h.once ?_ ?_
  · cases (invitePhase calls (entries hist) i).commits c (s.perform P out c).1 with
    | none => exact List.nodup_nil
    | some made => exact List.nodup_singleton made
  · -- A code with an account is being consumed by the completion that made it, or is not
    -- usable any more.
    intro made hmade hnew
    obtain ⟨⟨invite, hg⟩, -, hcompletes⟩ := commits_cases (Option.mem_toList.mp hnew)
    rcases h.spent made hmade with ⟨k, hk, hcreated⟩ | hclosed
    · obtain rfl := h.alone k i made ⟨hk, .inr hcreated⟩ ⟨hcompletes _ hok, .inl ⟨invite, hg⟩⟩
      rw [hg] at hcreated
      cases hcreated
    · obtain ⟨row, hrow, husable⟩ := h.held i (hcompletes _ hok) made invite hg
      have hopen := (usable_iff.mp husable).1
      rw [hclosed row hrow] at hopen
      cases hopen

omit hapart in
theorem live_after {before : List (Db × Entry ι Command Command.Reply)}
    {x : Db × Entry ι Command Command.Reply}
    (hpart : before ++ [x] <+: addEntry P out hist s i c) {made : JsString}
    (hmade : (invitePhase calls (entries before) x.2.who).commits x.2.command x.2.reply =
      some made) :
    ∃ row, x.1.invites made = some row ∧ Db.usable x.1.clock row = true := by
  rcases List.prefix_concat_iff.mp hpart with hlast | hearlier
  · obtain ⟨rfl, hx⟩ := List.append_inj' hlast rfl
    obtain rfl := List.singleton_inj.mp hx
    obtain ⟨⟨invite, hg⟩, -, hcompletes⟩ := commits_cases hmade
    exact h.held i (hcompletes _ hok) made invite hg
  · exact h.live before x hearlier made hmade

theorem fresh_after {k : ι}
    (hheld : invitePhase calls (entries (addEntry P out hist s i c)) k = .held code invite) :
    invite.code = code ∧ (countedSince (entries (addEntry P out hist s i c)) k code = false →
      ∃ row, (s.perform P out c).2.invites code = some row ∧ row.useCount = invite.useCount) := by
  have hkept : invitePhase calls (entries hist) k = .held code invite →
      (k = i → readsInvite c = false) → invite.code = code ∧
        (countedSince (entries (addEntry P out hist s i c)) k code = false →
          ∃ row, (s.perform P out c).2.invites code = some row ∧
            row.useCount = invite.useCount) := by
    intro hbefore hreads
    obtain ⟨hcode, hcount⟩ := h.fresh k code invite hbefore
    refine ⟨hcode, fun hnone => ?_⟩
    rw [addEntry, entries_append, countedSince_append] at hnone
    have hapart' : (decide (i = k) && readsInvite c) = false := by
      by_cases hki : i = k
      · rw [hreads hki.symm, Bool.and_false]
      · rw [decide_eq_false hki, Bool.false_and]
    rw [hapart', Bool.not_false, Bool.true_and, Bool.or_eq_false_iff] at hnone
    obtain ⟨row, hrow, huse⟩ := hcount hnone.2
    obtain ⟨f, hf, hstep⟩ := row_after P out s c code
    refine ⟨f row, by rw [hf, hrow, Option.map_some], ?_⟩
    rw [hstep.counts fun email hc => ?_, huse]
    have hcounts := hnone.1
    rw [hc, countsUse, decide_eq_true rfl] at hcounts
    cases hcounts
  obtain ⟨rfl, hnext⟩ | ⟨hother, hsame⟩ := phase_cases P out calls hist s i c k
  · rw [hnext] at hheld
    rcases held_of_next hok hheld with ⟨rfl, hread⟩ | ⟨hg, hreads, -⟩
    · obtain ⟨hcode, row, hrow, -, huse⟩ := liveInvite_found hread
      exact ⟨hcode, fun _ => ⟨row, hrow, huse⟩⟩
    · exact hkept hg fun _ => hreads
  · rw [hsame] at hheld
    exact hkept hheld fun hki => absurd hki hother

theorem counts_after {row : InviteRow}
    (hrow : (s.perform P out c).2.invites code = some row) : row.useCount ≤ MAX_CODE_USES := by
  obtain ⟨f, hf, hstep⟩ := row_after P out s c code
  obtain ⟨old, hold, rfl⟩ := Option.map_eq_some_iff.mp (hf ▸ hrow)
  by_cases hcount : ∃ email, c = .countUse code email
  · obtain ⟨email, rfl⟩ := hcount
    obtain ⟨read, invite, hg, hcode, hbelow⟩ := hok
    obtain ⟨hread, hfresh⟩ := h.fresh i read invite hg
    obtain rfl : code = read := hcode.trans hread
    obtain ⟨row, hrow', huse⟩ := hfresh hapart
    obtain rfl := Option.some.inj (hold.symm.trans hrow')
    exact (hstep.adds old).trans (huse ▸ hbelow)
  · rw [hstep.counts fun email hc => hcount ⟨email, hc⟩]
    exact h.counts code old hold

theorem InviteFacts.act : InviteFacts calls (addEntry P out hist s i c) (s.perform P out c).2 where
  alone _ _ _ hk hk' := alone_after h hok hapart hk hk'
  held _ hk _ _ hheld := held_after h hok hapart hk hheld
  once := once_after h hok
  spent := spent_after h hok
  live _ _ hpart _ hmade := live_after h hok hpart hmade
  counts _ _ hrow := counts_after h hok hapart hrow
  fresh _ _ _ hheld := fresh_after h hok hapart hheld

end Step

/-- Time passes while completions have codes in hand. -/
theorem InviteFacts.tick {elapsed : ℕ} (h : InviteFacts calls hist s) {s' : Db}
    (hapart : (apart calls).drift s (entries hist) elapsed) (hdrift : s.drift elapsed = some s') :
    InviteFacts calls hist s' := by
  obtain rfl := Option.some.inj hdrift
  refine ⟨h.alone, fun i hi code invite hheld => ?_, h.once, h.spent, h.live, h.counts, h.fresh⟩
  obtain ⟨row, hrow, husable⟩ := h.held i hi code invite hheld
  exact ⟨row, hrow, usable_iff.mpr
    ⟨(usable_iff.mp husable).1, hapart i hi code invite hheld row hrow⟩⟩

/-- In every run whose calls keep apart, a code makes at most one account, which is committed
while the code is usable, and at most `MAX_CODE_USES` uses of it are counted. -/
theorem invitation_codes (P : Primitives) (calls : ι → InviteCall)
    {start cfg : Config ι Command Command.Reply Db Unit}
    {trace : List (Event (Config ι Command Command.Reply Db Unit) (Move ι Outside ℕ))}
    (hinit : (inviteRuns calls P).initial start)
    (hrun : Exec (inviteRuns calls P) start trace cfg)
    (hguard : ∀ e ∈ trace, (apart calls).Meets e.before e.label) :
    (committedCodes calls (entries (recorded trace))).Nodup ∧
      (∀ before x, before ++ [x] <+: recorded trace → ∀ code,
        (invitePhase calls (entries before) x.2.who).commits x.2.command x.2.reply = some code →
        ∃ row, x.1.invites code = some row ∧ Db.usable x.1.clock row = true) ∧
      ∀ code row, cfg.store.invites code = some row → row.useCount ≤ MAX_CODE_USES := by
  obtain ⟨hcounts, hlog, hrequests⟩ := hinit
  have hphase : ∀ i, invitePhase calls [] i = .idle := fun _ => rfl
  have hbegin : InviteFacts calls [] start.store := by
    refine ⟨?_, ?_, List.nodup_nil, nofun, ?_, hcounts, ?_⟩
    · rintro i j code ⟨-, ⟨invite, h⟩ | h⟩ - <;> cases h
    · intro i _ code invite h
      cases h
    · intro before x hpart
      exact absurd (List.prefix_nil.mp hpart) (List.append_ne_nil_of_right_ne_nil _ nofun)
    · intro i code invite h
      cases h
  obtain ⟨⟨hfacts, -⟩, -⟩ := Server.run_recorded (S := registrationServer P)
    (P := fun i => inviteProtocol (calls i).completes)
    (G := apart calls) (J := fun hist s => InviteFacts calls hist s)
    (fun hist s i c w h hok hapart => by
      show InviteFacts calls (addEntry P w hist s i c) (s.perform P w c).2
      exact h.act hok hapart)
    (fun hist s s' elapsed h hapart hdrift => h.tick hapart hdrift)
    hrun hguard hlog
    (fun i => by
      rw [hrequests]
      exact keeps_program P (calls i)) hbegin
  exact ⟨hfacts.once, hfacts.live, hfacts.counts⟩

end Runs

section Computed

variable {ι : Type} [DecidableEq ι] {calls : ι → InviteCall}
  {log : List (Entry ι Command Command.Reply)} {s : Db} {i : ι} {code : JsString} {elapsed : ℕ}

def InvitePhase.reads (code : JsString) : InvitePhase → Bool
  | .held code' _ => decide (code' = code)
  | _ => false

def InvitePhase.consumes (code : JsString) : InvitePhase → Bool
  | .created code' => decide (code' = code)
  | _ => false

def InvitePhase.outlasts (s : Db) (elapsed : ℕ) : InvitePhase → Bool
  | .held code _ => (s.invites code).all fun row => decide (s.clock + elapsed < row.expiresAt)
  | _ => true

theorem reads_iff {g : InvitePhase} : g.reads code = true ↔ ∃ invite, g = .held code invite := by
  cases g <;> simp [InvitePhase.reads]

theorem consumes_iff {g : InvitePhase} : g.consumes code = true ↔ g = .created code := by
  cases g <;> simp [InvitePhase.consumes]

theorem outlasts_iff {g : InvitePhase} : g.outlasts s elapsed = true ↔
    ∀ code invite, g = .held code invite → ∀ row, s.invites code = some row →
      s.clock + elapsed < row.expiresAt := by
  cases g <;> simp [InvitePhase.outlasts, Option.all_eq_true]

instance : Decidable (InHand calls log i code) :=
  decidable_of_iff ((calls i).completes = true ∧ ((invitePhase calls log i).reads code = true ∨
    (invitePhase calls log i).consumes code = true))
    (and_congr_right fun _ => or_congr reads_iff consumes_iff)

instance [Fintype ι] (c : Command) : Decidable ((apart calls).act s log i c) :=
  match c with
  | .liveInvite code => inferInstanceAs
      (Decidable ((calls i).completes = true → ∀ j, j ≠ i → ¬InHand calls log j code))
  | .voidInvite code => decidable_of_iff
      (∀ j, (calls j).completes = true → (invitePhase calls log j).reads code = false)
      (forall_congr' fun _ => imp_congr_right fun _ => by
        rw [← Bool.not_eq_true, reads_iff]
        exact not_exists)
  | .countUse code _ => inferInstanceAs (Decidable (countedSince log i code = false))
  | .link _ | .ask _ | .touchInvite _ | .consumeInvite _ _ | .emailTaken _ | .duplicates _ _
  | .createAccount _ _ _ _ _ _ => .isTrue trivial

instance [Fintype ι] : Decidable ((apart calls).drift s log elapsed) :=
  decidable_of_iff (∀ j, (calls j).completes = true →
    (invitePhase calls log j).outlasts s elapsed = true)
    (forall_congr' fun _ => imp_congr_right fun _ => outlasts_iff)

end Computed

section Shared

/-- Two addresses start with one code, and each completes with the link it was sent. -/
def sharedCalls : Bool × Bool → InviteCall
  | (false, false) => .start ⟨js "a@b.c", js "AAAAAAAAAAAA"⟩
  | (false, true) =>
    .complete ⟨js "a@b.c", 0 :: List.replicate 32 0x61, js "ann", js "Ann", js "Secret-12345"⟩
  | (true, false) => .start ⟨js "d@e.f", js "AAAAAAAAAAAA"⟩
  | (true, true) =>
    .complete ⟨js "d@e.f", 1 :: List.replicate 32 0x61, js "bob", js "Bob", js "Secret-12345"⟩

def sharedStart : Config (Bool × Bool) Command Command.Reply Db Unit :=
  ⟨twoInvites, [], fun i => (sharedCalls i).program plainTexts⟩

theorem sharedStart_initial : (inviteRuns sharedCalls plainTexts).initial sharedStart := by
  refine ⟨fun code row hrow => ?_, rfl, rfl⟩
  have hcode : (if code = js "AAAAAAAAAAAA" ∨ code = js "BBBBBBBBBBBB" then some freshInvite
    else none) = some row := hrow
  split_ifs at hcode
  rw [← Option.some.inj hcode]
  decide

/-- The subject of the second account is another one. -/
def otherSubject : Outside where
  links := admits.links
  answer
    | .uuidv7 => Uuid.numbered 2
    | q => admits.answer q
  lockGranted := true

def sharedMoves (schedule : List (Bool × Bool)) : List (Move (Bool × Bool) Outside ℕ) :=
  schedule.map fun i => .act i (if i.1 = true then otherSubject else admits)

/-- One address starts and completes before the other starts. -/
theorem invitation_codes_oneAfterAnother :
    ∃ cfg trace, Exec (inviteRuns sharedCalls plainTexts) sharedStart trace cfg ∧
      cfg.store.accounts.length = 1 ∧
      (committedCodes sharedCalls (entries (recorded trace))).Nodup := by
  have hmoves : ((sharedMoves (List.replicate 14 (false, false) ++
      List.replicate 11 (false, true))).foldlM
      ((registrationServer plainTexts).stepMeeting (apart sharedCalls)) sharedStart).any
        (fun cfg => decide (cfg.store.accounts.length = 1)) = true := by
    decide +kernel
  obtain ⟨cfg, hcfg, hone⟩ := (Option.any_eq_true ..).mp hmoves
  obtain ⟨trace, hrun, hmeets⟩ := Server.exec_of_moves_meeting hcfg
    (fun s => ∀ code row, s.invites code = some row → row.useCount ≤ MAX_CODE_USES)
    fun i => (sharedCalls i).program plainTexts
  exact ⟨cfg, trace, hrun, of_decide_eq_true hone,
    (invitation_codes plainTexts sharedCalls sharedStart_initial hrun hmeets).1⟩

/-- The first address has its code read when the second one starts and completes: both get an
account with the same code. -/
theorem code_completed_twice :
    ∃ cfg trace, (inviteRuns sharedCalls plainTexts).initial sharedStart ∧
      Exec (inviteRuns sharedCalls plainTexts) sharedStart trace cfg ∧
      committedCodes sharedCalls (entries (recorded trace)) =
        [js "AAAAAAAAAAAA", js "AAAAAAAAAAAA"] ∧
      cfg.store.accounts.length = 2 := by
  have hmoves : ((sharedMoves (List.replicate 14 (false, false) ++ List.replicate 5 (false, true) ++
      List.replicate 15 (true, false) ++ List.replicate 11 (true, true) ++
      List.replicate 6 (false, true))).foldlM
        (registrationServer plainTexts).stepRecorded (sharedStart, [])).any (fun so =>
          decide (committedCodes sharedCalls (entries so.2) =
            [js "AAAAAAAAAAAA", js "AAAAAAAAAAAA"]) &&
          decide (so.1.store.accounts.length = 2)) = true := by
    decide +kernel
  obtain ⟨⟨cfg, hist⟩, hcfg, hboth⟩ := (Option.any_eq_true ..).mp hmoves
  rw [Bool.and_eq_true] at hboth
  obtain ⟨trace, hrun, rfl⟩ := Server.exec_of_moves_recorded hcfg
    (fun s => ∀ code row, s.invites code = some row → row.useCount ≤ MAX_CODE_USES)
    fun i => (sharedCalls i).program plainTexts
  exact ⟨cfg, trace, sharedStart_initial, hrun, of_decide_eq_true hboth.1,
    of_decide_eq_true hboth.2⟩

end Shared

end DreamSso.Registration
