import DreamSso.ResetRoutes
import DreamSso.Library.GuardedRuns
import DreamSso.Library.GuessedCodes

/-!
Emailed one-time codes. One live code per user and purpose, sealed at rest; a
resend within its five minutes returns the same code, five failed attempts kill
it. A verification reads the row, compares in memory and then writes the counter
or deletes the row.
-/
namespace DreamSso.EmailOtp

open GuessedCodes Interleaving JsStrings KeyedTables Transitions

/-- `openSecret`, which may throw, and `sealSecret` with the random bytes it draws;
`randomInt n` and `randomBytes n` are the `n`-th values drawn. -/
structure Primitives where
  openSecret : JsString → Option JsString
  sealSecret : (iv plaintext : JsString) → JsString
  randomInt : ℕ → ℕ
  randomBytes : ℕ → JsString

def OTP_TTL_SECONDS : ℕ := 300

def MAX_ATTEMPTS : ℕ := 5

def COOLDOWN_SECONDS : ℕ := 60

def DAILY_CAP : ℕ := 20

/-- A row of `email_otps`. `serial` numbers the codes in the order in which they
are generated; no program looks at it. -/
structure OtpRow where
  codeEnc : JsString
  generatedAt : ℤ
  sentAt : ℤ
  attempts : ℕ
  serial : ℕ
  deriving DecidableEq

structure LimitRow where
  firstSent : ℤ
  lastSent : ℤ
  totalSent : ℕ
  deriving DecidableEq

structure OtpDb where
  clock : ℤ
  draws : ℕ
  minted : ℕ
  emailOtps : Table (Uuid × String) OtpRow
  emailOtpLimits : Table Uuid LimitRow

/-- What the limits query returns. -/
structure LimitInfo where
  totalSent : ℕ
  expired : Bool
  sinceLast : ℕ
  dailyResetIn : ℕ

/-- What both queries of the code return; `recent` is `fresh` or `live`. -/
structure CodeInfo where
  codeEnc : JsString
  attempts : ℕ
  recent : Bool
  serial : ℕ

inductive Command
  | limits (sub : Uuid)
  | existing (sub : Uuid) (purpose : String)
  | touchSent (sub : Uuid) (purpose : String)
  | upsertCode (sub : Uuid) (purpose : String) (codeEnc : JsString)
  | countSend (sub : Uuid)
  | readCode (sub : Uuid) (purpose : String)
  | deleteCode (sub : Uuid) (purpose : String)
  | setAttempts (sub : Uuid) (purpose : String) (attempts : ℕ)
  | randomInt
  | randomBytes

abbrev Command.Reply : Command → Type
  | .limits _ => Option LimitInfo
  | .existing _ _ => Option CodeInfo
  | .touchSent _ _ => Unit
  | .upsertCode _ _ _ => Unit
  | .countSend _ => Unit
  | .readCode _ _ => Option CodeInfo
  | .deleteCode _ _ => Unit
  | .setAttempts _ _ _ => Unit
  | .randomInt => ℕ
  | .randomBytes => JsString

namespace OtpDb

def milliseconds (seconds : ℕ) : ℤ := 1000 * seconds

def day : ℤ := milliseconds (24 * 3600)

/-- `GREATEST(0, EXTRACT(EPOCH FROM …))::int` rounds to the nearest second. -/
def wholeSeconds (ms : ℤ) : ℕ := ((max 0 ms + 500) / 1000).toNat

def limitInfo (s : OtpDb) (r : LimitRow) : LimitInfo where
  totalSent := r.totalSent
  expired := decide (r.firstSent < s.clock - day)
  sinceLast := wholeSeconds (s.clock - r.lastSent)
  dailyResetIn := wholeSeconds (r.firstSent + day - s.clock)

/-- The code of the row and whether the given time lies within its validity. -/
def codeInfo (s : OtpDb) (since : OtpRow → ℤ) (r : OtpRow) : CodeInfo where
  codeEnc := r.codeEnc
  attempts := r.attempts
  recent := decide (s.clock - milliseconds OTP_TTL_SECONDS < since r)
  serial := r.serial

def update (s : OtpDb) (sub : Uuid) (purpose : String) (f : OtpRow → OtpRow) : OtpDb :=
  { s with
    emailOtps := s.emailOtps.updateWhere (fun k _ => decide (k = (sub, purpose))) fun _ => f }

/-- A generated code replaces the one before it. -/
def upsertCode (s : OtpDb) (sub : Uuid) (purpose : String) (codeEnc : JsString) : OtpDb :=
  { s with
    emailOtps := s.emailOtps.upsert (sub, purpose) ⟨codeEnc, s.clock, s.clock, 0, s.minted⟩
    minted := s.minted + 1 }

def countSend (s : OtpDb) (sub : Uuid) : OtpDb :=
  let row := match s.emailOtpLimits.find? sub with
    | none => ⟨s.clock, s.clock, 1⟩
    | some r =>
        if r.firstSent < s.clock - day then ⟨s.clock, s.clock, 1⟩
        else ⟨r.firstSent, s.clock, r.totalSent + 1⟩
  { s with emailOtpLimits := s.emailOtpLimits.upsert sub row }

def deleteCode (s : OtpDb) (sub : Uuid) (purpose : String) : OtpDb :=
  { s with emailOtps := s.emailOtps.deleteWhere fun k _ => decide (k = (sub, purpose)) }

def perform (P : Primitives) (_ : Unit) : (c : Command) → OtpDb → Option c.Reply × OtpDb
  | .limits sub, s => (some ((s.emailOtpLimits.find? sub).map s.limitInfo), s)
  | .existing sub purpose, s =>
      (some ((s.emailOtps.find? (sub, purpose)).map (s.codeInfo OtpRow.generatedAt)), s)
  | .touchSent sub purpose, s =>
      (some (), s.update sub purpose fun r => { r with sentAt := s.clock })
  | .upsertCode sub purpose codeEnc, s => (some (), s.upsertCode sub purpose codeEnc)
  | .countSend sub, s => (some (), s.countSend sub)
  | .readCode sub purpose, s =>
      (some ((s.emailOtps.find? (sub, purpose)).map (s.codeInfo OtpRow.sentAt)), s)
  | .deleteCode sub purpose, s => (some (), s.deleteCode sub purpose)
  | .setAttempts sub purpose attempts, s =>
      (some (), s.update sub purpose fun r => { r with attempts := attempts })
  | .randomInt, s => (some (P.randomInt s.draws), { s with draws := s.draws + 1 })
  | .randomBytes, s => (some (P.randomBytes s.draws), { s with draws := s.draws + 1 })

/-- Time passes. -/
def drift (milliseconds : ℕ) (s : OtpDb) : Option OtpDb :=
  some { s with clock := s.clock + milliseconds }

end OtpDb

def otpServer (P : Primitives) : Server Command Command.Reply OtpDb Unit ℕ where
  perform := OtpDb.perform P
  drift := OtpDb.drift

abbrev Handler := Prog Command Command.Reply

def await (c : Command) : Handler c.Reply := Prog.await c

/-- `n.toString().padStart(6, '0')` -/
def sixDigits (n : ℕ) : JsString :=
  List.replicate (6 - (decimal n).length) 0x30 ++ decimal n

def genCode : Handler JsString := do
  let n ← await .randomInt
  pure (sixDigits n)

/-- The limits refuse the send. -/
def refusedSend (lim : Option LimitInfo) : Option EmailOtpIssue :=
  (lim.filter fun l => !l.expired).bind fun l =>
    if DAILY_CAP ≤ l.totalSent then some (.dailyLimit l.dailyResetIn)
    else if l.sinceLast < COOLDOWN_SECONDS then some (.cooldown (COOLDOWN_SECONDS - l.sinceLast))
    else none

/-- The live code that is sent again. -/
def reusedCode (P : Primitives) (existing : Option CodeInfo) : Option JsString :=
  ((existing.filter fun r => r.recent && decide (r.attempts < MAX_ATTEMPTS)).bind fun r =>
    P.openSecret r.codeEnc).filter fun code => decide (code ≠ [])

/-- The live code with a new send time, or a fresh one. -/
def codeToSend (P : Primitives) (sub : Uuid) (purpose : String) (existing : Option CodeInfo) :
    Handler JsString :=
  match reusedCode P existing with
  | some code => do
      await (.touchSent sub purpose)
      pure code
  | none => do
      let code ← genCode
      let iv ← await .randomBytes
      await (.upsertCode sub purpose (P.sealSecret iv code))
      pure code

def issueEmailOtp (P : Primitives) (sub : Uuid) (purpose : String) : Handler EmailOtpIssue := do
  let lim ← await (.limits sub)
  match refusedSend lim with
  | some refusal => pure refusal
  | none => do
      let existing ← await (.existing sub purpose)
      let code ← codeToSend P sub purpose existing
      await (.countSend sub)
      pure (.ok code)

/-- The comparison in memory. Texts of different lengths make it throw. -/
def compareCode (stored : Option JsString) (code : JsString) : Option Bool :=
  match stored with
  | none => some false
  | some stored =>
      if isSixDigits code = false then some false
      else if byteLength stored ≠ byteLength code then none
      else some (decide (stored = code))

/-- The row is there, its code live and not yet dead from failed attempts. -/
def guessable (row : Option CodeInfo) : Option CodeInfo :=
  row.filter fun r => r.recent && decide (r.attempts < MAX_ATTEMPTS)

def verifyEmailOtp (P : Primitives) (sub : Uuid) (purpose : String) (code : JsString) :
    Handler EmailOtpCheck := do
  let found ← await (.readCode sub purpose)
  match guessable found with
  | none => pure (.invalid true)
  | some row =>
      match compareCode (P.openSecret row.codeEnc) code with
      | none => .thrown
      | some true => do
          await (.deleteCode sub purpose)
          pure .valid
      | some false => do
          let attempts := row.attempts + 1
          await (.setAttempts sub purpose attempts)
          pure (.invalid (decide (MAX_ATTEMPTS ≤ attempts)))

inductive OtpCall
  | issue
  | verify (code : JsString)
  deriving DecidableEq

inductive OtpAnswer
  | issued (result : EmailOtpIssue)
  | checked (result : EmailOtpCheck)
  deriving DecidableEq

def OtpCall.program (P : Primitives) (sub : Uuid) (purpose : String) : OtpCall → Handler OtpAnswer
  | .issue => do
      let result ← issueEmailOtp P sub purpose
      pure (.issued result)
  | .verify code => do
      let result ← verifyEmailOtp P sub purpose code
      pure (.checked result)

/-- What an issue does: it may refresh or replace the code. -/
def Command.issues (sub : Uuid) (purpose : String) : Command → Bool
  | .limits _ | .existing _ _ | .countSend _ | .randomInt | .randomBytes => true
  | .touchSent sub' purpose' => decide (sub' = sub ∧ purpose' = purpose)
  | .upsertCode sub' purpose' _ => decide (sub' = sub ∧ purpose' = purpose)
  | _ => false

/-- The guess as the row decides it. -/
def guessed (P : Primitives) (code : JsString) (found : Option CodeInfo) : Stage :=
  match guessable found with
  | none => .ended
  | some row => match compareCode (P.openSecret row.codeEnc) code with
    | none => .ended
    | some matched => .compared row.serial row.attempts matched

/-- An issue only issues; a verification reads, compares and settles its guess. -/
def otpProtocol (P : Primitives) (sub : Uuid) (purpose : String) :
    OtpCall → Protocol Command Command.Reply Stage
  | .issue => ⟨fun g _ _ => g, fun _ c => c.issues sub purpose = true⟩
  | .verify code => {
      next := fun
        | .before, .readCode _ _, some found => guessed P code found
        | .compared n _ true, .deleteCode _ _, some _ => .accepted n
        | .compared n _ false, .setAttempts _ _ _, some _ => .failed n
        | g, _, _ => g
      ok := fun
        | .before, c => c = .readCode sub purpose
        | .compared _ _ true, c => c = .deleteCode sub purpose
        | .compared _ a false, c => c = .setAttempts sub purpose (a + 1)
        | _, _ => False }

/-- A code is valid only to a request that has accepted it. -/
def otpPost (g : Stage) (a : Option OtpAnswer) : Prop :=
  a = some (.checked .valid) → ∃ n, g = .accepted n

section Program

variable {P : Primitives} {sub : Uuid} {purpose : String}

theorem codeToSend_only (existing : Option CodeInfo) :
    (codeToSend P sub purpose existing).Only fun c => c.issues sub purpose = true := by
  have hown : decide (sub = sub ∧ purpose = purpose) = true := decide_eq_true ⟨rfl, rfl⟩
  unfold codeToSend
  split
  · exact only_await_bind hown fun _ => only_done _
  · unfold genCode
    refine Prog.Only.bind (only_await_bind rfl fun _ => only_done _) fun code => ?_
    exact only_await_bind rfl fun iv => only_await_bind hown fun _ => only_done _

theorem issueEmailOtp_only :
    (issueEmailOtp P sub purpose).Only fun c => c.issues sub purpose = true := by
  unfold issueEmailOtp
  refine only_await_bind rfl fun lim => ?_
  split
  · trivial
  · refine only_await_bind rfl fun existing => (codeToSend_only existing).bind fun code => ?_
    exact only_await_bind rfl fun _ => only_done _

theorem otpPost_of_ne {g : Stage} {a : Option OtpAnswer} (h : a ≠ some (.checked .valid)) :
    otpPost g a := fun ha => absurd ha h

theorem program_obeys (call : OtpCall) :
    (otpProtocol P sub purpose call).Obeys otpPost .before (call.program P sub purpose) := by
  cases call with
  | issue =>
    refine Protocol.Obeys.only_bind issueEmailOtp_only (fun c hc => ⟨hc, fun _ => rfl⟩)
      (otpPost_of_ne fun h => by cases h) fun result => ?_
    exact otpPost_of_ne fun h => by cases h
  | verify code =>
    unfold OtpCall.program
    refine Protocol.obeys_bind.mpr (Protocol.obeys_await_bind.mpr ⟨rfl, ?_, fun found => ?_⟩)
    · exact otpPost_of_ne fun h => by cases h
    · have hphase : (otpProtocol P sub purpose (.verify code)).next .before
          (.readCode sub purpose) (some found) = guessed P code found := rfl
      rw [hphase, guessed]
      generalize guessable found = row
      cases row with
      | none => exact otpPost_of_ne fun h => by cases h
      | some row =>
        dsimp only
        generalize compareCode (P.openSecret row.codeEnc) code = result
        cases result with
        | none => exact otpPost_of_ne fun h => by cases h
        | some matched =>
          cases matched with
          | true =>
            refine Protocol.obeys_await_bind.mpr ⟨rfl, ?_, fun _ _ => ⟨_, rfl⟩⟩
            exact otpPost_of_ne fun h => by cases h
          | false =>
            refine Protocol.obeys_await_bind.mpr ⟨rfl, ?_, fun _ => ?_⟩
            · exact otpPost_of_ne fun h => by cases h
            · exact otpPost_of_ne fun h => by cases h

end Program

section Runs

variable {ι : Type} [DecidableEq ι] (P : Primitives) (sub : Uuid) (purpose : String)

/-- The code of the user and purpose with its counter. -/
def slotOf (s : OtpDb) : Slot :=
  ⟨(s.emailOtps.find? (sub, purpose)).map fun r => (r.serial, r.attempts), s.minted⟩

/-- The stored code has been numbered and has not been tried too often. -/
def wellNumbered (s : OtpDb) : Prop :=
  ∀ n a, (slotOf sub purpose s).current = some (n, a) → n < s.minted ∧ a ≤ MAX_ATTEMPTS

/-- Issue and verification requests for one user and purpose. -/
def otpRuns (calls : ι → OtpCall) :
    System (Config ι Command Command.Reply OtpDb OtpAnswer) (Move ι Unit ℕ) :=
  (otpServer P).system (wellNumbered sub purpose) fun i => (calls i).program P sub purpose

abbrev otpPhases (calls : ι → OtpCall) (log : List (Entry ι Command Command.Reply)) (i : ι) :
    Stage :=
  phases (fun i => otpProtocol P sub purpose (calls i)) (fun _ => .before) log i

/-- A verification's read, and the write of a generated code. -/
def Command.opens : Command → Bool
  | .readCode _ _ => true
  | .upsertCode _ _ _ => true
  | _ => false

/-- A code is read for a guess or replaced by a new one only when no other guess
has still to be settled. -/
def settledFirst (calls : ι → OtpCall) : Condition ι Command Command.Reply OtpDb ℕ where
  act _ log _ c :=
    c.opens = true → ∀ j, (otpPhases P sub purpose calls log j).pending = false
  drift _ _ _ := True

/-- The request has compared a guess with the `n`-th code and found no match. -/
def GuessedWrong (calls : ι → OtpCall) (log : List (Entry ι Command Command.Reply)) (n : ℕ)
    (i : ι) : Prop :=
  otpPhases P sub purpose calls log i = .failed n ∨
    ∃ a, otpPhases P sub purpose calls log i = .compared n a false

variable {P sub purpose} {calls : ι → OtpCall} {s : OtpDb}
  {log : List (Entry ι Command Command.Reply)} {i : ι} {c : Command}

omit [DecidableEq ι] in
/-- An issue leaves the code or mints one. -/
theorem slot_issue (h : c.issues sub purpose = true) :
    slotOf sub purpose (OtpDb.perform P () c s).2 = slotOf sub purpose s ∨
      c.opens = true ∧
        slotOf sub purpose (OtpDb.perform P () c s).2 = (slotOf sub purpose s).mint := by
  cases c with
  | touchSent sub' purpose' =>
    refine .inl ?_
    simp only [slotOf, OtpDb.perform, OtpDb.update, Table.find?_updateWhere, Option.map_map]
    congr 2
    funext r
    simp only [Function.comp]
    split_ifs <;> rfl
  | upsertCode sub' purpose' codeEnc =>
    obtain ⟨rfl, rfl⟩ := of_decide_eq_true h
    refine .inr ⟨rfl, ?_⟩
    simp only [slotOf, OtpDb.perform, OtpDb.upsertCode, Table.find?_upsert_self, Option.map_some,
      Slot.mint]
  | readCode sub' purpose' => cases h
  | deleteCode sub' purpose' => cases h
  | setAttempts sub' purpose' attempts => cases h
  | _ => exact .inl rfl

omit [DecidableEq ι] in
theorem slot_delete (s : OtpDb) : slotOf sub purpose (s.deleteCode sub purpose) =
    (slotOf sub purpose s).empty := by
  simp only [slotOf, OtpDb.deleteCode, Table.find?_deleteWhere, Slot.empty]
  congr 1
  cases s.emailOtps.find? (sub, purpose) <;> simp

omit [DecidableEq ι] in
theorem slot_setAttempts (s : OtpDb) (attempts : ℕ) :
    slotOf sub purpose (s.update sub purpose fun r => { r with attempts := attempts }) =
      (slotOf sub purpose s).setAttempts attempts := by
  simp only [slotOf, OtpDb.update, Table.find?_updateWhere, Slot.setAttempts, Option.map_map]
  congr 2

/-- What a guess is compared with is the code in place. -/
theorem guessed_cases (s : OtpDb) (code : JsString) :
    guessed P code ((s.emailOtps.find? (sub, purpose)).map (s.codeInfo OtpRow.sentAt)) = .ended ∨
      ∃ n a matched, guessed P code ((s.emailOtps.find? (sub, purpose)).map
          (s.codeInfo OtpRow.sentAt)) = .compared n a matched ∧
        (slotOf sub purpose s).current = some (n, a) ∧ a < MAX_ATTEMPTS := by
  cases hrow : s.emailOtps.find? (sub, purpose) with
  | none => exact .inl rfl
  | some r =>
    rw [Option.map_some, guessed, guessable]
    by_cases hlive : ((s.codeInfo OtpRow.sentAt r).recent &&
        decide (r.attempts < MAX_ATTEMPTS)) = true
    · have hguessable : (some (s.codeInfo OtpRow.sentAt r)).filter (fun r => r.recent &&
          decide (r.attempts < MAX_ATTEMPTS)) = some (s.codeInfo OtpRow.sentAt r) :=
        Option.filter_some_pos hlive
      rw [hguessable]
      dsimp only
      cases compareCode (P.openSecret (s.codeInfo OtpRow.sentAt r).codeEnc) code with
      | none => exact .inl rfl
      | some matched =>
        refine .inr ⟨r.serial, r.attempts, matched, rfl, ?_, ?_⟩
        · rw [slotOf, hrow]
          rfl
        · exact of_decide_eq_true (Bool.and_eq_true_iff.mp hlive).2
    · have hnone : (some (s.codeInfo OtpRow.sentAt r)).filter (fun r => r.recent &&
          decide (r.attempts < MAX_ATTEMPTS)) = none := Option.filter_some_neg (eq_false_of_ne_true hlive)
      rw [hnone]
      exact .inl rfl

theorem update_same {g : Stage} (v : ι → Stage) (hg : g = v i) : Function.update v i g = v := by
  rw [hg, Function.update_eq_self]

/-- Each command is a step of guessing, or does not concern the code. -/
theorem guess_step (hok : (otpProtocol P sub purpose (calls i)).ok
      (otpPhases P sub purpose calls log i) c)
    (hsettled : (settledFirst P sub purpose calls).act s log i c) :
    Step MAX_ATTEMPTS (slotOf sub purpose s) (otpPhases P sub purpose calls log)
      (slotOf sub purpose (OtpDb.perform P () c s).2)
      (otpPhases P sub purpose calls (log ++ [⟨i, c, (OtpDb.perform P () c s).1⟩])) := by
  have hphases : otpPhases P sub purpose calls (log ++ [⟨i, c, (OtpDb.perform P () c s).1⟩]) =
      Function.update (otpPhases P sub purpose calls log) i
        ((otpProtocol P sub purpose (calls i)).next (otpPhases P sub purpose calls log i) c
          (OtpDb.perform P () c s).1) := phases_append log i c _
  rw [hphases]
  cases hcall : calls i with
  | issue =>
    rw [hcall] at hok
    have hsame : (otpProtocol P sub purpose .issue).next (otpPhases P sub purpose calls log i) c
        (OtpDb.perform P () c s).1 = otpPhases P sub purpose calls log i := rfl
    rw [update_same _ hsame]
    rcases slot_issue hok with hkept | ⟨hopens, hminted⟩
    · rw [hkept]
      exact .idle
    · rw [hminted]
      exact .mint (hsettled hopens)
  | verify code =>
    rw [hcall] at hok
    cases hphase : otpPhases P sub purpose calls log i with
    | before =>
      rw [hphase] at hok
      obtain rfl : c = .readCode sub purpose := hok
      rcases @guessed_cases P sub purpose s code with hover | ⟨n, a, matched, hguess, hcur, ha⟩
      · have hstep : Step MAX_ATTEMPTS (slotOf sub purpose s) _ _ _ := .dismiss i hphase
        rw [← hover] at hstep
        exact hstep
      · have hstep : Step MAX_ATTEMPTS (slotOf sub purpose s) _ _ _ :=
          .compare i n a matched hphase hcur ha (hsettled rfl)
        rw [← hguess] at hstep
        exact hstep
    | compared n a matched =>
      rw [hphase] at hok
      cases matched with
      | true =>
        obtain rfl : c = .deleteCode sub purpose := hok
        have hstep : Step MAX_ATTEMPTS (slotOf sub purpose s) _ _ _ := .accept i n a hphase
        rw [← slot_delete] at hstep
        exact hstep
      | false =>
        obtain rfl : c = .setAttempts sub purpose (a + 1) := hok
        have hstep : Step MAX_ATTEMPTS (slotOf sub purpose s) _ _ _ := .fail i n a hphase
        rw [← slot_setAttempts] at hstep
        exact hstep
    | failed n =>
      rw [hphase] at hok
      exact hok.elim
    | accepted n =>
      rw [hphase] at hok
      exact hok.elim
    | ended =>
      rw [hphase] at hok
      exact hok.elim

/-- The guesses of a run that settles each one before the next. -/
theorem otp_run {start cfg : Config ι Command Command.Reply OtpDb OtpAnswer}
    {trace : List (Event (Config ι Command Command.Reply OtpDb OtpAnswer) (Move ι Unit ℕ))}
    (hstart : (otpRuns P sub purpose calls).initial start)
    (hrun : Exec (otpRuns P sub purpose calls) start trace cfg)
    (hsettled : ∀ e ∈ trace, (settledFirst P sub purpose calls).Meets e.before e.label) :
    Inv MAX_ATTEMPTS (slotOf sub purpose cfg.store) (otpPhases P sub purpose calls cfg.log) ∧
      ∀ i, (otpProtocol P sub purpose (calls i)).Obeys otpPost
        (otpPhases P sub purpose calls cfg.log i) (cfg.requests i) := by
  obtain ⟨hnumbered, hlog, hprograms⟩ := hstart
  have hbegin : Inv MAX_ATTEMPTS (slotOf sub purpose start.store)
      (otpPhases P sub purpose calls start.log) := by
    rw [hlog]
    exact Inv.start hnumbered
  exact Server.run_meeting (P := fun i => otpProtocol P sub purpose (calls i))
    (I := fun s log => Inv MAX_ATTEMPTS (slotOf sub purpose s) (otpPhases P sub purpose calls log))
    (fun s log i c w h hok hsettled => h.step (guess_step hok hsettled))
    (fun s s' log e h _ hdrift => by
      cases hdrift
      exact h)
    hrun hsettled
    (fun i => by
      rw [hprograms, hlog]
      exact program_obeys (calls i))
    hbegin

/-- In every run that settles a guess before the next one reads the code and
before a new code is written: each code is compared with at most five guesses that
do not match, each is accepted at most once, and a guess is settled on the very
code it was compared with, at the count it was read with. -/
theorem emailed_codes (P : Primitives) (sub : Uuid) (purpose : String) (calls : ι → OtpCall)
    {start cfg : Config ι Command Command.Reply OtpDb OtpAnswer}
    {trace : List (Event (Config ι Command Command.Reply OtpDb OtpAnswer) (Move ι Unit ℕ))}
    (hstart : (otpRuns P sub purpose calls).initial start)
    (hrun : Exec (otpRuns P sub purpose calls) start trace cfg)
    (hsettled : ∀ e ∈ trace, (settledFirst P sub purpose calls).Meets e.before e.label) :
    (∀ n, {i | GuessedWrong P sub purpose calls cfg.log n i}.encard ≤ MAX_ATTEMPTS) ∧
      (∀ i, cfg.requests i = .done (.checked .valid) →
        ∃ n, otpPhases P sub purpose calls cfg.log i = .accepted n) ∧
      (∀ i j n, otpPhases P sub purpose calls cfg.log i = .accepted n →
        otpPhases P sub purpose calls cfg.log j = .accepted n → i = j) ∧
      ∀ e ∈ trace, ∀ i w, e.label = .act i w → ∀ n a matched,
        otpPhases P sub purpose calls e.before.log i = .compared n a matched →
        ∃ row, e.before.store.emailOtps.find? (sub, purpose) = some row ∧ row.serial = n ∧
          row.attempts = a := by
  obtain ⟨hinv, hobeys⟩ := otp_run hstart hrun hsettled
  refine ⟨hinv.comparisons, fun i hvalid => ?_, hinv.once, ?_⟩
  · have hpost := hobeys i
    rw [hvalid] at hpost
    exact hpost rfl
  · intro e he i w _ n a matched hphase
    obtain ⟨first, second, heq, hfirst, -, -⟩ := hrun.split he
    have hbefore := otp_run hstart hfirst fun e' he' =>
      hsettled e' (heq ▸ List.mem_append_left _ he')
    obtain ⟨hcur, -⟩ := hbefore.1.inPlace i n a matched hphase
    obtain ⟨row, hrow, hpair⟩ := Option.map_eq_some_iff.mp hcur
    cases hpair
    exact ⟨row, hrow, rfl, rfl⟩

end Runs

section Interleaved

instance {ι : Type} [DecidableEq ι] [Fintype ι] (P : Primitives) (sub : Uuid) (purpose : String)
    (calls : ι → OtpCall) (s : OtpDb) (log : List (Entry ι Command Command.Reply)) (i : ι)
    (c : Command) : Decidable ((settledFirst P sub purpose calls).act s log i c) :=
  inferInstanceAs (Decidable (_ = true → ∀ _, _ = false))

instance {ι : Type} [DecidableEq ι] (P : Primitives) (sub : Uuid) (purpose : String)
    (calls : ι → OtpCall) (s : OtpDb) (log : List (Entry ι Command Command.Reply)) (e : ℕ) :
    Decidable ((settledFirst P sub purpose calls).drift s log e) :=
  inferInstanceAs (Decidable True)

def unsealed : Primitives where
  openSecret := some
  sealSecret _ plaintext := plaintext
  randomInt _ := 123456
  randomBytes _ := []

/-- One live code that nobody has guessed yet. -/
def oneLiveCode : OtpDb where
  clock := 0
  draws := 0
  minted := 1
  emailOtps := Table.upsert ∅ (Uuid.numbered 1, "login") ⟨js "123456", 0, 0, 0, 0⟩
  emailOtpLimits := ∅

def otpStart (calls : Bool → OtpCall) : Config Bool Command Command.Reply OtpDb OtpAnswer :=
  ⟨oneLiveCode, [], fun i => (calls i).program unsealed (Uuid.numbered 1) "login"⟩

theorem oneLiveCode_numbered : wellNumbered (Uuid.numbered 1) "login" oneLiveCode := by
  intro n a h
  have hslot : (slotOf (Uuid.numbered 1) "login" oneLiveCode).current = some (0, 0) := by decide
  rw [hslot] at h
  cases h
  decide

def wrongThenRight : Bool → OtpCall
  | false => .verify (js "000000")
  | true => .verify (js "123456")

def otpSteps (schedule : List Bool) : List (Move Bool Unit ℕ) := schedule.map fun i => .act i ()

/-- A wrong guess is settled before the right one, which is accepted. -/
theorem emailed_codes_oneAfterAnother :
    ∃ start trace cfg, (otpRuns unsealed (Uuid.numbered 1) "login" wrongThenRight).initial start ∧
      Exec (otpRuns unsealed (Uuid.numbered 1) "login" wrongThenRight) start trace cfg ∧
      cfg.requests true = .done (.checked .valid) ∧
      ∃ n, otpPhases unsealed (Uuid.numbered 1) "login" wrongThenRight cfg.log true = .accepted n := by
  have hrun : (((otpSteps [false, false, true, true]).foldlM ((otpServer unsealed).stepMeeting
      (settledFirst unsealed (Uuid.numbered 1) "login" wrongThenRight))
        (otpStart wrongThenRight)).any
      fun cfg => decide ((cfg.requests true).result? = some (.checked .valid))) = true := by
    decide +kernel
  obtain ⟨cfg, hcfg, hvalid⟩ := (Option.any_eq_true ..).mp hrun
  obtain ⟨trace, hexec, hsettled⟩ := Server.exec_of_moves_meeting hcfg
    (wellNumbered (Uuid.numbered 1) "login")
    fun i => (wrongThenRight i).program unsealed (Uuid.numbered 1) "login"
  have hinitial : (otpRuns unsealed (Uuid.numbered 1) "login" wrongThenRight).initial
      (otpStart wrongThenRight) := ⟨oneLiveCode_numbered, rfl, rfl⟩
  have hcodes := emailed_codes unsealed (Uuid.numbered 1) "login" wrongThenRight hinitial hexec
    hsettled
  have hdone := Prog.eq_done (of_decide_eq_true hvalid)
  exact ⟨otpStart wrongThenRight, trace, cfg, hinitial, hexec, hdone, hcodes.2.1 true hdone⟩

def bothRight : Bool → OtpCall := fun _ => .verify (js "123456")

/-- Two requests read one code before either deletes it, and both are valid. -/
theorem code_accepted_twice :
    ∃ start trace cfg n, (otpRuns unsealed (Uuid.numbered 1) "login" bothRight).initial start ∧
      Exec (otpRuns unsealed (Uuid.numbered 1) "login" bothRight) start trace cfg ∧
      ∀ i, cfg.requests i = .done (.checked .valid) ∧
        otpPhases unsealed (Uuid.numbered 1) "login" bothRight cfg.log i = .accepted n := by
  have hrun : (((otpSteps [false, true, false, true]).foldlM (otpServer unsealed).step
      (otpStart bothRight)).any fun cfg => decide (∀ i,
        (cfg.requests i).result? = some (.checked .valid) ∧
        otpPhases unsealed (Uuid.numbered 1) "login" bothRight cfg.log i = .accepted 0)) = true := by
    decide +kernel
  obtain ⟨cfg, hcfg, hboth⟩ := (Option.any_eq_true ..).mp hrun
  obtain ⟨trace, hexec⟩ := Server.exec_of_moves hcfg (wellNumbered (Uuid.numbered 1) "login")
    fun i => (bothRight i).program unsealed (Uuid.numbered 1) "login"
  refine ⟨otpStart bothRight, trace, cfg, 0, ⟨oneLiveCode_numbered, rfl, rfl⟩, hexec, fun i => ?_⟩
  have hi := of_decide_eq_true hboth i
  exact ⟨Prog.eq_done hi.1, hi.2⟩

end Interleaved

end DreamSso.EmailOtp
