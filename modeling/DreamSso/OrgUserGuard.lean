import DreamSso.AppRoleCeiling
import DreamSso.Library.TableCounts
import DreamSso.OrgUserRoutes
import DreamSso.SsoFrames

/-!
The guard of the admin routes and the writes behind it. A route reads the levels of actor and
target and writes with later statements; a role transaction that commits in between can
overtake what it has read.
-/
namespace DreamSso.OrgUsers

open Interleaving JsStrings KeyedTables Transitions

section Rows

/-- The rows of one user. -/
structure UserRows where
  identity : Option Identity
  columns : LoginColumns
  sessions : List (Uuid × SessionRow)
  totpCredentials : List (Uuid × TotpRow)
  webauthnCredentials : List (Uuid × PasskeyRow)
  deriving DecidableEq

def userRows (s : Sso) (sub : Uuid) : UserRows where
  identity := s.db.identities.find? sub
  columns := s.columnsOf sub
  sessions := s.sessions.rows.filter fun r => decide (r.2.userSub = sub)
  totpCredentials := s.totpCredentials.rows.filter fun r => decide (r.2.userSub = sub)
  webauthnCredentials := s.webauthnCredentials.rows.filter fun r => decide (r.2.userSub = sub)

/-- The command writes no rows of a user other than the target. -/
def concerns (target : Uuid) : Command → Prop
  | .ask _ => True
  | .emailTaken _ _ => True
  | .usernameTaken _ _ => True
  | .getdel _ => True
  | .enqueueLogout _ _ _ => True
  | .updateProfile sub _ => sub = target
  | .removeAvatar sub => sub = target
  | .setPassword sub _ => sub = target
  | .setMfaEnabled sub _ => sub = target
  | .setStatus sub _ => sub = target
  | .deleteTotp sub => sub = target
  | .deletePasskeys sub => sub = target
  | .deleteSessions (.ofUser sub) => sub = target
  | .deleteSessions (.one _ sub) => sub = target
  | _ => False

variable {P : Primitives} {out : Outside} {s : Sso} {sub target other : Uuid} {c : Command}

theorem userRows_updateIdentity (hother : other ≠ sub) (f : Identity → Identity) :
    userRows (s.updateIdentity sub f) other = userRows s other := by
  have hfind : (s.updateIdentity sub f).db.identities.find? other =
      s.db.identities.find? other := by
    show (s.db.identities.updateWhere _ _).find? other = _
    rw [Table.find?_updateWhere]
    cases s.db.identities.find? other with
    | none => rfl
    | some i => simp [hother]
  rw [userRows, hfind]
  rfl

theorem userRows_setColumns (hother : other ≠ sub) (f : LoginColumns → LoginColumns) :
    userRows (s.setColumns sub f) other = userRows s other := by
  have hcolumns : (s.setColumns sub f).columnsOf other = s.columnsOf other :=
    congrArg (fun columns : Option LoginColumns => columns.getD ⟨false, none⟩)
      (Table.find?_upsert_ne s.loginColumns (f (s.columnsOf sub)) hother)
  rw [userRows, hcolumns]
  rfl

/-- What concerns one user keeps the rows of every other. -/
theorem userRows_perform (hc : concerns target c) (hother : other ≠ target) :
    userRows (Sso.perform P out c s).2 other = userRows s other := by
  cases c with
  | updateProfile sub changes =>
    obtain rfl : sub = target := hc
    simp only [Sso.perform, Sso.updateProfile]
    split_ifs
    · rfl
    · rfl
    · exact userRows_updateIdentity hother _
  | removeAvatar sub =>
    obtain rfl : sub = target := hc
    exact userRows_setColumns hother _
  | setPassword sub hash =>
    obtain rfl : sub = target := hc
    exact userRows_updateIdentity hother _
  | setMfaEnabled sub enabled =>
    obtain rfl : sub = target := hc
    exact userRows_setColumns hother _
  | setStatus sub status =>
    obtain rfl : sub = target := hc
    exact userRows_updateIdentity hother _
  | deleteTotp sub =>
    obtain rfl : sub = target := hc
    simp only [userRows, Sso.perform, Sso.deleteTotp]
    rw [Table.filter_deleteWhere _ _ fun _ v h => decide_eq_false fun howner =>
      hother (howner.symm.trans (of_decide_eq_true h))]
    rfl
  | deletePasskeys sub =>
    obtain rfl : sub = target := hc
    simp only [userRows, Sso.perform, Sso.deletePasskeys]
    rw [Table.filter_deleteWhere _ _ fun _ v h => decide_eq_false fun howner =>
      hother (howner.symm.trans (of_decide_eq_true h))]
    rfl
  | deleteSessions filter =>
    have hnames : ∀ sid (r : SessionRow), filter.names sid r = true → r.userSub = target := by
      intro sid r h
      cases filter with
      | ofUser sub => exact (of_decide_eq_true h).trans hc
      | one text sub => exact (of_decide_eq_true (Bool.and_eq_true_iff.mp h).2).trans hc
      | ofUserExcept sub keep => cases hc
      | expired idle max transient => cases hc
    simp only [userRows, Sso.perform]
    rw [Table.filter_deleteWhere _ _ fun sid r h => decide_eq_false fun howner =>
      hother (howner.symm.trans (hnames sid r h))]
    rfl
  | enqueueLogout clientId sub sid =>
    simp only [Sso.perform, Sso.enqueueLogout]
    split <;> rfl
  | ask q => rfl
  | emailTaken email except => rfl
  | usernameTaken username except => rfl
  | getdel k => rfl
  | _ => cases hc

/-- Org roles are changed by role transactions alone. -/
theorem orgRoleOf_perform (hc : ∀ transaction, c ≠ .roleTransaction transaction) (sub : Uuid) :
    orgRoleOf (Sso.perform P out c s).2.db sub = orgRoleOf s.db sub := by
  cases c with
  | roleTransaction transaction => exact absurd rfl (hc transaction)
  | updateProfile sub' changes =>
    simp only [Sso.perform, Sso.updateProfile]
    split_ifs <;> rfl
  | insertSession session =>
    simp only [Sso.perform]
    split <;> rfl
  | persistSession sid tokenHash =>
    simp only [Sso.perform]
    split_ifs <;> rfl
  | enqueueLogout clientId sub' sid =>
    simp only [Sso.perform, Sso.enqueueLogout]
    split <;> rfl
  | _ => rfl

end Rows

/-- How far a mutation has come with the guard: it has read the actor's level, or admitted a
target. -/
inductive GuardPhase
  | before
  | judging (level : ℤ)
  | admitted (target : Uuid)
  deriving DecidableEq

/-- Only an admitted target's rows are written. Without an actor the call is a role
transaction. -/
def guardProtocol (actor : Option Uuid) : Protocol Command Command.Reply GuardPhase where
  next
    | .before, .orgRoleRow _, some role => .judging (levelOf role)
    | .judging level, .targetRow _, some (some t) =>
        if actor ≠ some t.sub ∧ level < levelOf t.role then .admitted t.sub else .judging level
    | g, _, _ => g
  ok
    | .before, .ask _ => True
    | .before, .orgRoleRow sub => actor = some sub
    | .before, .roleTransaction _ => actor = none
    | .judging _, c => c.plain = true
    | .admitted target, c => concerns target c
    | _, _ => False

section Routes

variable {sub target actor : Uuid} {a : ActorCtx} {t : TargetRow}

theorem concerns_fanOutLogout (target sub : Uuid) (sid : JsString) (clients : List ClientId) :
    (fanOutLogout sub sid clients).Only (concerns target) := by
  induction clients with
  | nil => trivial
  | cons clientId rest ih => exact (only_attempt.mpr (only_await.mpr trivial)).bind fun _ => ih

theorem concerns_fanOutAll (target : Uuid) (revoked : List RevokedSession) :
    (fanOutAll revoked).Only (concerns target) := by
  induction revoked with
  | nil => trivial
  | cons r rest ih => exact (concerns_fanOutLogout target ..).bind fun _ => ih

theorem concerns_revokeAllSessions (sub : Uuid) :
    (revokeAllSessions sub).Only (concerns sub) :=
  only_await_bind rfl fun revoked => concerns_fanOutAll sub revoked

theorem concerns_profileField (key : String) (value : Option JsString)
    {check : JsString → Handler (Option OrgResponse)}
    (hcheck : ∀ v, (check v).Only (concerns target)) :
    (profileField a key value check).Only (concerns target) := by
  unfold profileField
  split
  · trivial
  · split_ifs
    · refine (hcheck _).bind fun refusal => ?_
      cases refusal <;> trivial
    · trivial

theorem concerns_checkDisplayName (v : JsString) :
    (checkDisplayName v).Only (concerns target) := by
  unfold checkDisplayName
  split_ifs <;> trivial

theorem concerns_checkEmail (sub : Uuid) (v : JsString) :
    (checkEmail sub v).Only (concerns target) := by
  unfold checkEmail
  split_ifs
  · trivial
  · trivial
  refine Prog.Only.bind (only_await_bind trivial fun taken => ?_) fun inUse => ?_
  · cases taken
    · exact only_await.mpr trivial
    · trivial
  · cases inUse <;> trivial

theorem concerns_checkUsername (sub : Uuid) (v : JsString) :
    (checkUsername sub v).Only (concerns target) := by
  unfold checkUsername
  split_ifs
  · trivial
  refine only_await_bind trivial fun taken => ?_
  cases taken <;> trivial

theorem concerns_patchUser (body : ProfileBody) :
    (patchUser body a t).Only (concerns t.sub) := by
  unfold patchUser
  refine (concerns_profileField _ _ concerns_checkDisplayName).bind fun displayName => ?_
  cases displayName with
  | error refusal => trivial
  | ok displayName =>
    refine (concerns_profileField _ _ (concerns_checkEmail _)).bind fun email => ?_
    cases email with
    | error refusal => trivial
    | ok email =>
      refine (concerns_profileField _ _ (concerns_checkUsername _)).bind fun username => ?_
      cases username with
      | error refusal => trivial
      | ok username =>
        show Prog.Only _ (if _ then _ else _)
        split_ifs
        · trivial
        · refine only_await_bind rfl fun write => ?_
          cases write <;> trivial

theorem concerns_resetMfa (actionToken : JsString) (passkeysFirst : Bool) :
    (resetMfa actionToken passkeysFirst a t).Only (concerns t.sub) := by
  refine Prog.Only.bind ?_ fun cleared => ?_
  · refine Prog.Only.bind (only_await_bind trivial fun _ => trivial) fun required => ?_
    split_ifs
    · exact only_await_bind trivial fun _ => trivial
    · trivial
  · split_ifs
    · trivial
    · refine Prog.Only.bind ?_ fun _ => only_await_bind rfl fun _ => trivial
      cases passkeysFirst with
      | false => exact only_await_bind rfl fun _ => only_await_bind rfl fun _ => trivial
      | true => exact only_await_bind rfl fun _ => only_await_bind rfl fun _ => trivial

theorem concerns_terminateSession (a : ActorCtx) (sid : JsString) :
    (terminateSession sid a t).Only (concerns t.sub) := by
  unfold terminateSession
  split
  · trivial
  · refine only_await_bind rfl fun revoked => ?_
    cases revoked with
    | nil => trivial
    | cons r rest => exact (concerns_fanOutLogout t.sub ..).bind fun _ => trivial

/-- Whatever a route does behind the guard concerns its target. -/
theorem concerns_work (edit : UserEdit) : (edit.work a t).Only (concerns t.sub) := by
  cases edit with
  | patchUser body => exact concerns_patchUser body
  | deleteAvatar =>
    show (deleteAvatar a t).Only _
    unfold deleteAvatar
    split_ifs
    · exact only_await_bind rfl fun _ => trivial
    · trivial
  | setPassword password =>
    show (setPassword password a t).Only _
    unfold setPassword
    split
    · trivial
    · exact only_await_bind trivial fun _ => only_await_bind rfl fun _ =>
        (concerns_revokeAllSessions t.sub).bind fun _ => trivial
  | disableMfa => exact only_await_bind rfl fun _ => trivial
  | resetMfa actionToken passkeysFirst => exact concerns_resetMfa actionToken passkeysFirst
  | terminateSession sid => exact concerns_terminateSession a sid
  | terminateAll => exact (concerns_revokeAllSessions t.sub).bind fun _ => trivial
  | suspend =>
    exact only_await_bind rfl fun _ => (concerns_revokeAllSessions t.sub).bind fun _ => trivial
  | reactivate => exact only_await_bind rfl fun _ => trivial

theorem work_obeys (edit : UserEdit) :
    (guardProtocol (some actor)).Obeys (fun _ _ => True) (.admitted t.sub) (edit.work a t) :=
  Protocol.Obeys.of_only (concerns_work edit) (fun _ hc => ⟨hc, fun _ => rfl⟩) fun _ => trivial

/-- The guard and what follows it. -/
theorem guarded_obeys (sub : JsString) (edit : UserEdit) :
    (guardProtocol (some actor)).Obeys (fun _ _ => True) .before (do
      match ← editableTarget actor sub with
      | none => pure (.error 404 "not_found")
      | some (a, t) => edit.work a t) := by
  unfold editableTarget actorCtx
  refine Protocol.obeys_bind.mpr (Protocol.obeys_bind.mpr ?_)
  refine Protocol.obeys_await_bind.mpr ⟨rfl, trivial, fun role => ?_⟩
  change Option (Slug × OrgRole) at role
  change Protocol.Obeys _ _ (GuardPhase.judging (levelOf role)) _
  refine Protocol.obeys_await_bind.mpr ⟨rfl, trivial, fun roleEffect => ?_⟩
  refine Protocol.obeys_await_bind.mpr ⟨rfl, trivial, fun override => ?_⟩
  refine Protocol.obeys_await_bind.mpr ⟨rfl, trivial, fun label => ?_⟩
  show Protocol.Obeys _ _ (GuardPhase.judging (levelOf role)) (if _ then _ else _)
  split_ifs
  · trivial
  cases Uuid.parse? sub with
  | none => trivial
  | some sub =>
    refine Protocol.obeys_await_bind.mpr ⟨rfl, trivial, fun found => ?_⟩
    change Option TargetRow at found
    cases found with
    | none => trivial
    | some t =>
      show Protocol.Obeys _ _ _ (if _ then _ else _)
      split_ifs with hrefused
      · trivial
      · have hadmitted : (guardProtocol (some actor)).next (.judging (levelOf role))
            (.targetRow sub) (some (some t)) = .admitted t.sub :=
          if_pos ⟨fun h => hrefused (.inl (Option.some.inj h).symm),
            not_le.mp fun h => hrefused (.inr h)⟩
        rw [hadmitted]
        exact work_obeys edit

theorem handle_obeys (edit : UserEdit) (sub : JsString) :
    (guardProtocol (some actor)).Obeys (fun _ _ => True) .before (edit.handle actor sub) := by
  have hask : edit.denied.Only fun c => ∃ q, c = .ask q := by
    unfold UserEdit.denied
    cases edit.permission with
    | none => trivial
    | some permission => exact only_await_bind ⟨_, rfl⟩ fun _ => trivial
  unfold UserEdit.handle
  refine Protocol.Obeys.only_bind hask ?_ trivial fun denied => ?_
  · rintro c ⟨q, rfl⟩
    exact ⟨trivial, fun _ => rfl⟩
  cases denied with
  | some permission => trivial
  | none =>
    refine Protocol.obeys_await_bind.mpr ⟨trivial, trivial, fun fresh => ?_⟩
    cases fresh with
    | false => trivial
    | true => exact guarded_obeys sub edit

theorem program_obeys (call : OrgCall) :
    (guardProtocol call.actor).Obeys (fun _ _ => True) .before call.program := by
  cases call with
  | mutate edit actor sub =>
    refine Protocol.obeys_bind.mpr ((handle_obeys edit sub).mono fun _ response _ => ?_)
    cases response <;> trivial
  | role transaction => exact Protocol.obeys_await_bind.mpr ⟨rfl, trivial, fun _ => trivial⟩

end Routes

section Runs

variable {ι : Type} [DecidableEq ι] (P : Primitives) (calls : ι → OrgCall)

/-- Mutations of users and role transactions, any number of each. -/
def orgRuns : System (Config ι Command Command.Reply Sso (Option OrgResponse))
    (Move ι Outside Sso.Drift) :=
  (ssoServer P).system (fun _ => True) fun i => (calls i).program

abbrev guardPhases (log : List (Entry ι Command Command.Reply)) (i : ι) : GuardPhase :=
  phases (fun i => guardProtocol (calls i).actor) (fun _ => .before) log i

/-- The actor has become less privileged, or an admitted target more. -/
def GuardPhase.overtakenBy (actor : Uuid) (before after : Db) : GuardPhase → Bool
  | .before => false
  | .judging _ => decide (levelOf (orgRoleOf before actor) < levelOf (orgRoleOf after actor))
  | .admitted target =>
      decide (levelOf (orgRoleOf before actor) < levelOf (orgRoleOf after actor)) ||
        decide (levelOf (orgRoleOf after target) < levelOf (orgRoleOf before target))

/-- What the guard of a mutation has established still holds. -/
def GuardPhase.Stands (actor : Uuid) (db : Db) : GuardPhase → Prop
  | .before => True
  | .judging level => levelOf (orgRoleOf db actor) ≤ level
  | .admitted target =>
      target ≠ actor ∧ levelOf (orgRoleOf db actor) < levelOf (orgRoleOf db target)

/-- The command is a role transaction that overtakes the mutation. -/
def overtakes (hist : List (Sso × Entry ι Command Command.Reply))
    (x : Sso × Entry ι Command Command.Reply) (i : ι) : Bool :=
  match (calls i).actor, x.2.command with
  | some actor, .roleTransaction transaction =>
      (guardPhases calls (entries hist) i).overtakenBy actor x.1.db
        (transaction.commit P.sha256 x.1.db)
  | _, _ => false

/-- A role transaction has overtaken the mutation. -/
def overtaken (hist : List (Sso × Entry ι Command Command.Reply)) (i : ι) : Bool :=
  (List.range hist.length).any fun n => (hist[n]?).any fun x => overtakes P calls (hist.take n) x i

variable {P calls} {hist : List (Sso × Entry ι Command Command.Reply)}
  {x : Sso × Entry ι Command Command.Reply} {s : Sso} {out : Outside} {i : ι} {c : Command}
  {actor : Uuid} {g : GuardPhase} {db db' : Db}

theorem overtaken_append : overtaken P calls (hist ++ [x]) i =
    (overtaken P calls hist i || overtakes P calls hist x i) := by
  have hearlier : ∀ n ∈ List.range hist.length, ((hist ++ [x])[n]?).any
      (fun y => overtakes P calls ((hist ++ [x]).take n) y i) =
        (hist[n]?).any fun y => overtakes P calls (hist.take n) y i := by
    intro n hn
    have hlt : n < hist.length := List.mem_range.mp hn
    rw [List.getElem?_append_left hlt, List.take_append_of_le_length hlt.le]
  rw [overtaken, List.length_append, List.length_singleton, List.range_succ, List.any_append]
  congr 1
  · rw [overtaken, Bool.eq_iff_iff, List.any_eq_true, List.any_eq_true]
    exact exists_congr fun n => and_congr_right fun hn => by rw [hearlier n hn]
  · simp

theorem GuardPhase.Stands.of_levels (h : g.Stands actor db)
    (hlevels : ∀ sub, orgRoleOf db' sub = orgRoleOf db sub) : g.Stands actor db' := by
  cases g with
  | before => trivial
  | judging level =>
    show levelOf (orgRoleOf db' actor) ≤ level
    rw [hlevels]
    exact h
  | admitted target =>
    refine ⟨h.1, ?_⟩
    rw [hlevels, hlevels]
    exact h.2

/-- A change of roles that does not overtake the mutation leaves its guard standing. -/
theorem GuardPhase.Stands.of_change (h : g.Stands actor db) (hkept : g.overtakenBy actor db db' = false) :
    g.Stands actor db' := by
  cases g with
  | before => trivial
  | judging level => exact (not_lt.mp (of_decide_eq_false hkept)).trans h
  | admitted target =>
    obtain ⟨hactor, htarget⟩ := Bool.or_eq_false_iff.mp hkept
    refine ⟨h.1, ?_⟩
    calc levelOf (orgRoleOf db' actor)
        ≤ levelOf (orgRoleOf db actor) := not_lt.mp (of_decide_eq_false hactor)
      _ < levelOf (orgRoleOf db target) := h.2
      _ ≤ levelOf (orgRoleOf db' target) := not_lt.mp (of_decide_eq_false htarget)

theorem targetRow?_role {sub : Uuid} {t : TargetRow} (h : s.targetRow? sub = some t) :
    t.role = orgRoleOf s.db t.sub := by
  obtain ⟨row, hrow, rfl⟩ := Option.map_eq_some_iff.mp h
  obtain ⟨identity, -, rfl⟩ := Option.map_eq_some_iff.mp hrow
  rfl

/-- What the mutation's own command reads stands. -/
theorem GuardPhase.Stands.next (h : g.Stands actor s.db) (hok : (guardProtocol (some actor)).ok g c) :
    ((guardProtocol (some actor)).next g c (Sso.perform P out c s).1).Stands actor s.db := by
  cases g with
  | before =>
    cases c with
    | orgRoleRow sub =>
      obtain rfl : actor = sub := Option.some.inj hok
      exact le_refl _
    | ask q => exact h
    | _ => cases hok
  | judging level =>
    cases c with
    | targetRow sub =>
      show GuardPhase.Stands actor s.db ((guardProtocol (some actor)).next (.judging level)
        (.targetRow sub) (some (s.targetRow? sub)))
      cases hrow : s.targetRow? sub with
      | none => exact h
      | some t =>
        have hrole : t.role = orgRoleOf s.db t.sub := targetRow?_role hrow
        by_cases hadmits : some actor ≠ some t.sub ∧ level < levelOf t.role
        · have hnext : (guardProtocol (some actor)).next (.judging level) (.targetRow sub)
              (some (some t)) = .admitted t.sub := if_pos hadmits
          rw [hnext]
          refine ⟨fun hself => hadmits.1 (congrArg some hself.symm), ?_⟩
          rw [← hrole]
          exact lt_of_le_of_lt h hadmits.2
        · have hnext : (guardProtocol (some actor)).next (.judging level) (.targetRow sub)
              (some (some t)) = .judging level := if_neg hadmits
          rw [hnext]
          exact h
    | _ => exact h
  | admitted target => exact h

/-- A mutation that no role transaction has overtaken rests on a guard that stands. -/
def Guarded (calls : ι → OrgCall) (P : Primitives)
    (hist : List (Sso × Entry ι Command Command.Reply)) (s : Sso) : Prop :=
  ∀ i actor, (calls i).actor = some actor → overtaken P calls hist i = false →
    (guardPhases calls (entries hist) i).Stands actor s.db

/-- A mutation issues no role transactions. -/
theorem not_roleTransaction (hok : (guardProtocol (some actor)).ok g c)
    (transaction : RoleTransaction) : c ≠ .roleTransaction transaction := by
  rintro rfl
  cases g with
  | before => cases hok
  | judging level => cases hok
  | admitted target => exact hok

theorem Guarded.act (h : Guarded calls P hist s)
    (hok : (guardProtocol (calls i).actor).ok (guardPhases calls (entries hist) i) c) :
    Guarded calls P (hist ++ [(s, ⟨i, c, (Sso.perform P out c s).1⟩)])
      (Sso.perform P out c s).2 := by
  intro j actor hj hkept
  rw [overtaken_append, Bool.or_eq_false_iff] at hkept
  obtain ⟨hbefore, hkept⟩ := hkept
  have hstands := h j actor hj hbefore
  rw [entries_append]
  rcases phases_cases (fun i => guardProtocol (calls i).actor) (fun _ => GuardPhase.before)
    (entries hist) i c (Sso.perform P out c s).1 j with ⟨rfl, hphase⟩ | ⟨hother, hphase⟩
  · -- its own command
    rw [hj] at hok
    rw [guardPhases, hphase, hj]
    exact (hstands.next hok).of_levels
      (orgRoleOf_perform (not_roleTransaction hok))
  · rw [guardPhases, hphase]
    by_cases hrole : ∃ transaction, c = .roleTransaction transaction
    · obtain ⟨transaction, rfl⟩ := hrole
      simp only [overtakes, hj] at hkept
      exact hstands.of_change hkept
    · exact hstands.of_levels
        (orgRoleOf_perform fun transaction hc => hrole ⟨transaction, hc⟩)

theorem Guarded.drift {s' : Sso} {e : Sso.Drift} (h : Guarded calls P hist s)
    (he : Sso.drift e s = some s') : Guarded calls P hist s' := by
  have hlevels : ∀ sub, orgRoleOf s'.db sub = orgRoleOf s.db sub := by
    cases e with
    | tick ms =>
      cases he
      exact fun _ => rfl
    | settle index succeeds =>
      simp only [Sso.drift] at he
      split at he
      · cases he
      · cases he
        cases succeeds <;> exact fun _ => rfl
  exact fun i actor hi hkept => (h i actor hi hkept).of_levels hlevels

/-- Only an admitted target's rows change at a mutation's command. -/
theorem admitted_of_changed {sub : Uuid} (hok : (guardProtocol (some actor)).ok g c)
    (hchanged : userRows (Sso.perform P out c s).2 sub ≠ userRows s sub) : g = .admitted sub := by
  cases g with
  | before =>
    cases c with
    | ask q => exact absurd rfl hchanged
    | orgRoleRow sub' => exact absurd rfl hchanged
    | _ => cases hok
  | judging level =>
    rw [Sso.perform_plain hok] at hchanged
    exact absurd rfl hchanged
  | admitted target =>
    by_contra hother
    exact hchanged (userRows_perform hok fun h => hother (congrArg _ h.symm))

/-- A mutation that no role transaction has overtaken since it read the levels changes rows
only of a user strictly below its actor, and never the actor's own. -/
theorem guard_holds_at_write (P : Primitives) (calls : ι → OrgCall)
    {start cfg cfg' : Config ι Command Command.Reply Sso (Option OrgResponse)}
    {trace : List (Event (Config ι Command Command.Reply Sso (Option OrgResponse))
      (Move ι Outside Sso.Drift))}
    (hstart : (orgRuns P calls).initial start) (hrun : Exec (orgRuns P calls) start trace cfg)
    (hstep : (orgRuns P calls).step cfg (.act i out) cfg') (hactor : (calls i).actor = some actor)
    {target : Uuid} (hchanged : userRows cfg'.store target ≠ userRows cfg.store target)
    (hcurrent : overtaken P calls (recorded trace) i = false) :
    target ≠ actor ∧
      levelOf (orgRoleOf cfg.store.db actor) < levelOf (orgRoleOf cfg.store.db target) := by
  obtain ⟨-, hlog, hprograms⟩ := hstart
  obtain ⟨⟨hguarded, hentries⟩, hobeys⟩ := Server.run_recorded
    (P := fun i => guardProtocol (calls i).actor) (J := Guarded calls P)
    (G := ⟨fun _ _ _ _ => True, fun _ _ _ => True⟩)
    (fun _ _ _ _ _ hguarded hok _ => Guarded.act hguarded hok)
    (fun _ _ _ _ hguarded _ he => Guarded.drift hguarded he)
    hrun (fun e _ => by cases e.label <;> simp [Condition.Meets]) hlog
    (fun i => by
      rw [hprograms]
      exact program_obeys (calls i))
    (by
      intro i actor _ _
      trivial)
  obtain ⟨c, k, hcall, rfl⟩ := Server.step_act hstep
  have hok := hobeys i
  rw [hcall, hentries] at hok
  have hown := hok.1
  rw [hactor] at hown
  have hadmitted := admitted_of_changed hown hchanged
  have hstands := hguarded i actor hactor hcurrent
  rw [guardPhases, hadmitted] at hstands
  exact hstands

end Runs

section Interleaved

/-- Ann administers, cat manages, and bob is below both. -/
def managedSso : Sso :=
  { oneCodeSso with
    redis := fun _ => none
    db := { Db.empty with
      identities := (((∅ : Table Uuid Identity).upsert (Uuid.numbered 1)
        ⟨js "ann", js "Ann", none, false, none, none, .active, none⟩).upsert (Uuid.numbered 2)
        ⟨js "bob", js "Bob", none, false, none, none, .active, none⟩).upsert (Uuid.numbered 3)
        ⟨js "cat", js "Cat", none, false, none, none, .active, none⟩
      orgRoles := (((((∅ : Table Slug OrgRole).upsert (js "admin") ⟨js "Admin", 1, true⟩).upsert
        (js "lead") ⟨js "Lead", 5, false⟩).upsert (js "manager") ⟨js "Manager", 10, false⟩).upsert
        (js "helper") ⟨js "Helper", 15, false⟩).upsert (js "staff") ⟨js "Staff", 20, false⟩
      userOrgRoles := (((∅ : Table Uuid Slug).upsert (Uuid.numbered 1) (js "admin")).upsert
        (Uuid.numbered 2) (js "helper")).upsert (Uuid.numbered 3) (js "manager")
      rolePermissions := (∅ : Table (Slug × PermKey) Effect).upsert
        (js "admin", js "org.users.edit.permissions.acctPortal") .grant } }

/-- Cat suspends bob while ann gives him an org role. -/
def suspension (role : String) : Bool → OrgCall
  | false => .mutate .suspend (Uuid.numbered 3) (Uuid.numbered 2).text
  | true => .role (.admin sampleSurroundings (Uuid.numbered 1).text (.applyUserAccess
      (Uuid.numbered 2).text [(js "org_role", .str (js role))] (js "user.access_change")))

def suspensionStart (role : String) :
    Config Bool Command Command.Reply Sso (Option OrgResponse) :=
  ⟨managedSso, [], fun i => (suspension role i).program⟩

/-- The guard reads bob's role, ann's transaction commits, and the UPDATE comes next. -/
def betweenGuardAndWrite : List (Move Bool Outside Sso.Drift) :=
  (List.replicate 7 false ++ [true]).map fun i => .act i agreeable

/-- The two users' levels, and whether the guard has been overtaken, where the UPDATE
changes bob's rows. -/
def atSuspension (role : String) : Option (ℤ × ℤ × Bool) := do
  let so ← betweenGuardAndWrite.foldlM (ssoServer plainPrimitives).stepRecorded
    (suspensionStart role, [])
  let after ← (ssoServer plainPrimitives).step so.1 (.act false agreeable)
  if userRows after.store (Uuid.numbered 2) = userRows so.1.store (Uuid.numbered 2) then none
  else some (levelOf (orgRoleOf so.1.store.db (Uuid.numbered 3)),
    levelOf (orgRoleOf so.1.store.db (Uuid.numbered 2)),
    overtaken plainPrimitives (suspension role) so.2 false)

theorem suspension_runs {role : String} {actorLevel targetLevel : ℤ} {late : Bool}
    (h : atSuspension role = some (actorLevel, targetLevel, late)) :
    ∃ start trace cfg cfg', (orgRuns plainPrimitives (suspension role)).initial start ∧
      Exec (orgRuns plainPrimitives (suspension role)) start trace cfg ∧
      (orgRuns plainPrimitives (suspension role)).step cfg (.act false agreeable) cfg' ∧
      userRows cfg'.store (Uuid.numbered 2) ≠ userRows cfg.store (Uuid.numbered 2) ∧
      levelOf (orgRoleOf cfg.store.db (Uuid.numbered 3)) = actorLevel ∧
      levelOf (orgRoleOf cfg.store.db (Uuid.numbered 2)) = targetLevel ∧
      overtaken plainPrimitives (suspension role) (recorded trace) false = late := by
  simp only [atSuspension, Option.bind_eq_bind, Option.bind_eq_some_iff] at h
  obtain ⟨⟨cfg, hist⟩, hcfg, cfg', hstep, hfacts⟩ := h
  obtain ⟨trace, hexec, rfl⟩ := Server.exec_of_moves_recorded hcfg (fun _ => True)
    fun i => (suspension role i).program
  split_ifs at hfacts with hsame
  simp only [Option.some.injEq, Prod.mk.injEq] at hfacts
  exact ⟨suspensionStart role, trace, cfg, cfg', ⟨trivial, rfl, rfl⟩, hexec, hstep, hsame,
    hfacts.1, hfacts.2.1, hfacts.2.2⟩

/-- Ann moves bob further down: the suspension meets a user below its actor. -/
theorem guard_holds_at_write_demoted :
    ∃ start trace cfg cfg', (orgRuns plainPrimitives (suspension "staff")).initial start ∧
      Exec (orgRuns plainPrimitives (suspension "staff")) start trace cfg ∧
      (orgRuns plainPrimitives (suspension "staff")).step cfg (.act false agreeable) cfg' ∧
      userRows cfg'.store (Uuid.numbered 2) ≠ userRows cfg.store (Uuid.numbered 2) ∧
      levelOf (orgRoleOf cfg.store.db (Uuid.numbered 2)) = 20 ∧
      (Uuid.numbered 2 ≠ Uuid.numbered 3 ∧ levelOf (orgRoleOf cfg.store.db (Uuid.numbered 3)) <
        levelOf (orgRoleOf cfg.store.db (Uuid.numbered 2))) := by
  have hreached : atSuspension "staff" = some (10, 20, false) := by decide +kernel
  obtain ⟨start, trace, cfg, cfg', hinitial, hexec, hstep, hchanged, -, hlevel, hcurrent⟩ :=
    suspension_runs hreached
  exact ⟨start, trace, cfg, cfg', hinitial, hexec, hstep, hchanged, hlevel,
    guard_holds_at_write plainPrimitives (suspension "staff") hinitial hexec hstep rfl hchanged
      hcurrent⟩

/-- Ann makes bob cat's superior behind the guard; the UPDATE suspends him all the same. -/
theorem promoted_user_suspended :
    ∃ start trace cfg cfg', (orgRuns plainPrimitives (suspension "lead")).initial start ∧
      Exec (orgRuns plainPrimitives (suspension "lead")) start trace cfg ∧
      (orgRuns plainPrimitives (suspension "lead")).step cfg (.act false agreeable) cfg' ∧
      (suspension "lead" false).actor = some (Uuid.numbered 3) ∧
      userRows cfg'.store (Uuid.numbered 2) ≠ userRows cfg.store (Uuid.numbered 2) ∧
      levelOf (orgRoleOf cfg.store.db (Uuid.numbered 2)) <
        levelOf (orgRoleOf cfg.store.db (Uuid.numbered 3)) := by
  have hreached : atSuspension "lead" = some (10, 5, true) := by decide +kernel
  obtain ⟨start, trace, cfg, cfg', hinitial, hexec, hstep, hchanged, hactor, htarget, -⟩ :=
    suspension_runs hreached
  refine ⟨start, trace, cfg, cfg', hinitial, hexec, hstep, rfl, hchanged, ?_⟩
  rw [hactor, htarget]
  decide

end Interleaved

end DreamSso.OrgUsers
