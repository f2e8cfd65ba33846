import DreamSso.FactorStore
import DreamSso.Library.GuardedRuns
import DreamSso.Library.TableCounts

/-!
Removing second factors. Both DELETE routes count the strong factors first and
remove the row with a second statement. A user who may not disable MFA keeps a
strong factor in every run in which no factor is removed on a count that is no
longer the current one.
-/
namespace DreamSso.Factors

open Interleaving JsStrings KeyedTables Transitions

def MFA_DISABLE : PermKey := js "profile.security.mfa.disable"

/-- `override.get(key) ?? roleEffect.get(key) ?? 'deny'` -/
def effectIn (roleEffect override : List (PermKey × Effect)) (key : PermKey) : Effect :=
  ((override.lookup key).or (roleEffect.lookup key)).getD .deny

/-- `resolveAuthz` reads the role, its effects and the overrides one after another. -/
def hasPerm (sub : Uuid) (key : PermKey) : Handler Bool := do
  let _role ← await (.orgRoleRow sub)
  let roleEffect ← await (.roleEffects sub)
  let override ← await (.permissionOverrides sub)
  pure (decide (key ∈ PERMISSIONS) && decide (effectIn roleEffect override key = .grant))

/-- Removing one strong factor now would leave none, and MFA may not be disabled. -/
def blocksLastFactor (sub : Uuid) : Handler Bool := do
  let n ← await (.strongFactorCount sub)
  if n ≤ 1 then do
    let may ← hasPerm sub MFA_DISABLE
    pure !may
  else pure false

inductive FactorKind
  | authenticator
  | passkey
  deriving DecidableEq

/-- `removeAuthenticator` and `removePasskey`; a text that is no uuid makes the
statement fail. -/
def removeFactor (kind : FactorKind) (sub : Uuid) (id : JsString) : Handler Bool :=
  match Uuid.parse? id with
  | none => .thrown
  | some id => do
      let rowCount ← match kind with
        | .authenticator => await (.removeAuthenticator sub id)
        | .passkey => await (.removePasskey sub id)
      pure (decide (0 < rowCount))

def FactorKind.permission : FactorKind → String
  | .authenticator => "profile.security.mfa.totp.remove"
  | .passkey => "profile.security.mfa.passkey.remove"

/-- DELETE /account/mfa/authenticator/:id and DELETE /account/mfa/passkey/:id,
behind the scope, the permission and a fresh step-up. -/
def deleteFactor (kind : FactorKind) (sub : Uuid) (id : JsString) : Handler Response := do
  let allowed ← ask (.middleware kind.permission)
  if allowed = false then pure (.failed ⟨403, "permission_denied", some kind.permission⟩)
  else do
    let fresh ← ask (.middleware "requireSecurityStepup")
    if fresh = false then pure (.failed ⟨403, "step_up_required", none⟩)
    else do
      let blocked ← blocksLastFactor sub
      if blocked then pure (.failed ⟨403, "permission_denied", some "last_strong_factor"⟩)
      else do
        let ok ← removeFactor kind sub id
        if ok then pure .noContent else pure (.failed ⟨404, "not_found", none⟩)

def deleteAuthenticator : Uuid → JsString → Handler Response := deleteFactor .authenticator

def deletePasskey : Uuid → JsString → Handler Response := deleteFactor .passkey

/-- On one state of the tables the three reads decide what `resolveAuthz` grants. -/
theorem effectIn_eq_effectOf (db : Db) (sub : Uuid) (key : PermKey) :
    effectIn (FactorDb.roleEffects db sub) (FactorDb.permissionOverrides db sub) key =
      effectOf db sub key := by
  have hoverride : (FactorDb.permissionOverrides db sub).lookup key =
      db.userPermissionOverrides.find? (sub, key) := by
    refine Table.lookup_eq_of_unique fun v => ?_
    rw [← Table.mem_rows_iff, FactorDb.permissionOverrides, List.mem_map]
    constructor
    · rintro ⟨⟨⟨sub', key'⟩, v'⟩, hr, heq⟩
      rw [List.mem_filter, decide_eq_true_eq] at hr
      obtain ⟨hr, rfl : sub' = sub⟩ := hr
      cases heq
      exact hr
    · intro hr
      exact ⟨((sub, key), v), List.mem_filter.mpr ⟨hr, decide_eq_true rfl⟩, rfl⟩
  have hrole : (FactorDb.roleEffects db sub).lookup key = roleEffect db sub key := by
    refine Table.lookup_eq_of_unique fun v => ?_
    rw [FactorDb.roleEffects, List.mem_map, roleEffect, Option.bind_eq_some_iff]
    constructor
    · rintro ⟨⟨⟨slug, key'⟩, v'⟩, hr, heq⟩
      rw [List.mem_filter, decide_eq_true_eq] at hr
      cases heq
      exact ⟨slug, hr.2, (Table.mem_rows_iff _ _ _).mp hr.1⟩
    · rintro ⟨slug, hslug, hv⟩
      exact ⟨((slug, key), v),
        List.mem_filter.mpr ⟨(Table.mem_rows_iff _ _ _).mpr hv, decide_eq_true hslug⟩, rfl⟩
  rw [effectIn, effectOf, hoverride, hrole]

section Counts

variable {s : FactorDb} {sub id : Uuid}

/-- The statement names a strong factor of the user. -/
def removesFactor (s : FactorDb) (sub : Uuid) : Command → Bool
  | .removeAuthenticator sub' id =>
      decide (sub' = sub) && (s.totpCredentials.find? id).any (FactorDb.isConfirmed sub)
  | .removePasskey sub' id => decide (sub' = sub) &&
      (s.webauthnCredentials.find? id).any fun r => decide (r.userSub = sub)
  | _ => false

/-- One statement removes one factor at most, and none if it names none. -/
theorem count_removeAuthenticator :
    s.strongFactorCount sub ≤ (s.removeAuthenticator sub id).2.strongFactorCount sub +
      (removesFactor s sub (.removeAuthenticator sub id)).toNat := by
  have hsplit := s.totpCredentials.countP_deleteWhere_add
    (fun k r => decide (k = id) && decide (r.userSub = sub)) fun r => FactorDb.isConfirmed sub r.2
  have hkey : ∀ r : Uuid × TotpCredential, (FactorDb.isConfirmed sub r.2 &&
      (decide (r.1 = id) && decide (r.2.userSub = sub))) = true → r.1 = id := by
    intro r h
    simp only [Bool.and_eq_true, decide_eq_true_eq] at h
    exact h.2.1
  have hone := s.totpCredentials.countP_key_le_one id hkey
  by_cases h : removesFactor s sub (.removeAuthenticator sub id) = true
  · rw [h]
    simp only [FactorDb.strongFactorCount, FactorDb.removeAuthenticator, Bool.toNat_true]
    omega
  · have hnone := s.totpCredentials.countP_eq_zero_of_find? id hkey (fun v hv => by
      simp only [removesFactor, decide_true, Bool.true_and, hv, Option.any_some] at h
      rw [eq_false_of_ne_true h, Bool.false_and])
    rw [eq_false_of_ne_true h]
    simp only [FactorDb.strongFactorCount, FactorDb.removeAuthenticator, Bool.toNat_false]
    omega

theorem count_removePasskey :
    s.strongFactorCount sub ≤ (s.removePasskey sub id).2.strongFactorCount sub +
      (removesFactor s sub (.removePasskey sub id)).toNat := by
  have hsplit := s.webauthnCredentials.countP_deleteWhere_add
    (fun k r => decide (k = id) && decide (r.userSub = sub)) fun r => decide (r.2.userSub = sub)
  have hkey : ∀ r : Uuid × PasskeyRow, (decide (r.2.userSub = sub) &&
      (decide (r.1 = id) && decide (r.2.userSub = sub))) = true → r.1 = id := by
    intro r h
    simp only [Bool.and_eq_true, decide_eq_true_eq] at h
    exact h.2.1
  have hone := s.webauthnCredentials.countP_key_le_one id hkey
  by_cases h : removesFactor s sub (.removePasskey sub id) = true
  · rw [h]
    simp only [FactorDb.strongFactorCount, FactorDb.removePasskey, Bool.toNat_true]
    omega
  · have hnone := s.webauthnCredentials.countP_eq_zero_of_find? id hkey (fun v hv => by
      simp only [removesFactor, decide_true, Bool.true_and, hv, Option.any_some] at h
      rw [eq_false_of_ne_true h, Bool.false_and])
    rw [eq_false_of_ne_true h]
    simp only [FactorDb.strongFactorCount, FactorDb.removePasskey, Bool.toNat_false]
    omega

end Counts

/-- How far a request has come with the last-factor check. -/
inductive RemovalPhase
  | before
  | counted (n : ℕ)
  | weighing (roleEffect : List (PermKey × Effect))
  | permitted
  | ended
  deriving DecidableEq

def RemovalPhase.weighed (roleEffect override : List (PermKey × Effect)) : RemovalPhase :=
  if effectIn roleEffect override MFA_DISABLE = .grant then .permitted else .ended

/-- A factor is removed after a count above one, or with the permission. -/
def removalProtocol (sub : Uuid) : Protocol Command Command.Reply RemovalPhase where
  next
    | .before, .strongFactorCount _, some n => .counted n
    | .counted _, .roleEffects _, some roleEffect => .weighing roleEffect
    | .weighing roleEffect, .permissionOverrides _, some override =>
        RemovalPhase.weighed roleEffect override
    | _, .removeAuthenticator _ _, _ => .ended
    | _, .removePasskey _ _, _ => .ended
    | g, _, _ => g
  ok
    | .before, .ask _ => True
    | .before, .strongFactorCount sub' => sub' = sub
    | .counted _, .orgRoleRow _ => True
    | .counted _, .roleEffects sub' => sub' = sub
    | .weighing _, .permissionOverrides sub' => sub' = sub
    | .counted n, .removeAuthenticator sub' _ => sub' = sub ∧ 1 < n
    | .counted n, .removePasskey sub' _ => sub' = sub ∧ 1 < n
    | .permitted, .removeAuthenticator sub' _ => sub' = sub
    | .permitted, .removePasskey sub' _ => sub' = sub
    | _, _ => False

section Program

variable {sub : Uuid}

theorem removeFactor_obeys {g : RemovalPhase} (kind : FactorKind) (id : JsString)
    (hg : (∃ n, 1 < n ∧ g = .counted n) ∨ g = .permitted) :
    (removalProtocol sub).Obeys (fun _ _ => True) g (removeFactor kind sub id) := by
  have hok : ∀ id, (removalProtocol sub).ok g (.removeAuthenticator sub id) ∧
      (removalProtocol sub).ok g (.removePasskey sub id) := by
    intro id
    rcases hg with ⟨n, hn, rfl⟩ | rfl
    · exact ⟨⟨rfl, hn⟩, ⟨rfl, hn⟩⟩
    · exact ⟨rfl, rfl⟩
  unfold removeFactor
  split
  · trivial
  · cases kind with
    | authenticator => exact Protocol.obeys_await_bind.mpr ⟨(hok _).1, trivial, fun _ => trivial⟩
    | passkey => exact Protocol.obeys_await_bind.mpr ⟨(hok _).2, trivial, fun _ => trivial⟩

/-- What is left of the route once the guard has decided. -/
theorem removal_obeys {g : RemovalPhase} (kind : FactorKind) (id : JsString) (blocked : Bool)
    (hg : blocked = false → (∃ n, 1 < n ∧ g = .counted n) ∨ g = .permitted) :
    (removalProtocol sub).Obeys (fun _ _ => True) g
      (if blocked then pure (.failed ⟨403, "permission_denied", some "last_strong_factor"⟩)
      else do
        let ok ← removeFactor kind sub id
        if ok then pure .noContent else pure (.failed ⟨404, "not_found", none⟩) :
          Handler Response) := by
  cases blocked with
  | true => trivial
  | false =>
    refine Protocol.obeys_bind.mpr ((removeFactor_obeys kind id (hg rfl)).mono ?_)
    intro g a _
    cases a with
    | none => trivial
    | some ok => cases ok <;> trivial

theorem deleteFactor_obeys (kind : FactorKind) (id : JsString) :
    (removalProtocol sub).Obeys (fun _ _ => True) .before (deleteFactor kind sub id) := by
  unfold deleteFactor
  refine Protocol.obeys_await_bind.mpr ⟨trivial, trivial, fun allowed => ?_⟩
  split_ifs
  · trivial
  refine Protocol.obeys_await_bind.mpr ⟨trivial, trivial, fun fresh => ?_⟩
  split_ifs
  · trivial
  unfold blocksLastFactor
  refine Protocol.obeys_bind.mpr (Protocol.obeys_await_bind.mpr ⟨rfl, trivial, fun n => ?_⟩)
  change ℕ at n
  by_cases hn : n ≤ 1
  · -- the last factor: the permission decides
    rw [if_pos hn]
    refine Protocol.obeys_bind.mpr (Protocol.obeys_await_bind.mpr ⟨trivial, trivial, fun _ => ?_⟩)
    refine Protocol.obeys_await_bind.mpr ⟨rfl, trivial, fun roleEffect => ?_⟩
    refine Protocol.obeys_await_bind.mpr ⟨rfl, trivial, fun override => ?_⟩
    refine removal_obeys kind id _ fun hnot => .inr ?_
    rw [Bool.not_eq_false', Bool.and_eq_true, decide_eq_true_eq, decide_eq_true_eq] at hnot
    exact if_pos hnot.2
  · rw [if_neg hn]
    exact removal_obeys kind id false fun _ => .inl ⟨n, by omega, rfl⟩

end Program

section Runs

variable {ι : Type} [DecidableEq ι]

/-- DELETE requests of one user. -/
def removalRuns (sub : Uuid) (calls : ι → FactorKind × JsString) :
    System (Config ι Command Command.Reply FactorDb Response) (Move ι Outside ℕ) :=
  factorServer.system (fun _ => True) fun i => deleteFactor (calls i).1 sub (calls i).2

abbrev removalPhases (sub : Uuid) (log : List (Entry ι Command Command.Reply)) (i : ι) :
    RemovalPhase := phases (fun _ : ι => removalProtocol sub) (fun _ => .before) log i

/-- The count a request has read is still the current one. -/
def countStands (sub : Uuid) (s : FactorDb) : RemovalPhase → Bool
  | .counted n => decide (s.strongFactorCount sub = n)
  | _ => true

/-- A strong factor is removed only while the count its request has read stands. -/
def onCurrentCount (sub : Uuid) : Condition ι Command Command.Reply FactorDb ℕ where
  act s log i c :=
    (!removesFactor s sub c || countStands sub s (removalPhases sub log i)) = true
  drift _ _ _ := True

/-- The user has a strong factor and no request may remove the last one. -/
structure Protected (sub : Uuid) (s : FactorDb) (log : List (Entry ι Command Command.Reply)) :
    Prop where
  keeps : 1 ≤ s.strongFactorCount sub
  denied : effectOf s.db sub MFA_DISABLE ≠ .grant
  weighing : ∀ i roleEffect, removalPhases sub log i = .weighing roleEffect →
    roleEffect = FactorDb.roleEffects s.db sub
  never : ∀ i, removalPhases sub log i ≠ .permitted

variable {sub : Uuid} {s : FactorDb} {log : List (Entry ι Command Command.Reply)} {i : ι}
  {c : Command} {out : Outside} {g : RemovalPhase}

omit [DecidableEq ι] in
/-- A removal on a count above one that stands leaves a factor. -/
theorem removal_keeps (hok : (removalProtocol sub).ok g c) (hg : g ≠ .permitted)
    (hcurrent : (!removesFactor s sub c || countStands sub s g) = true)
    (hkeeps : 1 ≤ s.strongFactorCount sub) :
    (FactorDb.perform out c s).2.db = s.db ∧
      1 ≤ (FactorDb.perform out c s).2.strongFactorCount sub := by
  have hstands : ∀ {n rest : ℕ} {removed : Bool}, 1 < n →
      (!removed || countStands sub s (.counted n)) = true →
      s.strongFactorCount sub ≤ rest + removed.toNat → 1 ≤ rest := by
    intro n rest removed hn hcur hle
    cases removed with
    | false =>
      rw [Bool.toNat_false] at hle
      omega
    | true =>
      have hcount : s.strongFactorCount sub = n := of_decide_eq_true hcur
      rw [Bool.toNat_true] at hle
      omega
  cases g with
  | permitted => exact absurd rfl hg
  | ended => cases c <;> cases hok
  | before => cases c <;> first | exact ⟨rfl, hkeeps⟩ | cases hok
  | weighing roleEffect => cases c <;> first | exact ⟨rfl, hkeeps⟩ | cases hok
  | counted n =>
    cases c with
    | removeAuthenticator sub' id =>
      obtain ⟨rfl, hn⟩ := hok
      exact ⟨rfl, hstands hn hcurrent count_removeAuthenticator⟩
    | removePasskey sub' id =>
      obtain ⟨rfl, hn⟩ := hok
      exact ⟨rfl, hstands hn hcurrent count_removePasskey⟩
    | orgRoleRow sub' => exact ⟨rfl, hkeeps⟩
    | roleEffects sub' => exact ⟨rfl, hkeeps⟩
    | _ => cases hok

omit [DecidableEq ι] in
/-- The phase after a read says what the tables hold. -/
theorem removal_next (hok : (removalProtocol sub).ok g c) (hg : g ≠ .permitted)
    (hweighing : ∀ roleEffect, g = .weighing roleEffect →
      roleEffect = FactorDb.roleEffects s.db sub)
    (hdenied : effectOf s.db sub MFA_DISABLE ≠ .grant) :
    (removalProtocol sub).next g c (FactorDb.perform out c s).1 ≠ .permitted ∧
      ∀ roleEffect, (removalProtocol sub).next g c (FactorDb.perform out c s).1 =
        .weighing roleEffect → roleEffect = FactorDb.roleEffects s.db sub := by
  cases g with
  | permitted => exact absurd rfl hg
  | ended => cases c <;> cases hok
  | before =>
    cases c with
    | ask q => exact ⟨fun h => (by cases h), fun _ h => by cases h⟩
    | strongFactorCount sub' => exact ⟨fun h => (by cases h), fun _ h => by cases h⟩
    | _ => cases hok
  | counted n =>
    cases c with
    | roleEffects sub' =>
      obtain rfl : sub' = sub := hok
      exact ⟨fun h => (by cases h), fun _ h => (RemovalPhase.weighing.inj h).symm⟩
    | orgRoleRow sub' => exact ⟨fun h => (by cases h), fun _ h => by cases h⟩
    | removeAuthenticator sub' id => exact ⟨fun h => (by cases h), fun _ h => by cases h⟩
    | removePasskey sub' id => exact ⟨fun h => (by cases h), fun _ h => by cases h⟩
    | _ => cases hok
  | weighing roleEffect =>
    cases c with
    | permissionOverrides sub' =>
      obtain rfl : sub' = sub := hok
      have hdenies : effectIn roleEffect (FactorDb.permissionOverrides s.db sub') MFA_DISABLE ≠
          .grant := by
        rw [hweighing roleEffect rfl, effectIn_eq_effectOf]
        exact hdenied
      have hover : (removalProtocol sub').next (.weighing roleEffect) (.permissionOverrides sub')
          (FactorDb.perform out (.permissionOverrides sub') s).1 = .ended := if_neg hdenies
      rw [hover]
      exact ⟨fun h => (by cases h), fun _ h => by cases h⟩
    | _ => cases hok

theorem Protected.act (h : Protected sub s log)
    (hok : (removalProtocol sub).ok (removalPhases sub log i) c)
    (hcurrent : (onCurrentCount sub).act s log i c) :
    Protected sub (FactorDb.perform out c s).2
      (log ++ [⟨i, c, (FactorDb.perform out c s).1⟩]) := by
  obtain ⟨hdb, hkeeps⟩ : (FactorDb.perform out c s).2.db = s.db ∧
      1 ≤ (FactorDb.perform out c s).2.strongFactorCount sub :=
    removal_keeps hok (h.never i) hcurrent h.keeps
  obtain ⟨hnever, hweighing⟩ := @removal_next sub s c out _ hok (h.never i) (h.weighing i) h.denied
  refine ⟨hkeeps, hdb.symm ▸ h.denied, ?_, ?_⟩
  · intro j roleEffect hj
    rw [hdb]
    by_cases hij : i = j
    · subst hij
      rw [removalPhases, phases_self] at hj
      exact hweighing roleEffect hj
    · rw [removalPhases, phases_other hij] at hj
      exact h.weighing j roleEffect hj
  · intro j hj
    by_cases hij : i = j
    · subst hij
      rw [removalPhases, phases_self] at hj
      exact hnever hj
    · rw [removalPhases, phases_other hij] at hj
      exact h.never j hj

/-- A user who may not disable MFA keeps a strong factor in every run in which no
factor is removed on a count that another removal has made outdated. -/
theorem last_strong_factor (sub : Uuid) (calls : ι → FactorKind × JsString)
    {start cfg : Config ι Command Command.Reply FactorDb Response}
    {trace : List (Event (Config ι Command Command.Reply FactorDb Response) (Move ι Outside ℕ))}
    (hstart : (removalRuns sub calls).initial start)
    (hrun : Exec (removalRuns sub calls) start trace cfg)
    (hdenied : MFA_DISABLE ∉ (resolveAuthz start.store.db sub).granted)
    (hfactor : 1 ≤ start.store.strongFactorCount sub)
    (hcurrent : ∀ e ∈ trace, (onCurrentCount sub).Meets e.before e.label) :
    1 ≤ cfg.store.strongFactorCount sub := by
  obtain ⟨-, hlog, hprograms⟩ := hstart
  have hbegin : Protected sub start.store start.log := by
    rw [hlog]
    refine ⟨hfactor, fun hgrant => hdenied ?_, ?_, ?_⟩
    · exact List.mem_filter.mpr ⟨by decide, decide_eq_true hgrant⟩
    · intro i roleEffect hi
      cases hi
    · intro i hi
      cases hi
  obtain ⟨hprotected, -⟩ := Server.run_meeting (P := fun _ : ι => removalProtocol sub)
    (I := fun s log => Protected sub s log)
    (fun s log i c w h hok hcurrent => h.act hok hcurrent)
    (fun s s' log e h _ hdrift => by
      cases hdrift
      exact ⟨h.keeps, h.denied, h.weighing, h.never⟩)
    hrun hcurrent
    (fun i => by
      rw [hprograms, hlog]
      exact deleteFactor_obeys (calls i).1 (calls i).2)
    hbegin
  exact hprotected.keeps

end Runs

section Interleaved

instance {ι : Type} [DecidableEq ι] (sub : Uuid) (s : FactorDb)
    (log : List (Entry ι Command Command.Reply)) (i : ι) (c : Command) :
    Decidable ((onCurrentCount sub).act s log i c) := inferInstanceAs (Decidable (_ = true))

instance {ι : Type} [DecidableEq ι] (sub : Uuid) (s : FactorDb)
    (log : List (Entry ι Command Command.Reply)) (e : ℕ) :
    Decidable ((onCurrentCount sub).drift s log e) := inferInstanceAs (Decidable True)

/-- A user with one confirmed authenticator and one passkey. -/
def twoFactors : FactorDb where
  clock := 0
  redis := fun _ => none
  db := Db.empty
  sessions := ∅
  totpCredentials := Table.upsert ∅ (Uuid.numbered 2)
    ⟨Uuid.numbered 1, js "secret", none, some 0, 0, none⟩
  webauthnCredentials := Table.upsert ∅ (Uuid.numbered 3)
    ⟨Uuid.numbered 1, js "credential", js "key", 0⟩

def bothRemovals : Bool → FactorKind × JsString
  | false => (.authenticator, (Uuid.numbered 2).text)
  | true => (.passkey, (Uuid.numbered 3).text)

def removalsStart : Config Bool Command Command.Reply FactorDb Response :=
  ⟨twoFactors, [], fun i => deleteFactor (bothRemovals i).1 (Uuid.numbered 1) (bothRemovals i).2⟩

/-- The middleware lets both requests through. -/
def letsThrough : Outside := ⟨fun
  | .middleware _ => some true
  | _ => none⟩

def removalSteps (schedule : List Bool) : List (Move Bool Outside ℕ) :=
  schedule.map fun i => .act i letsThrough

theorem twoFactors_denied : MFA_DISABLE ∉ (resolveAuthz twoFactors.db (Uuid.numbered 1)).granted := by
  decide +kernel

/-- One removal after the other: the second is blocked and the passkey stays. -/
theorem last_strong_factor_oneAfterAnother :
    ∃ start trace cfg, (removalRuns (Uuid.numbered 1) bothRemovals).initial start ∧
      Exec (removalRuns (Uuid.numbered 1) bothRemovals) start trace cfg ∧
      cfg.requests false = .done .noContent ∧ 1 ≤ cfg.store.strongFactorCount (Uuid.numbered 1) := by
  have hrun : (((removalSteps (List.replicate 4 false ++ List.replicate 6 true)).foldlM
      (factorServer.stepMeeting (onCurrentCount (Uuid.numbered 1))) removalsStart).any
      fun cfg => decide ((cfg.requests false).result? = some .noContent)) = true := by
    decide +kernel
  obtain ⟨cfg, hcfg, hdone⟩ := (Option.any_eq_true ..).mp hrun
  obtain ⟨trace, hexec, hcurrent⟩ := Server.exec_of_moves_meeting hcfg (fun _ => True)
    fun i => deleteFactor (bothRemovals i).1 (Uuid.numbered 1) (bothRemovals i).2
  have hinitial : (removalRuns (Uuid.numbered 1) bothRemovals).initial removalsStart :=
    ⟨trivial, rfl, rfl⟩
  exact ⟨removalsStart, trace, cfg, hinitial, hexec, Prog.eq_done (of_decide_eq_true hdone),
    last_strong_factor (Uuid.numbered 1) bothRemovals hinitial hexec twoFactors_denied (by decide)
      hcurrent⟩

/-- Both requests count two factors before either removes one. -/
theorem both_factors_removed :
    ∃ start trace cfg, (removalRuns (Uuid.numbered 1) bothRemovals).initial start ∧
      Exec (removalRuns (Uuid.numbered 1) bothRemovals) start trace cfg ∧
      MFA_DISABLE ∉ (resolveAuthz start.store.db (Uuid.numbered 1)).granted ∧
      1 ≤ start.store.strongFactorCount (Uuid.numbered 1) ∧
      cfg.store.strongFactorCount (Uuid.numbered 1) = 0 := by
  have hrun : (((removalSteps (List.replicate 3 false ++ List.replicate 3 true ++
      [false, true])).foldlM factorServer.step removalsStart).any
      fun cfg => decide (cfg.store.strongFactorCount (Uuid.numbered 1) = 0)) = true := by
    decide +kernel
  obtain ⟨cfg, hcfg, hnone⟩ := (Option.any_eq_true ..).mp hrun
  obtain ⟨trace, hexec⟩ := Server.exec_of_moves hcfg (fun _ => True)
    fun i => deleteFactor (bothRemovals i).1 (Uuid.numbered 1) (bothRemovals i).2
  exact ⟨removalsStart, trace, cfg, ⟨trivial, rfl, rfl⟩, hexec, twoFactors_denied, by decide,
    of_decide_eq_true hnone⟩

end Interleaved

end DreamSso.Factors
