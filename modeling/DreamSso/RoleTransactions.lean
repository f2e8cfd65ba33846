import DreamSso.RoleLifecycle
import DreamSso.RolesSync

/-!
Role transactions: administration and incoming catalogs. All role writers are
serialized by one lock; a transaction commits the state its work returns or
leaves the state alone.
-/
namespace DreamSso

open JsStrings JsonValues

/-- COMMIT what the work returned, ROLLBACK when it threw. -/
def withRoleTransaction (db : Db) (work : Db → Except Failure Db) : Db :=
  match work db with
  | .ok db' => db'
  | .error _ => db

inductive AdminCall
  | applyUserAccess (targetSub : JsString) (changes : Members) (action : JsString)
  | applyRoleAccess (slug : JsString) (changes : Members) (action : JsString)
  | createOrgRole (body : Members)
  | patchOrgRole (slug : JsString) (body : Members)
  | deleteOrgRole (slug : JsString)
  | setDefaultOrgRole (slug : JsString)
  | createOrgUser (input : PreparedOrgUser)

def AdminCall.run (env : Surroundings) (actorSub : JsString) (call : AdminCall) (db : Db) :
    Except Failure Db :=
  match call with
  | .applyUserAccess targetSub changes action =>
      DreamSso.applyUserAccess env db actorSub targetSub changes action
  | .applyRoleAccess slug changes action =>
      DreamSso.applyRoleAccess env db actorSub slug changes action
  | .createOrgRole body => (DreamSso.createOrgRole db actorSub body).map Prod.snd
  | .patchOrgRole slug body => DreamSso.patchOrgRole db actorSub slug body
  | .deleteOrgRole slug => DreamSso.deleteOrgRole db actorSub slug
  | .setDefaultOrgRole slug => DreamSso.setDefaultOrgRole db actorSub slug
  | .createOrgUser input => DreamSso.createOrgUser env db actorSub input

inductive RoleTransaction
  | admin (env : Surroundings) (actorSub : JsString) (call : AdminCall)
  | incoming (env : Surroundings) (clientId : ClientId) (time : EnvelopeTime) (clock : ℕ → ℤ)
      (events : List IncomingEvent)

def RoleTransaction.work (sha256 : JsString → Digest) : RoleTransaction → Db → Except Failure Db
  | .admin env actorSub call => call.run env actorSub
  | .incoming env clientId time clock events =>
      processIncomingEvents env sha256 clientId time clock events

def RoleTransaction.commit (sha256 : JsString → Digest) (db : Db) (transaction : RoleTransaction) :
    Db := withRoleTransaction db (transaction.work sha256)

/-- The transactions of a run in the order of their commits. -/
def commitAll (sha256 : JsString → Digest) (db : Db) (transactions : List RoleTransaction) : Db :=
  transactions.foldl (RoleTransaction.commit sha256) db

theorem withRoleTransaction_cases (db : Db) (work : Db → Except Failure Db) :
    withRoleTransaction db work = db ∨ work db = .ok (withRoleTransaction db work) := by
  unfold withRoleTransaction
  cases work db with
  | error failure => exact .inl rfl
  | ok db' => exact .inr rfl

theorem withRoleTransaction_committed {db : Db} {work : Db → Except Failure Db}
    (h : (work db).toOption.isSome = true) : work db = .ok (withRoleTransaction db work) := by
  unfold withRoleTransaction
  cases hwork : work db with
  | error failure => simp [hwork, Except.toOption] at h
  | ok db' => rfl

/-- A property that every committed transaction keeps holds after every run. -/
theorem commitAll_preserves {sha256 : JsString → Digest} (P : Db → Prop)
    (transactions : List RoleTransaction)
    (hstep : ∀ transaction ∈ transactions, ∀ db db', P db → transaction.work sha256 db = .ok db' →
      P db') {db : Db} (h : P db) : P (commitAll sha256 db transactions) := by
  induction transactions generalizing db with
  | nil => exact h
  | cons transaction rest ih =>
    have hnext : P (transaction.commit sha256 db) := by
      rcases withRoleTransaction_cases db (transaction.work sha256) with hrolled | hcommitted
      · rw [RoleTransaction.commit, hrolled]
        exact h
      · exact hstep transaction List.mem_cons_self db _ h hcommitted
    exact ih (fun t ht => hstep t (List.mem_cons_of_mem _ ht)) hnext

end DreamSso
