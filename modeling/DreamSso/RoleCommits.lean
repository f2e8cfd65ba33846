import DreamSso.RoleSteps
import DreamSso.CatalogEffects
import DreamSso.RoleTransactions

/-!
Every committed role transaction is an execution of role steps: an administration
call publishes at most once, an envelope at most once for each catalog it brings.
-/
namespace DreamSso

open JsStrings JsonValues KeyedTables Fallible Transitions

/-- Users belong to org roles that exist. -/
def Memberships (db : Db) : Prop :=
  ∀ sub slug, db.userOrgRoles.find? sub = some slug → db.orgRoles.contains slug = true

/-- A role does not move while everything the chain reads for it is the same. -/
theorem stays_of {db db' : Db} {clientId : ClientId} {sub : Uuid}
    (hpresent : presentIdentity db sub = true → presentIdentity db' sub = true)
    (hcatalog : db'.appRoleCatalogs.find? clientId = db.appRoleCatalogs.find? clientId)
    (hroles : ∀ id, db'.appRoles.contains (clientId, id) = db.appRoles.contains (clientId, id))
    (hoverride : db'.userAppRoleOverrides.find? (sub, clientId) =
      db.userAppRoleOverrides.find? (sub, clientId))
    (horg : presentIdentity db sub = true → orgLayer db' sub clientId = orgLayer db sub clientId) :
    Stays clientId sub db db' := by
  intro hsome
  by_cases hthere : presentIdentity db sub = true
  · have hlayer := horg hthere
    simp only [standing, hthere, hpresent hthere, hasAppCatalog, Table.contains, effectiveAppRole,
      knownRole, hcatalog, hoverride, hlayer, if_true]
    have hknown : (fun id => (db'.appRoles.find? (clientId, id)).isSome) =
        fun id => (db.appRoles.find? (clientId, id)).isSome := funext hroles
    rw [hknown]
    rfl
  · simp [standing, hthere] at hsome

/-- Without a catalog before and after there is nothing to move. -/
theorem stays_unmanaged {db db' : Db} {clientId : ClientId} {sub : Uuid}
    (hpresent : presentIdentity db sub = true → presentIdentity db' sub = true)
    (hbefore : hasAppCatalog db clientId = false) (hafter : hasAppCatalog db' clientId = false) :
    Stays clientId sub db db' := by
  intro hsome
  by_cases hthere : presentIdentity db sub = true
  · simp [standing, hthere, hpresent hthere, hbefore, hafter]
  · simp [standing, hthere] at hsome

/-- Writes that leave the ledger and the events alone. -/
theorem unreported_of {db db' : Db} (hledger : db'.toLedger = db.toLedger)
    (hchannel : db'.toChannel = db.toChannel)
    (hidentities : ∀ sub, presentIdentity db sub = true → presentIdentity db' sub = true)
    (hcatalogs : db'.appRoleCatalogs = db.appRoleCatalogs) (clientId : ClientId) :
    Unreported clientId db db' := by
  refine ⟨?_, ?_, ?_, hidentities, ?_⟩
  · simp only [authorityOf, hledger]
    exact Started.refl _
  · intro sub
    rw [hledger]
  · rw [roleRows, hchannel, ← roleRows]
  · intro hcatalog
    rwa [hasAppCatalog, hcatalogs]

/-- Writes that leave the role tables alone too. -/
theorem step_aside {db db' : Db} (htables : db'.toRoleTables = db.toRoleTables)
    (hledger : db'.toLedger = db.toLedger) (hchannel : db'.toChannel = db.toChannel) :
    RoleStep db db' none := by
  refine .written (unreported_of hledger hchannel ?_ (by rw [htables])) fun clientId sub _ => ?_
  · intro sub hsub
    rwa [presentIdentity, htables]
  · rw [standing_congr htables]

/-- The number of publications of a transaction. -/
def publications (trace : List (Event Db (Option PublishCall))) : ℕ :=
  trace.countP fun event => event.label.isSome

theorem publications_append (first second : List (Event Db (Option PublishCall))) :
    publications (first ++ second) = publications first + publications second :=
  List.countP_append

/-- Steps from one state to another with at most `bound` publications. -/
def Steps (bound : ℕ) (db db' : Db) : Prop :=
  ∃ trace, Exec roleSteps db trace db' ∧ publications trace ≤ bound

theorem Steps.refl (db : Db) : Steps 0 db db := ⟨[], Exec.nil db, Nat.le_refl 0⟩

theorem Steps.trans {m n : ℕ} {a b c : Db} (h : Steps m a b) (h' : Steps n b c) :
    Steps (m + n) a c := by
  obtain ⟨first, hfirst, hm⟩ := h
  obtain ⟨second, hsecond, hn⟩ := h'
  refine ⟨first ++ second, hfirst.append hsecond, ?_⟩
  rw [publications_append]
  omega

theorem Steps.mono {m n : ℕ} {a b : Db} (h : Steps m a b) (hle : m ≤ n) : Steps n a b := by
  obtain ⟨trace, run, hm⟩ := h
  exact ⟨trace, run, Nat.le_trans hm hle⟩

theorem RoleStep.written_steps {db db' : Db} (h : RoleStep db db' none) : Steps 0 db db' :=
  ⟨_, Exec.single h, Nat.le_refl 0⟩

theorem RoleStep.published_steps {db db' : Db} {call : PublishCall}
    (h : RoleStep db db' (some call)) : Steps 1 db db' := ⟨_, Exec.single h, Nat.le_refl 1⟩

/-- A call that writes, publishes if it has to and audits. -/
theorem publishIf_steps {env : Surroundings} {db written published : Db} {needed : Bool}
    {clientIds : List ClientId} {subjects : Option (List Uuid)} {log : List AuditEntry}
    (hwritten : ∀ clientId, Unreported clientId db written)
    (hstays : ∀ clientId sub, ¬(needed = true ∧ clientId ∈ clientIds ∧ ∀ list ∈ subjects, sub ∈ list) →
      Stays clientId sub db written)
    (h : publishIf needed env written clientIds subjects = .ok published) :
    Steps 1 db { published with orgAuditLog := log } := by
  have haudit : ∀ s : Db, Steps 0 s { s with orgAuditLog := log } := by
    intro s
    have haside : RoleStep s { s with orgAuditLog := log } none := step_aside rfl rfl rfl
    exact haside.written_steps
  unfold publishIf at h
  cases needed with
  | false =>
    simp only [Bool.false_eq_true, if_false, Except.ok.injEq] at h
    subst h
    have hmoved : RoleStep db written none :=
      .written hwritten fun clientId sub => hstays clientId sub (by simp)
    exact (hmoved.written_steps.trans (haudit _)).mono (Nat.zero_le 1)
  | true =>
    cases hpublish : publishRoleChanges env written clientIds subjects .default with
    | error failure => simp [hpublish, Except.map] at h
    | ok result =>
      simp only [hpublish, Except.map, if_true, Except.ok.injEq] at h
      subst h
      have hmoved : RoleStep db result.2 (some ⟨env, written, clientIds, subjects, .default⟩) :=
        .published hwritten (fun clientId sub hout => hstays clientId sub fun hin => hout hin.2)
          hpublish
      exact hmoved.published_steps.trans (haudit _)

section Calls

variable {env : Surroundings} {db db' : Db} {actorSub : JsString}

theorem writeValues_other {κ : Type} [DecidableEq κ] {holder : κ}
    {entries : List (ClientId × AppValue)} (table : Table (κ × ClientId) (Option ℤ))
    {key : κ × ClientId} (h : key.1 ≠ holder ∨ key.2 ∉ entries.map Prod.fst) :
    (writeValues holder entries table).find? key = table.find? key := by
  rcases writeValues_find holder entries table key with ⟨hsame, -⟩ | ⟨hholder, value, hvalue, -⟩
  · exact hsame
  · rcases h with hother | hnot
    · exact (hother hholder).elim
    · exact (hnot (List.mem_map_of_mem hvalue)).elim

/-- A user change moves the target alone, for the clients it publishes to. -/
theorem UserChange.write_stays {change : UserChange} (permissions : Table (Uuid × PermKey) Effect)
    {clientId : ClientId} {sub : Uuid}
    (hout : ¬((change.orgRole.isSome || !change.appValues.isEmpty) = true ∧
      clientId ∈ changedClients db change ∧ ∀ list ∈ some [change.target.sub], sub ∈ list)) :
    Stays clientId sub db (change.write db permissions) := by
  by_cases htarget : sub = change.target.sub
  · subst htarget
    cases horg : change.orgRole with
    | none =>
      refine stays_of id rfl (fun _ => rfl) (writeValues_other _ (.inr ?_)) fun _ => ?_
      · intro hmem
        apply hout
        have hvalues : change.appValues ≠ [] := by
          rintro hnil
          simp [hnil] at hmem
        refine ⟨by simp [hvalues], ?_, by simp⟩
        simpa [changedClients, horg] using hmem
      · simp [orgLayer, UserChange.write, horg]
    | some slug =>
      have hnone : hasAppCatalog db clientId = false := by
        by_contra hcatalog
        rw [Bool.not_eq_false] at hcatalog
        apply hout
        refine ⟨by simp [horg], ?_, by simp⟩
        rw [changedClients, horg]
        exact (Table.mem_orderedKeys_iff _ _).mpr ((Table.contains_iff _ _).mp hcatalog)
      exact stays_unmanaged id hnone hnone
  · refine stays_of id rfl (fun _ => rfl) (writeValues_other _ (.inl htarget)) fun _ => ?_
    cases horg : change.orgRole with
    | none => simp [orgLayer, UserChange.write, horg]
    | some slug => simp [orgLayer, UserChange.write, horg, Table.find?_upsert_ne _ _ htarget]

theorem applyUserAccess_steps {targetSub : JsString} {changes : Members} {action : JsString}
    (h : applyUserAccess env db actorSub targetSub changes action = .ok db') : Steps 1 db db' := by
  obtain ⟨change, permissions, published, log, -, -, hpublish, rfl⟩ := applyUserAccess_ok h
  refine publishIf_steps ?_ (fun clientId sub hout => UserChange.write_stays permissions hout)
    hpublish
  exact unreported_of rfl rfl (fun _ h => h) rfl

theorem applyRoleAccess_steps {slug : JsString} {changes : Members} {action : JsString}
    (h : applyRoleAccess env db actorSub slug changes action = .ok db') : Steps 1 db db' := by
  obtain ⟨change, permissions, published, log, -, -, hpublish, rfl⟩ := applyRoleAccess_ok h
  refine publishIf_steps ?_ ?_ hpublish
  · exact unreported_of rfl rfl (fun _ h => h) rfl
  intro clientId sub hout
  refine stays_of id rfl (fun _ => rfl) rfl fun _ => ?_
  have hnot : clientId ∉ change.appValues.map Prod.fst := by
    intro hmem
    apply hout
    have hvalues : change.appValues ≠ [] := by
      rintro hnil
      simp [hnil] at hmem
    exact ⟨by simp [hvalues], hmem, by simp⟩
  show (db.userOrgRoles.find? sub).bind _ = (db.userOrgRoles.find? sub).bind _
  congr 1
  funext s
  exact writeValues_other _ (.inr hnot)

theorem createOrgRole_steps {body : Members} {slug : Slug} (hmembers : Memberships db)
    (h : createOrgRole db actorSub body = .ok (slug, db')) : Steps 0 db db' := by
  obtain ⟨actor, role, permissions, defaults, log, -, hnew, -, -, hdefaults, -, rfl⟩ :=
    createOrgRole_ok h
  refine RoleStep.written_steps (.written (unreported_of rfl rfl (fun _ h => h) rfl) ?_)
  intro clientId sub
  refine stays_of id rfl (fun _ => rfl) rfl fun _ => ?_
  simp only [orgLayer]
  cases hmember : db.userOrgRoles.find? sub with
  | none => rfl
  | some other =>
    refine hdefaults other clientId ?_
    rintro rfl
    have hthere := hmembers sub other hmember
    simp [Table.contains, hnew] at hthere

theorem deleteOrgRole_steps {slug : JsString} (h : deleteOrgRole db actorSub slug = .ok db') :
    Steps 0 db db' := by
  obtain ⟨actor, stored, log, -, hunused, rfl⟩ := deleteOrgRole_ok h
  refine RoleStep.written_steps (.written (unreported_of rfl rfl (fun _ h => h) rfl) ?_)
  intro clientId sub
  refine stays_of id rfl (fun _ => rfl) rfl fun _ => ?_
  simp only [orgLayer, dropOrgRole, Table.find?_deleteWhere]
  cases hmember : db.userOrgRoles.find? sub with
  | none => rfl
  | some other =>
    have hother : other ≠ stored := fun hsame => hunused sub (hsame ▸ hmember)
    cases hdefault : db.orgRoleAppDefaults.find? (other, clientId) <;>
      simp [Option.filter, hother, hdefault]

theorem createOrgUser_steps {input : PreparedOrgUser}
    (h : createOrgUser env db actorSub input = .ok db') : Steps 0 db db' := by
  obtain ⟨actor, created, slug, role, identity, log, -, -, -, -, -, hnew, -, hpresent, rfl⟩ :=
    createOrgUser_ok h
  have hold : ∀ sub, presentIdentity db sub = true → sub ≠ created := by
    rintro sub hthere rfl
    simp [presentIdentity, hnew] at hthere
  have hkept : ∀ sub, presentIdentity db sub = true →
      (((db.identities.upsert created identity).find? sub).any Identity.present) = true := by
    intro sub hthere
    rwa [Table.find?_upsert_ne _ _ (hold sub hthere)]
  refine RoleStep.written_steps (.written (unreported_of rfl rfl hkept rfl) ?_)
  intro clientId sub
  refine stays_of (hkept sub) rfl (fun _ => rfl) rfl fun hthere => ?_
  simp only [orgLayer, Table.find?_upsert_ne _ _ (hold sub hthere)]

theorem AdminCall.steps {call : AdminCall} (hmembers : Memberships db)
    (h : call.run env actorSub db = .ok db') : Steps 1 db db' := by
  cases call with
  | applyUserAccess targetSub changes action => exact applyUserAccess_steps h
  | applyRoleAccess slug changes action => exact applyRoleAccess_steps h
  | createOrgRole body =>
    cases hcreate : DreamSso.createOrgRole db actorSub body with
    | error failure => simp [AdminCall.run, hcreate, Except.map] at h
    | ok created =>
      simp only [AdminCall.run, hcreate, Except.map, Except.ok.injEq] at h
      subst h
      exact (createOrgRole_steps hmembers hcreate).mono (Nat.zero_le 1)
  | patchOrgRole slug body =>
    obtain ⟨actor, stored, role, edited, log, -, -, -, -, rfl⟩ := patchOrgRole_ok h
    refine Steps.mono (RoleStep.written_steps ?_) (Nat.zero_le 1)
    refine .written (unreported_of rfl rfl (fun _ h => h) rfl) ?_
    exact fun clientId sub => stays_of id rfl (fun _ => rfl) rfl fun _ => rfl
  | deleteOrgRole slug => exact (deleteOrgRole_steps h).mono (Nat.zero_le 1)
  | setDefaultOrgRole slug =>
    obtain ⟨settings, log, rfl⟩ := setDefaultOrgRole_ok h
    refine Steps.mono (RoleStep.written_steps ?_) (Nat.zero_le 1)
    refine .written (unreported_of rfl rfl (fun _ h => h) rfl) ?_
    exact fun clientId sub => stays_of id rfl (fun _ => rfl) rfl fun _ => rfl
  | createOrgUser input => exact (createOrgUser_steps h).mono (Nat.zero_le 1)

end Calls

section Incoming

variable {env : Surroundings} {sha256 : JsString → Digest} {clientId : ClientId} {iat : ℤ}
  {db db' : Db}

theorem ensureRoleSyncState_steps {state : RoleSyncState}
    (h : ensureRoleSyncState env db clientId = .ok (state, db')) : Steps 0 db db' := by
  rcases (ensureRoleSyncState_ok h).2 with rfl | ⟨hnone, hunused, rfl⟩
  · exact Steps.refl _
  · refine RoleStep.written_steps (.written (fun other => ⟨?_, ?_, rfl, ?_, id⟩) ?_)
    · by_cases hother : other = clientId
      · subst hother
        right
        refine ⟨by rw [authorityOf, hnone]; rfl, state.authorityEpoch, ?_⟩
        rw [@authorityOf_state (setSyncState db other state) other state
          (Table.find?_upsert_self _ _ _), hunused.1]
      · left
        simp only [authorityOf, setSyncState, Table.find?_upsert_ne _ _ hother]
    · exact fun _ => rfl
    · exact fun _ hpresent => hpresent
    · exact fun other sub => stays_of id rfl (fun _ => rfl) rfl fun _ => rfl

theorem bindReceipt_steps {event : IncomingEvent} {digest : Digest}
    (h : bindReceipt db clientId event digest = .ok db') : Steps 0 db db' := by
  obtain ⟨type, -, rfl⟩ := bindReceipt_ok h
  refine RoleStep.written_steps ?_
  exact step_aside rfl rfl rfl

/-- A stored catalog keeps the authority of every client. -/
theorem replaceCatalog_unreported (catalog : RoleCatalog) (other : ClientId) :
    Unreported other db (replaceCatalog sha256 db clientId iat catalog).2 := by
  obtain ⟨overrides, defaults, -, -, heq⟩ := replaceCatalog_eq sha256 db clientId iat catalog
  rw [heq]
  refine ⟨?_, fun _ => rfl, rfl, fun _ hpresent => hpresent, ?_⟩
  · left
    simp only [authorityOf, storeCatalog, Table.find?_updateWhere, Option.map_map]
    congr 1
    funext state
    simp only [Function.comp_apply]
    split <;> rfl
  · intro hcatalog
    simp only [hasAppCatalog, storeCatalog, Table.contains_upsert, Bool.or_eq_true]
    exact .inr hcatalog

theorem replaceCatalog_stays (catalog : RoleCatalog) {other : ClientId} (hne : other ≠ clientId)
    (sub : Uuid) : Stays other sub db (replaceCatalog sha256 db clientId iat catalog).2 := by
  obtain ⟨overrides, defaults, hoverrides, hdefaults, heq⟩ :=
    replaceCatalog_eq sha256 db clientId iat catalog
  rw [heq]
  refine stays_of id (Table.find?_upsert_ne _ _ hne) ?_ (hoverrides (sub, other) hne) fun _ => ?_
  · intro id
    simp only [Table.contains, storeCatalog, replaceRoles_other hne]
  · show (db.userOrgRoles.find? sub).bind _ = (db.userOrgRoles.find? sub).bind _
    congr 1
    funext slug
    exact hdefaults (slug, other) hne

theorem applyCatalog_steps {catalog : RoleCatalog} {state : RoleSyncState} {order : CatalogOrder}
    (h : applyCatalog env sha256 db clientId iat catalog state = .ok (order, db')) :
    Steps 1 db db' := by
  rcases (applyCatalog_ok h).2 with ⟨-, rfl⟩ | ⟨-, changed, published, log, hpublish, rfl⟩
  · exact (Steps.refl _).mono (Nat.zero_le 1)
  · have hmoved : RoleStep db published (some ⟨env,
        (replaceCatalog sha256 db clientId iat catalog).2, [clientId], none,
        ⟨forceCurrent state catalog, (replaceCatalog sha256 db clientId iat catalog).1⟩⟩) := by
      refine .published (replaceCatalog_unreported catalog) ?_ hpublish
      intro other sub hout
      refine replaceCatalog_stays catalog ?_ sub
      rintro rfl
      exact hout ⟨List.mem_cons_self, by simp⟩
    have haside : RoleStep published { published with orgAuditLog := log } none :=
      step_aside rfl rfl rfl
    exact hmoved.published_steps.trans haside.written_steps

theorem receiveEvent_steps {event : IncomingEvent}
    (h : receiveEvent env sha256 clientId iat db event = .ok db') :
    Steps (if event.catalog.isSome then 1 else 0) db db' := by
  obtain ⟨digest, -, hreception⟩ := receiveEvent_ok h
  cases hreception with
  | repeated => exact (Steps.refl _).mono (Nat.zero_le _)
  | acknowledged hplain hfree hreceipt => exact (bindReceipt_steps hreceipt).mono (Nat.zero_le _)
  | repeatedCatalog hcatalog hensured =>
    exact (ensureRoleSyncState_steps hensured).mono (Nat.zero_le _)
  | ordered hcatalog hensured hversion hnew hfree happlied hreceipt =>
    have happly := (ensureRoleSyncState_steps hensured).trans (applyCatalog_steps happlied)
    rw [hcatalog]
    rcases hreceipt with ⟨-, -, rfl⟩ | hreceipt
    · exact happly
    · exact happly.trans (bindReceipt_steps hreceipt)

/-- The catalogs among the events of an envelope. -/
def catalogCount (events : List IncomingEvent) : ℕ := events.countP fun e => e.catalog.isSome

theorem receiveEvents_steps {time : EnvelopeTime} {clock : ℕ → ℤ} {events : List IncomingEvent}
    {asked : ℕ} (h : receiveEvents env sha256 clientId time clock asked events db = .ok db') :
    Steps (catalogCount events) db db' := by
  induction events generalizing asked db with
  | nil =>
    rw [receiveEvents] at h
    rw [← Except.ok.inj h]
    exact Steps.refl _
  | cons event rest ih =>
    simp only [receiveEvents, bind_eq_ok] at h
    obtain ⟨-, -, received, hreceived, h⟩ := h
    refine ((receiveEvent_steps hreceived).trans (ih h)).mono ?_
    simp only [catalogCount, List.countP_cons]
    omega

theorem receiveEvent_members {event : IncomingEvent}
    (h : receiveEvent env sha256 clientId iat db event = .ok db') :
    db'.userOrgRoles = db.userOrgRoles ∧ db'.orgRoles = db.orgRoles := by
  have hensure : ∀ {state ensured}, ensureRoleSyncState env db clientId = .ok (state, ensured) →
      ensured.userOrgRoles = db.userOrgRoles ∧ ensured.orgRoles = db.orgRoles := by
    intro state ensured hensured
    have htables := (ensureRoleSyncState_unpublished hensured).1.tables
    exact ⟨by rw [htables], by rw [htables]⟩
  obtain ⟨digest, -, hreception⟩ := receiveEvent_ok h
  cases hreception with
  | repeated => exact ⟨rfl, rfl⟩
  | acknowledged hplain hfree hreceipt =>
    obtain ⟨type, -, rfl⟩ := bindReceipt_ok hreceipt
    exact ⟨rfl, rfl⟩
  | repeatedCatalog hcatalog hensured => exact hensure hensured
  | @ordered catalog state ensured applied _ order hcatalog hensured hversion hnew hfree happlied
      hreceipt =>
    have happly : applied.userOrgRoles = db.userOrgRoles ∧ applied.orgRoles = db.orgRoles := by
      rw [← (hensure hensured).1, ← (hensure hensured).2]
      rcases (applyCatalog_ok happlied).2 with ⟨-, rfl⟩ | ⟨-, changed, published, log, hpublish, rfl⟩
      · exact ⟨rfl, rfl⟩
      · obtain ⟨overrides, defaults, -, -, heq⟩ :=
          replaceCatalog_eq sha256 ensured clientId iat catalog
        have htables := (publishClients_unpublished hpublish).tables
        rw [heq] at htables
        show published.userOrgRoles = _ ∧ published.orgRoles = _
        rw [htables]
        exact ⟨rfl, rfl⟩
    rcases hreceipt with ⟨-, -, rfl⟩ | hreceipt
    · exact happly
    · obtain ⟨type, -, rfl⟩ := bindReceipt_ok hreceipt
      exact happly

end Incoming

/-- The publications a transaction may make for a client. -/
def RoleTransaction.reconciliations : RoleTransaction → ℕ
  | .admin _ _ _ => 1
  | .incoming _ _ _ _ events => catalogCount events

theorem RoleTransaction.steps {sha256 : JsString → Digest} {transaction : RoleTransaction}
    {db db' : Db} (hmembers : Memberships db) (h : transaction.work sha256 db = .ok db') :
    Steps transaction.reconciliations db db' := by
  cases transaction with
  | admin env actorSub call => exact AdminCall.steps hmembers h
  | incoming env clientId time clock events =>
    exact receiveEvents_steps (processIncomingEvents_ok h).2

theorem AdminCall.memberships {env : Surroundings} {actorSub : JsString} {call : AdminCall}
    {db db' : Db} (hmembers : Memberships db) (h : call.run env actorSub db = .ok db') :
    Memberships db' := by
  cases call with
  | applyUserAccess targetSub changes action =>
    obtain ⟨change, permissions, published, log, hchecked, -, hpublish, rfl⟩ := applyUserAccess_ok h
    have htables := (publishIf_unpublished hpublish).tables
    intro sub slug hmember
    show published.orgRoles.contains slug = true
    change published.userOrgRoles.find? sub = some slug at hmember
    rw [htables] at hmember ⊢
    show db.orgRoles.contains slug = true
    cases horg : change.orgRole with
    | none =>
      simp only [UserChange.write, horg, Option.elim_none] at hmember
      exact hmembers sub slug hmember
    | some stored =>
      simp only [UserChange.write, horg, Option.elim_some, Table.find?_upsert] at hmember
      split at hmember
      · rw [← Option.some.inj hmember]
        obtain ⟨role, hrole, -⟩ := hchecked.orgRole stored horg
        exact (Table.contains_iff _ _).mpr ⟨role, hrole⟩
      · exact hmembers sub slug hmember
  | applyRoleAccess slug changes action =>
    obtain ⟨change, permissions, published, log, -, -, hpublish, rfl⟩ := applyRoleAccess_ok h
    have htables := (publishIf_unpublished hpublish).tables
    intro sub slug hmember
    show published.orgRoles.contains slug = true
    change published.userOrgRoles.find? sub = some slug at hmember
    rw [htables] at hmember ⊢
    exact hmembers sub slug hmember
  | createOrgRole body =>
    cases hcreate : DreamSso.createOrgRole db actorSub body with
    | error failure => simp [AdminCall.run, hcreate, Except.map] at h
    | ok created =>
      simp only [AdminCall.run, hcreate, Except.map, Except.ok.injEq] at h
      subst h
      obtain ⟨actor, role, permissions, defaults, log, -, -, -, -, -, -, heq⟩ :=
        createOrgRole_ok hcreate
      intro sub slug hmember
      rw [heq] at hmember ⊢
      simp only [Table.contains_upsert, hmembers sub slug hmember, Bool.or_true]
  | patchOrgRole slug body =>
    obtain ⟨actor, stored, role, edited, log, -, -, -, -, rfl⟩ := patchOrgRole_ok h
    intro sub slug hmember
    simp only [Table.contains_upsert, hmembers sub slug hmember, Bool.or_true]
  | deleteOrgRole slug =>
    obtain ⟨actor, stored, log, -, hunused, rfl⟩ := deleteOrgRole_ok h
    intro sub slug hmember
    simp only [dropOrgRole, Table.find?_deleteWhere, Option.filter_eq_some_iff, Bool.not_eq_true',
      decide_eq_false_iff_not] at hmember
    obtain ⟨role, hrole⟩ := (Table.contains_iff _ _).mp (hmembers sub slug hmember.1)
    simp [dropOrgRole, Table.contains, hrole, hmember.2, Option.filter]
  | setDefaultOrgRole slug =>
    obtain ⟨settings, log, rfl⟩ := setDefaultOrgRole_ok h
    exact hmembers
  | createOrgUser input =>
    obtain ⟨actor, created, stored, role, identity, log, -, -, -, hrole, -, -, -, -, rfl⟩ :=
      createOrgUser_ok h
    intro sub slug hmember
    simp only [Table.find?_upsert] at hmember
    split at hmember
    · rw [← Option.some.inj hmember]
      exact (Table.contains_iff _ _).mpr ⟨role, hrole⟩
    · exact hmembers sub slug hmember

theorem RoleTransaction.memberships {sha256 : JsString → Digest} {transaction : RoleTransaction}
    {db db' : Db} (hmembers : Memberships db) (h : transaction.work sha256 db = .ok db') :
    Memberships db' := by
  cases transaction with
  | admin env actorSub call => exact AdminCall.memberships hmembers h
  | incoming env clientId time clock events =>
    refine receiveEvents_preserves Memberships ?_ (processIncomingEvents_ok h).2 hmembers
    intro s event t _ hs hst
    obtain ⟨hmember, hroles⟩ := receiveEvent_members hst
    intro sub slug hsub
    rw [hmember] at hsub
    rw [hroles]
    exact hs sub slug hsub

end DreamSso
