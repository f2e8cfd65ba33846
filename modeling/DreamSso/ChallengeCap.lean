import DreamSso.LoginTransactions
import Mathlib.Data.Set.Card

/-!
Any number of concurrent requests on one login transaction. In every run in which
nobody looks the transaction up while another request that has looked it up may
still evaluate a factor, write it, delete it or create a code, every refused
factor is counted, a deleted transaction stays away, and there is one code at most.
-/
namespace DreamSso

open Interleaving JsStrings Transitions

section Runs

variable {ι : Type} [DecidableEq ι] (id : JsString) (reqs : ι → CardRequest)
  (calls : ι → CardCall)

/-- The requests all name the one transaction. -/
def onTransaction (i : ι) : CardRequest := { reqs i with txn := id }

def cardRuns (P : Primitives) :
    System (Config ι Command Command.Reply Sso Response) (Move ι Outside Sso.Drift) :=
  (ssoServer P).system (fun _ => True) fun i => (calls i).handler P (onTransaction id reqs i)

abbrev protocolOf (i : ι) : Protocol Command Command.Reply CardPhase :=
  cardProtocol id (onTransaction id reqs i) (calls i)

/-- A strong factor of the request has been refused. -/
def FailedAttempt (log : List (Entry ι Command Command.Reply)) (i : ι) : Prop :=
  (protocolOf id reqs calls i).Passed .before (fun g => ∃ t, g = .refused t) i log

def FailuresWithin (log : List (Entry ι Command Command.Reply)) (n : ℕ) : Prop :=
  {i | FailedAttempt id reqs calls log i}.encard ≤ n

def createsCode (e : Entry ι Command Command.Reply) : Bool := e.command.createsCode

/-- `consumeTxn` and the burn of a transaction. -/
def deletesTxn (e : Entry ι Command Command.Reply) : Prop := e.command = .del [.txn id]

def Command.finds : (c : Command) → Option c.Reply → Bool
  | .get (.txn id'), r => decide (id' = id) && r.any Option.isSome
  | _, _ => false

/-- The entry returns the transaction, writes it, evaluates a factor for it or
creates a code from it. -/
def revives (e : Entry ι Command Command.Reply) : Bool :=
  e.command.usesTxn id || Command.finds id e.command e.reply

/-- Nothing happens to the transaction after its deletion. -/
def StaysDeleted (log : List (Entry ι Command Command.Reply)) : Prop :=
  ∀ earlier e later, log = earlier ++ e :: later → deletesTxn id e →
    ∀ e' ∈ later, revives id e' = false

/-- Nothing is deleted yet, with bounds on the codes and the refused factors. -/
structure Undeleted (log : List (Entry ι Command Command.Reply)) (codes failures : ℕ) : Prop where
  deletions : ∀ e ∈ log, ¬ deletesTxn id e
  codes : log.countP createsCode ≤ codes
  failures : FailuresWithin id reqs calls log failures

/-- The transaction is open and its record counts every refused factor. -/
structure OpenTxn (s : Sso) (log : List (Entry ι Command Command.Reply)) : Prop where
  undeleted : Undeleted id reqs calls log 0 (MAX_CHALLENGE_ATTEMPTS - 1)
  counted : ∀ e, s.redis (.txn id) = some e → FailuresWithin id reqs calls log e.value.attempts

/-- The transaction has been deleted. -/
structure ClosedTxn (s : Sso) (log : List (Entry ι Command Command.Reply)) : Prop where
  gone : s.redis (.txn id) = none
  stays : StaysDeleted id log
  codes : log.countP createsCode ≤ 1
  failures : FailuresWithin id reqs calls log MAX_CHALLENGE_ATTEMPTS

def QuietTxn (s : Sso) (log : List (Entry ι Command Command.Reply)) : Prop :=
  OpenTxn id reqs calls s log ∨ ClosedTxn id reqs calls s log

/-- What is known while a request is past its lookup. -/
def HeldTxn (g : CardPhase) (s : Sso) (log : List (Entry ι Command Command.Reply)) : Prop :=
  match g with
  | .read t _ => OpenTxn id reqs calls s log ∧ FailuresWithin id reqs calls log t.attempts
  | .accepted t _ => OpenTxn id reqs calls s log ∧ FailuresWithin id reqs calls log t.attempts
  | .refused t => Undeleted id reqs calls log 0 MAX_CHALLENGE_ATTEMPTS ∧
      FailuresWithin id reqs calls log (t.attempts + 1)
  | .coded => Undeleted id reqs calls log 1 MAX_CHALLENGE_ATTEMPTS
  | .before => QuietTxn id reqs calls s log
  | .ended => QuietTxn id reqs calls s log

variable {id reqs calls} {P : Primitives} {out : Outside} {s s' : Sso}
  {log : List (Entry ι Command Command.Reply)} {i : ι} {c : Command} {r : Option c.Reply}

theorem FailuresWithin.mono {n m : ℕ} (h : FailuresWithin id reqs calls log n) (hle : n ≤ m) :
    FailuresWithin id reqs calls log m := h.trans (Nat.cast_le.mpr hle)

theorem failures_nil (n : ℕ) : FailuresWithin id reqs calls [] n := by
  have hnone : ∀ i, i ∉ {i | FailedAttempt id reqs calls [] i} := by
    intro i hi
    rw [Set.mem_ofPred_eq, FailedAttempt] at hi
    refine Protocol.not_passed_nil (protocolOf id reqs calls i) ?_ i hi
    rintro ⟨t, ht⟩
    cases ht
  rw [FailuresWithin, Set.eq_empty_of_forall_notMem hnone, Set.encard_empty]
  exact zero_le

/-- A step that refuses nothing adds no failure. -/
theorem FailuresWithin.append {n : ℕ} (h : FailuresWithin id reqs calls log n)
    (hnot : ∀ t, (protocolOf id reqs calls i).next
      ((protocolOf id reqs calls i).view .before i log) c r ≠ .refused t) :
    FailuresWithin id reqs calls (log ++ [⟨i, c, r⟩]) n := by
  refine (Set.encard_le_encard fun j hj => ?_).trans h
  rw [Set.mem_ofPred_eq, FailedAttempt] at hj ⊢
  refine @Protocol.passed_of_append _ _ _ _ _ (protocolOf id reqs calls) (fun _ => .before) _ i j
    log c r ?_ hj
  rintro ⟨t, ht⟩
  exact absurd ht (hnot t)

/-- Any step adds at most one. -/
theorem FailuresWithin.step {n : ℕ} (h : FailuresWithin id reqs calls log n) :
    FailuresWithin id reqs calls (log ++ [⟨i, c, r⟩]) (n + 1) := by
  have hsub : {j | FailedAttempt id reqs calls (log ++ [⟨i, c, r⟩]) j} ⊆
      insert i {j | FailedAttempt id reqs calls log j} := by
    intro j hj
    by_cases hij : i = j
    · exact .inl hij.symm
    · rw [Set.mem_ofPred_eq, FailedAttempt] at hj
      exact .inr (@Protocol.passed_of_append_other _ _ _ _ _ (protocolOf id reqs calls)
        (fun _ => .before) _ i j hij log c r hj)
  calc {j | FailedAttempt id reqs calls (log ++ [⟨i, c, r⟩]) j}.encard
      ≤ (insert i {j | FailedAttempt id reqs calls log j}).encard := Set.encard_le_encard hsub
    _ ≤ {j | FailedAttempt id reqs calls log j}.encard + 1 := Set.encard_insert_le _ _
    _ ≤ n + 1 := add_le_add_left h 1

omit [DecidableEq ι] in
theorem codes_append {n : ℕ} (h : log.countP createsCode ≤ n) (hc : c.createsCode = false) :
    List.countP createsCode (log ++ [⟨i, c, r⟩]) ≤ n := by
  rw [List.countP_append, List.countP_singleton, createsCode, hc]
  exact h

omit [DecidableEq ι] in
theorem StaysDeleted.append (h : StaysDeleted id log) {e : Entry ι Command Command.Reply}
    (hnew : (∀ e' ∈ log, ¬ deletesTxn id e') ∨ revives id e = false) :
    StaysDeleted id (log ++ [e]) := by
  intro earlier x later heq hx e' he'
  rcases List.eq_nil_or_concat later with rfl | ⟨init, last, rfl⟩
  · cases he'
  · rw [List.concat_eq_append, ← List.cons_append, ← List.append_assoc] at heq
    obtain ⟨hlog, hlast⟩ := List.append_inj' heq rfl
    have hmem : x ∈ log := hlog ▸ List.mem_append_right _ List.mem_cons_self
    rcases hnew with hnone | hquiet
    · exact absurd hx (hnone x hmem)
    · rw [List.concat_eq_append] at he'
      rcases List.mem_append.mp he' with hold | hnew
      · exact h earlier x init hlog hx e' hold
      · rw [List.mem_singleton.mp hnew, ← (List.cons.inj hlast).1]
        exact hquiet

omit [DecidableEq ι] in
theorem StaysDeleted.of_undeleted (h : ∀ e ∈ log, ¬ deletesTxn id e) : StaysDeleted id log :=
  fun _ e _ heq he => absurd he (h e (heq ▸ List.mem_append_right _ List.mem_cons_self))

theorem Undeleted.append {codes failures failures' : ℕ}
    (h : Undeleted id reqs calls log codes failures) (hc : c ≠ .del [.txn id])
    (hcode : c.createsCode = false)
    (hfailures : FailuresWithin id reqs calls (log ++ [⟨i, c, r⟩]) failures') :
    Undeleted id reqs calls (log ++ [⟨i, c, r⟩]) codes failures' where
  deletions e he := by
    rcases List.mem_append.mp he with hold | hnew
    · exact h.deletions e hold
    · rw [List.mem_singleton.mp hnew]
      exact hc
  codes := codes_append h.codes hcode
  failures := hfailures

theorem Undeleted.mono {codes codes' failures failures' : ℕ}
    (h : Undeleted id reqs calls log codes failures) (hcodes : codes ≤ codes')
    (hfailures : failures ≤ failures') : Undeleted id reqs calls log codes' failures' :=
  ⟨h.deletions, h.codes.trans hcodes, h.failures.mono hfailures⟩

/-- A step that neither ends the transaction nor fails an attempt. -/
structure Mild (id : JsString) (reqs : ι → CardRequest) (calls : ι → CardCall)
    (log : List (Entry ι Command Command.Reply)) (i : ι) (c : Command) (r : Option c.Reply) :
    Prop where
  deletion : c ≠ .del [.txn id]
  code : c.createsCode = false
  refuses : ∀ t, (protocolOf id reqs calls i).next
    ((protocolOf id reqs calls i).view .before i log) c r ≠ .refused t

/-- A step that has nothing to do with the transaction. -/
structure Aside (id : JsString) (reqs : ι → CardRequest) (calls : ι → CardCall)
    (log : List (Entry ι Command Command.Reply)) (i : ι) (c : Command) (r : Option c.Reply) :
    Prop where
  uses : c.usesTxn id = false
  refuses : ∀ t, (protocolOf id reqs calls i).next
    ((protocolOf id reqs calls i).view .before i log) c r ≠ .refused t

theorem Aside.mild (h : Aside id reqs calls log i c r) : Mild id reqs calls log i c r := by
  have huses := h.uses
  rw [Command.usesTxn, Bool.or_eq_false_iff, Bool.or_eq_false_iff] at huses
  refine ⟨fun hc => ?_, huses.2, h.refuses⟩
  rw [hc] at huses
  exact of_decide_eq_false huses.1.1 (List.mem_singleton_self _)

theorem OpenTxn.append (h : OpenTxn id reqs calls s log) (hmild : Mild id reqs calls log i c r)
    (hkey : s'.redis (.txn id) = s.redis (.txn id)) :
    OpenTxn id reqs calls s' (log ++ [⟨i, c, r⟩]) where
  undeleted := h.undeleted.append hmild.deletion hmild.code
    (h.undeleted.failures.append hmild.refuses)
  counted e he := (h.counted e (hkey ▸ he)).append hmild.refuses

theorem ClosedTxn.append (h : ClosedTxn id reqs calls s log)
    (haside : Aside id reqs calls log i c r) (hfinds : Command.finds id c r = false)
    (hkey : s'.redis (.txn id) = s.redis (.txn id)) :
    ClosedTxn id reqs calls s' (log ++ [⟨i, c, r⟩]) where
  gone := hkey.trans h.gone
  stays := by
    refine h.stays.append (.inr ?_)
    show (c.usesTxn id || Command.finds id c r) = false
    rw [haside.uses, hfinds]
    rfl
  codes := codes_append h.codes haside.mild.code
  failures := h.failures.append haside.refuses

theorem idle_uses (h : c.idle = true) : c.usesTxn id = false := by
  cases c with
  | ask q => cases q <;> first | rfl | exact absurd h Bool.false_ne_true
  | _ => first | rfl | exact absurd h Bool.false_ne_true

theorem idle_finds (h : c.idle = true) : Command.finds id c r = false := by
  cases c with
  | _ => first | rfl | exact absurd h Bool.false_ne_true

/-- An idle command of a request keeps its record in hand or ends the request. -/
theorem next_idle {req : CardRequest} {call : CardCall} {g : CardPhase} (hg : g.pending = false)
    (hc : c.idle = true) :
    CardCall.next req call id g c (Sso.perform P out c s).1 = g ∨
      CardCall.next req call id g c (Sso.perform P out c s).1 = .ended ∨
      ∃ t drawn drawn', g = .read t drawn ∧
        CardCall.next req call id g c (Sso.perform P out c s).1 = .read t drawn' := by
  cases g with
  | before =>
    refine .inl ?_
    cases c with
    | _ => first | rfl | exact absurd hc Bool.false_ne_true
  | read t drawn =>
    refine .inr (.inr ⟨t, drawn, ?_⟩)
    cases c with
    | randomBytes => exact ⟨_, rfl, rfl⟩
    | ask q => cases q <;> first | exact ⟨_, rfl, rfl⟩ | exact absurd hc Bool.false_ne_true
    | _ => first | exact ⟨_, rfl, rfl⟩ | exact absurd hc Bool.false_ne_true
  | accepted t challenge =>
    have hanswer : CardCall.next req call id (.accepted t challenge) c (Sso.perform P out c s).1 =
        if (Sso.perform P out c s).1.isSome then .accepted t challenge else .ended := by
      cases c with
      | _ => first | rfl | exact absurd hc Bool.false_ne_true
    rw [hanswer]
    split_ifs
    · exact .inl rfl
    · exact .inr (.inl rfl)
  | refused t => cases hg
  | coded => cases hg
  | ended => exact .inl rfl

theorem aside_of_idle (hpending : ((protocolOf id reqs calls i).view .before i log).pending = false)
    (hc : c.idle = true) : Aside id reqs calls log i c (Sso.perform P out c s).1 where
  uses := idle_uses hc
  refuses t ht := by
    have hnext : CardCall.next (onTransaction id reqs i) (calls i) id
        ((protocolOf id reqs calls i).view .before i log) c (Sso.perform P out c s).1 =
          .refused t := ht
    rcases @next_idle id P out s c (onTransaction id reqs i) (calls i) _ hpending hc with
      h | h | ⟨t', drawn, drawn', -, h⟩
    · rw [h] at hnext
      rw [hnext] at hpending
      cases hpending
    · rw [h] at hnext
      cases hnext
    · rw [h] at hnext
      cases hnext

theorem QuietTxn.append (h : QuietTxn id reqs calls s log)
    (haside : Aside id reqs calls log i c r) (hfinds : Command.finds id c r = false)
    (hkey : s'.redis (.txn id) = s.redis (.txn id)) :
    QuietTxn id reqs calls s' (log ++ [⟨i, c, r⟩]) :=
  h.imp (fun h => h.append haside.mild hkey) fun h => h.append haside hfinds hkey

/-- Others' steps keep what a request in any phase knows. -/
theorem HeldTxn.append {g : CardPhase} (h : HeldTxn id reqs calls g s log)
    (haside : Aside id reqs calls log i c r) (hfinds : Command.finds id c r = false)
    (hkey : s'.redis (.txn id) = s.redis (.txn id)) :
    HeldTxn id reqs calls g s' (log ++ [⟨i, c, r⟩]) := by
  cases g with
  | read t drawn => exact ⟨h.1.append haside.mild hkey, h.2.append haside.refuses⟩
  | accepted t challenge => exact ⟨h.1.append haside.mild hkey, h.2.append haside.refuses⟩
  | refused t =>
    exact ⟨h.1.append haside.mild.deletion haside.mild.code (h.1.failures.append haside.refuses),
      h.2.append haside.refuses⟩
  | coded =>
    exact Undeleted.append h haside.mild.deletion haside.mild.code
      ((Undeleted.failures h).append haside.refuses)
  | before => exact QuietTxn.append h haside hfinds hkey
  | ended => exact QuietTxn.append h haside hfinds hkey

theorem refusal_ne_before {call : CardCall} {t : LoginTxn} {drawn : Option JsString} :
    call.refusal t drawn ≠ .before := by
  unfold CardCall.refusal
  split <;> exact fun h => by cases h

theorem refusal_or {call : CardCall} {t : LoginTxn} {drawn : Option JsString} :
    call.refusal t drawn = .refused t ∨ (call.refusal t drawn).record = some t := by
  unfold CardCall.refusal
  split
  · exact .inl rfl
  · exact .inr rfl

/-- Past its lookup a request stays past it. -/
theorem next_ne_before {req : CardRequest} {call : CardCall} {g : CardPhase} (hg : g ≠ .before) :
    CardCall.next req call id g c r ≠ .before := by
  unfold CardCall.next CardPhase.written CardPhase.code CardCall.afterTotp
  split
  all_goals first
    | exact absurd rfl hg
    | exact hg
    | exact fun h => by cases h
    | (split_ifs <;> first | exact refusal_ne_before | exact fun h => by cases h)
    | skip
  · unfold CardCall.afterRow
    split
    · split_ifs
      · exact refusal_ne_before
      · exact fun h => by cases h
    · exact fun h => by cases h
  · unfold CardCall.afterVerify
    split
    · exact fun h => by cases h
    · exact refusal_ne_before

theorem failures_of_get {t : LoginTxn} (h : OpenTxn id reqs calls s log)
    (hget : ExpiringStore.get s.redis s.clock (.txn id) = some t) :
    FailuresWithin id reqs calls log t.attempts := by
  obtain ⟨e, he, rfl⟩ := Option.map_eq_some_iff.mp hget
  exact h.counted e (Option.filter_eq_some_iff.mp he).1

/-- The lookup, whatever it finds. -/
theorem lookup_txn (hview : (protocolOf id reqs calls i).view .before i log = .before)
    (h : QuietTxn id reqs calls s log) :
    HeldTxn id reqs calls
      ((protocolOf id reqs calls i).next .before (.get (.txn id))
        (some (ExpiringStore.get s.redis s.clock (.txn id)))) s
      (log ++ [⟨i, .get (.txn id), some (ExpiringStore.get s.redis s.clock (.txn id))⟩]) := by
  have hnext : ∀ r, (protocolOf id reqs calls i).next .before (.get (.txn id)) r =
      (calls i).afterLookup (onTransaction id reqs i) r := fun _ => if_pos rfl
  have haside : ∀ r : Option (Option LoginTxn),
      (∀ t, (calls i).afterLookup (onTransaction id reqs i) r ≠ .refused t) →
      Aside id reqs calls log i (.get (.txn id)) r := by
    intro r hr
    refine ⟨rfl, fun t => ?_⟩
    rw [hview, hnext]
    exact hr t
  rw [hnext]
  cases hget : ExpiringStore.get s.redis s.clock (.txn id) with
  | none =>
    refine QuietTxn.append h (haside _ fun t ht => by cases ht) ?_ rfl
    exact Bool.and_false _
  | some t =>
    rcases h with hopen | hclosed
    · have hcounted := failures_of_get hopen hget
      by_cases hrefused : (calls i).refusedAtOnce (onTransaction id reqs i) t = true
      · have hphase : (calls i).afterLookup (onTransaction id reqs i) (some (some t)) =
            .refused t := if_pos hrefused
        rw [hphase]
        have hundeleted := hopen.undeleted
        exact ⟨hundeleted.append (fun h => by cases h) rfl hundeleted.failures.step,
          hcounted.step⟩
      · have hphase := afterLookup_read (eq_false_of_ne_true hrefused)
        rw [hphase]
        have hread := haside (some (some t)) fun t' => by
          rw [hphase]
          exact fun h => by cases h
        exact ⟨hopen.append hread.mild rfl, hcounted.append hread.refuses⟩
    · rw [ExpiringStore.get_of_none hclosed.gone] at hget
      cases hget

theorem HeldTxn.quiet {g : CardPhase} (h : HeldTxn id reqs calls g s log)
    (hg : g.pending = false) : QuietTxn id reqs calls s log := by
  cases g with
  | read t drawn => exact .inl h.1
  | accepted t challenge => exact .inl h.1
  | refused t => cases hg
  | coded => cases hg
  | before => exact h
  | ended => exact h

section Steps

variable {g g' : CardPhase} {t t' : LoginTxn}
  (hnext : (protocolOf id reqs calls i).next
    ((protocolOf id reqs calls i).view .before i log) c r = g')

include hnext

/-- An evaluated factor is refused, or the record stays in hand. -/
theorem evaluated (h : OpenTxn id reqs calls s log ∧ FailuresWithin id reqs calls log t.attempts)
    (hc : c.evaluates = true) (hkey : s'.redis (.txn id) = s.redis (.txn id))
    (hg' : g' = .refused t ∨ g'.record = some t) :
    HeldTxn id reqs calls g' s' (log ++ [⟨i, c, r⟩]) := by
  have hdeletion : c ≠ .del [.txn id] := by
    rintro rfl
    cases hc
  have hcode : c.createsCode = false := by
    cases c with
    | _ => first | rfl | exact absurd hc Bool.false_ne_true
  rcases hg' with rfl | hrecord
  · have hundeleted := h.1.undeleted
    exact ⟨hundeleted.append hdeletion hcode hundeleted.failures.step, h.2.step⟩
  · have hmild : Mild id reqs calls log i c r := by
      refine ⟨hdeletion, hcode, fun t ht => ?_⟩
      rw [← hnext, ht] at hrecord
      cases hrecord
    have hkept := And.intro (h.1.append hmild hkey) (h.2.append hmild.refuses)
    obtain ⟨drawn, rfl⟩ | ⟨challenge, rfl⟩ := CardPhase.record_cases hrecord
    · exact hkept
    · exact hkept

/-- A code is created while the transaction is still there. -/
theorem coded (h : Undeleted id reqs calls log 0 (MAX_CHALLENGE_ATTEMPTS - 1))
    (hc : c ≠ .del [.txn id]) (hg' : g' = .coded) :
    Undeleted id reqs calls (log ++ [⟨i, c, r⟩]) 1 MAX_CHALLENGE_ATTEMPTS where
  deletions e he := by
    rcases List.mem_append.mp he with hold | hnew
    · exact h.deletions e hold
    · rw [List.mem_singleton.mp hnew]
      exact hc
  codes := by
    rw [List.countP_append]
    exact Nat.add_le_add h.codes List.countP_le_length
  failures := by
    refine (h.failures.mono (Nat.sub_le _ _)).append fun t ht => ?_
    rw [hnext, hg'] at ht
    cases ht

end Steps

/-- A write of the record in hand that counts every refused factor. -/
theorem written {t' : LoginTxn} (h : Undeleted id reqs calls log 0 MAX_CHALLENGE_ATTEMPTS)
    (hmax : FailuresWithin id reqs calls log (MAX_CHALLENGE_ATTEMPTS - 1))
    (hcounted : FailuresWithin id reqs calls log t'.attempts)
    (hnext : (protocolOf id reqs calls i).next
      ((protocolOf id reqs calls i).view .before i log) (.setKeepTtl (.txn id) t') (some ()) =
        .read t' none) :
    HeldTxn id reqs calls (.read t' none) (Sso.perform P out (.setKeepTtl (.txn id) t') s).2
      (log ++ [⟨i, .setKeepTtl (.txn id) t', some ()⟩]) := by
  have hrefuses : ∀ t, (protocolOf id reqs calls i).next
      ((protocolOf id reqs calls i).view .before i log) (.setKeepTtl (.txn id) t') (some ()) ≠
        .refused t := by
    intro t
    rw [hnext]
    exact fun h => by cases h
  refine ⟨⟨h.append (fun h => by cases h) rfl (hmax.append hrefuses), fun e he => ?_⟩,
    hcounted.append hrefuses⟩
  have hstored : e.value = t' := by
    rw [Sso.perform_setKeepTtl] at he
    rw [← Option.some.inj he]
  rw [hstored]
  exact hcounted.append hrefuses

/-- The deletion. -/
theorem deleted (h : Undeleted id reqs calls log 1 MAX_CHALLENGE_ATTEMPTS)
    (hnext : (protocolOf id reqs calls i).next
      ((protocolOf id reqs calls i).view .before i log) (.del [.txn id]) (some ()) = .ended) :
    HeldTxn id reqs calls .ended (Sso.perform P out (.del [.txn id]) s).2
      (log ++ [⟨i, .del [.txn id], some ()⟩]) := by
  refine .inr ⟨Sso.perform_del (List.mem_singleton_self _), ?_, codes_append h.codes rfl,
    h.failures.append fun t ht => ?_⟩
  · exact (StaysDeleted.of_undeleted h.deletions).append (.inl h.deletions)
  · rw [hnext] at ht
    cases ht

/-- What a request past its lookup does keeps what is known. -/
theorem HeldTxn.advance {g : CardPhase} (hview : (protocolOf id reqs calls i).view .before i log = g)
    (hholding : g ≠ .before) (hok : CardOk id g c) (h : HeldTxn id reqs calls g s log) :
    HeldTxn id reqs calls ((protocolOf id reqs calls i).next g c (Sso.perform P out c s).1)
      (Sso.perform P out c s).2 (log ++ [⟨i, c, (Sso.perform P out c s).1⟩]) := by
  cases hok with
  | lookup => exact absurd rfl hholding
  | idle hg hc =>
    have haside : Aside id reqs calls log i c (Sso.perform P out c s).1 :=
      aside_of_idle (hview ▸ hg) hc
    have hkey : (Sso.perform P out c s).2.redis (.txn id) = s.redis (.txn id) :=
      Sso.perform_redis (Bool.or_eq_false_iff.mp (Bool.or_eq_false_iff.mp haside.uses).1).1
    rcases @next_idle id P out s c (onTransaction id reqs i) (calls i) g hg hc with
      hnext | hnext | ⟨t, drawn, drawn', rfl, hnext⟩
    · have hkept := h.append haside (idle_finds hc) hkey
      show HeldTxn id reqs calls (CardCall.next _ _ _ _ _ _) _ _
      rw [hnext]
      exact hkept
    · have hkept := (h.quiet hg).append haside (idle_finds hc) hkey
      show HeldTxn id reqs calls (CardCall.next _ _ _ _ _ _) _ _
      rw [hnext]
      exact hkept
    · have hkept := h.append haside (idle_finds hc) hkey
      show HeldTxn id reqs calls (CardCall.next _ _ _ _ _ _) _ _
      rw [hnext]
      exact hkept
  | totp =>
    refine evaluated (congrArg (fun g => CardCall.next _ _ _ g _ _) hview) h rfl rfl ?_
    show CardCall.afterTotp _ _ _ _ = _ ∨ (CardCall.afterTotp _ _ _ _).record = _
    unfold CardCall.afterTotp
    split_ifs
    · exact refusal_or
    · exact .inr rfl
  | @credential t drawn credentialId =>
    refine evaluated (congrArg (fun g => CardCall.next _ _ _ g _ _) hview) h rfl rfl ?_
    have hnext : ∀ r, (protocolOf id reqs calls i).next (.read t drawn) (.passkeyRow credentialId) r =
        (calls i).afterRow t drawn r := fun _ => rfl
    rw [hnext]
    unfold CardCall.afterRow
    split
    · split_ifs
      · exact refusal_or
      · exact .inr rfl
    · exact .inr rfl
  | verify hch =>
    refine evaluated (congrArg (fun g => CardCall.next _ _ _ g _ _) hview) h rfl rfl ?_
    show CardCall.afterVerify _ _ _ _ _ = _ ∨ (CardCall.afterVerify _ _ _ _ _).record = _
    unfold CardCall.afterVerify
    split
    · exact .inr rfl
    · exact refusal_or
  | rewrite hattempts hchallenge =>
    exact written (h.1.undeleted.mono le_rfl (Nat.sub_le _ _)) h.1.undeleted.failures (h.2.mono hattempts) (congrArg (fun g => CardCall.next _ _ _ g _ _) hview)
  | settle hattempts hchallenge =>
    exact written (h.1.undeleted.mono le_rfl (Nat.sub_le _ _)) h.1.undeleted.failures (h.2.mono hattempts) (congrArg (fun g => CardCall.next _ _ _ g _ _) hview)
  | count hattempts hleft hchallenge =>
    have hcounted := h.2
    rw [← hattempts] at hcounted
    exact written h.1 (hcounted.mono (Nat.le_sub_one_of_lt hleft)) hcounted
      (congrArg (fun g => CardCall.next _ _ _ g _ _) hview)
  | burn hmax =>
    exact deleted (h.1.mono (Nat.zero_le _) le_rfl) (congrArg (fun g => CardCall.next _ _ _ g _ _) hview)
  | remove hg =>
    obtain ⟨drawn, rfl⟩ | ⟨challenge, rfl⟩ := CardPhase.record_cases hg
    · exact deleted (h.1.undeleted.mono (Nat.zero_le _) (Nat.sub_le _ _))
        (congrArg (fun g => CardCall.next _ _ _ g _ _) hview)
    · exact deleted (h.1.undeleted.mono (Nat.zero_le _) (Nat.sub_le _ _))
        (congrArg (fun g => CardCall.next _ _ _ g _ _) hview)
  | code hg =>
    obtain ⟨drawn, rfl⟩ | ⟨challenge, rfl⟩ := CardPhase.record_cases hg
    · exact coded (congrArg (fun g => CardCall.next _ _ _ g _ _) hview) h.1.undeleted
        (fun h => by cases h) rfl
    · exact coded (congrArg (fun g => CardCall.next _ _ _ g _ _) hview) h.1.undeleted
        (fun h => by cases h) rfl
  | removeCoded => exact deleted h (congrArg (fun g => CardCall.next _ _ _ g _ _) hview)

/-- A request looks the transaction up, leaves it alone, or has looked it up. -/
theorem ok_cases {g : CardPhase} (hok : CardOk id g c) :
    g = .before ∧ c = .get (.txn id) ∨ g.pending = false ∧ c.idle = true ∨
      g ≠ .before ∧ c.usesTxn id = true := by
  have hwrite : ∀ t, (Command.setKeepTtl (.txn id) t).usesTxn id = true := fun t => by
    simp [Command.usesTxn, Command.writesKey]
  have hdelete : (Command.del [.txn id]).usesTxn id = true := by
    simp [Command.usesTxn, Command.writesKey]
  have hrecord : ∀ {g : CardPhase} {t}, g.record = some t → g ≠ .before := by
    rintro g t hg rfl
    cases hg
  cases hok with
  | lookup => exact .inl ⟨rfl, rfl⟩
  | idle hg hc => exact .inr (.inl ⟨hg, hc⟩)
  | totp => exact .inr (.inr ⟨nofun, rfl⟩)
  | credential => exact .inr (.inr ⟨nofun, rfl⟩)
  | verify hch => exact .inr (.inr ⟨nofun, rfl⟩)
  | rewrite hattempts hchallenge => exact .inr (.inr ⟨nofun, hwrite _⟩)
  | settle hattempts hchallenge => exact .inr (.inr ⟨nofun, hwrite _⟩)
  | count hattempts hleft hchallenge => exact .inr (.inr ⟨nofun, hwrite _⟩)
  | burn hmax => exact .inr (.inr ⟨nofun, hdelete⟩)
  | remove hg => exact .inr (.inr ⟨hrecord hg, hdelete⟩)
  | code hg => exact .inr (.inr ⟨hrecord hg, rfl⟩)
  | removeCoded => exact .inr (.inr ⟨nofun, hdelete⟩)

theorem before_idle {req : CardRequest} {call : CardCall} (hc : c.idle = true) :
    CardCall.next req call id .before c r = .before := by
  cases c with
  | _ => first | rfl | exact absurd hc Bool.false_ne_true

theorem lookup_ne_before {req : CardRequest} {call : CardCall} (r : Option (Option LoginTxn)) :
    CardCall.next req call id .before (.get (.txn id)) r ≠ .before := by
  have hnext : CardCall.next req call id .before (.get (.txn id)) r = call.afterLookup req r :=
    if_pos rfl
  rw [hnext]
  unfold CardCall.afterLookup
  split
  · split_ifs <;> exact fun h => by cases h
  · exact fun h => by cases h

/-- A step outside the record's use by its holder has nothing to do with it. -/
theorem aside_of_ok {g : CardPhase} (hview : (protocolOf id reqs calls i).view .before i log = g)
    (hok : CardOk id g c) (huses : c.usesTxn id ≠ true)
    (hread : (protocolOf id reqs calls i).next g c (Sso.perform P out c s).1 ≠ .before →
      g ≠ .before) :
    Aside id reqs calls log i c (Sso.perform P out c s).1 ∧
      Command.finds id c (Sso.perform P out c s).1 = false ∧
      (Sso.perform P out c s).2.redis (.txn id) = s.redis (.txn id) := by
  rcases ok_cases hok with ⟨hg, rfl⟩ | ⟨hg, hc⟩ | ⟨-, hc⟩
  · rw [hg] at hread
    exact absurd rfl (hread (lookup_ne_before _))
  · have haside : Aside id reqs calls log i c (Sso.perform P out c s).1 :=
      aside_of_idle (hview ▸ hg) hc
    refine ⟨haside, idle_finds hc, Sso.perform_redis ?_⟩
    exact (Bool.or_eq_false_iff.mp (Bool.or_eq_false_iff.mp haside.uses).1).1
  · exact absurd hc huses

theorem OpenTxn.congr (h : OpenTxn id reqs calls s log) (hkeys : s'.redis = s.redis) :
    OpenTxn id reqs calls s' log :=
  ⟨h.undeleted, hkeys ▸ h.counted⟩

theorem QuietTxn.congr (h : QuietTxn id reqs calls s log) (hkeys : s'.redis = s.redis) :
    QuietTxn id reqs calls s' log :=
  h.imp (fun h => h.congr hkeys) fun h => ⟨hkeys ▸ h.gone, h.stays, h.codes, h.failures⟩

theorem HeldTxn.congr {g : CardPhase} (h : HeldTxn id reqs calls g s log)
    (hkeys : s'.redis = s.redis) : HeldTxn id reqs calls g s' log := by
  cases g with
  | read t drawn => exact ⟨h.1.congr hkeys, h.2⟩
  | accepted t challenge => exact ⟨h.1.congr hkeys, h.2⟩
  | refused t => exact h
  | coded => exact h
  | before => exact QuietTxn.congr h hkeys
  | ended => exact QuietTxn.congr h hkeys

/-- The transaction under its handlers. -/
def transactionDiscipline (P : Primitives) (id : JsString) (reqs : ι → CardRequest)
    (calls : ι → CardCall) :
    Discipline (ssoServer P) (protocolOf id reqs calls) (fun _ => .before)
      (fun _ : ι => cardPost) where
  reads c := c = .get (.txn id)
  writes _ c := c.usesTxn id = true
  holding g := g ≠ .before
  critical g := g.pending = true
  admits _ _ := True
  quiet := QuietTxn id reqs calls
  held _ := HeldTxn id reqs calls
  unread_writes i g c hbefore hok := by
    rcases ok_cases hok with ⟨-, rfl⟩ | ⟨-, hc⟩ | ⟨hg, -⟩
    · exact Bool.false_ne_true
    · rw [idle_uses hc]
      exact Bool.false_ne_true
    · exact absurd hg hbefore
  enters i g c r hbefore hok hafter := by
    rw [not_not.mp hbefore] at hafter
    rcases ok_cases hok with ⟨-, hc⟩ | ⟨-, hc⟩ | ⟨hg, -⟩
    · exact hc
    · exact absurd (before_idle hc) hafter
    · exact absurd hg hbefore
  keeps i g c r hholding hok := next_ne_before hholding
  critical_writes i g c hcritical hok := by
    rcases ok_cases hok with ⟨rfl, -⟩ | ⟨hg, -⟩ | ⟨-, hc⟩
    · exact absurd hcritical Bool.false_ne_true
    · rw [hg] at hcritical
      exact absurd hcritical Bool.false_ne_true
    · exact hc
  critical_post i g a hcritical hpost := by
    rw [cardPost, hcritical] at hpost
    cases hpost
  release i g s log hholding hcritical hheld := hheld.quiet (eq_false_of_ne_true hcritical)
  enter i g c out s log hview hbefore hok hafter hquiet := by
    rw [not_not.mp hbefore] at hview hafter ⊢
    rcases ok_cases hok with ⟨-, rfl⟩ | ⟨-, hc⟩ | ⟨hg, -⟩
    · exact lookup_txn hview hquiet
    · exact absurd (before_idle hc) hafter
    · exact absurd hg hbefore
  advance i g c out s log hview hholding hok hadmits hheld := hheld.advance hview hholding hok
  frame_quiet i g c out s log hview hok huses hread hquiet := by
    obtain ⟨haside, hfinds, hkey⟩ := aside_of_ok hview hok huses hread
    exact hquiet.append haside hfinds hkey
  frame_held i j g h c out s log hij hview hok huses hread hholding hheld := by
    obtain ⟨haside, hfinds, hkey⟩ := aside_of_ok hview hok huses hread
    exact hheld.append haside hfinds hkey
  drift_quiet e s s' log hdrift hquiet := hquiet.congr (Sso.drift_redis hdrift)
  drift_held i g e s s' log hdrift hholding hheld := hheld.congr (Sso.drift_redis hdrift)

/-- What holds of a transaction at any moment. -/
structure TxnBounds (id : JsString) (reqs : ι → CardRequest) (calls : ι → CardCall) (s : Sso)
    (log : List (Entry ι Command Command.Reply)) : Prop where
  failures : FailuresWithin id reqs calls log MAX_CHALLENGE_ATTEMPTS
  stays : StaysDeleted id log
  gone : (∃ e ∈ log, deletesTxn id e) → s.redis (.txn id) = none
  codes : log.countP createsCode ≤ 1

theorem Undeleted.bounds {codes failures : ℕ} (h : Undeleted id reqs calls log codes failures)
    (hcodes : codes ≤ 1) (hfailures : failures ≤ MAX_CHALLENGE_ATTEMPTS) :
    TxnBounds id reqs calls s log where
  failures := h.failures.mono hfailures
  stays := StaysDeleted.of_undeleted h.deletions
  gone hdeleted := by
    obtain ⟨e, he, hdel⟩ := hdeleted
    exact absurd hdel (h.deletions e he)
  codes := h.codes.trans hcodes

theorem QuietTxn.bounds (h : QuietTxn id reqs calls s log) : TxnBounds id reqs calls s log := by
  rcases h with hopen | hclosed
  · exact hopen.undeleted.bounds (Nat.zero_le _) (Nat.sub_le _ _)
  · exact ⟨hclosed.failures, hclosed.stays, fun _ => hclosed.gone, hclosed.codes⟩

theorem HeldTxn.bounds {g : CardPhase} (h : HeldTxn id reqs calls g s log) :
    TxnBounds id reqs calls s log := by
  cases g with
  | refused t => exact h.1.bounds (Nat.zero_le _) le_rfl
  | coded => exact Undeleted.bounds h le_rfl le_rfl
  | read t drawn => exact (HeldTxn.quiet h rfl).bounds
  | accepted t challenge => exact (HeldTxn.quiet h rfl).bounds
  | before => exact QuietTxn.bounds h
  | ended => exact QuietTxn.bounds h

/-- On one login transaction at most five strong-factor attempts fail, nothing
happens to it after its deletion and at most one code is created, in every run in
which no request looks it up while another one that has looked it up may still
evaluate a factor, write or delete the transaction or create a code. -/
theorem login_transaction_cap (P : Primitives) (id : JsString) (reqs : ι → CardRequest)
    (calls : ι → CardCall) {start cfg : Config ι Command Command.Reply Sso Response}
    {trace : List (Event (Config ι Command Command.Reply Sso Response)
      (Move ι Outside Sso.Drift))}
    (hstart : (cardRuns id reqs calls P).initial start)
    (hrun : Exec (cardRuns id reqs calls P) start trace cfg)
    (hguard : ∀ e ∈ trace, Undisturbed (fun c => c = .get (.txn id))
      (fun _ c => c.usesTxn id = true) e.before e.label) :
    {i | FailedAttempt id reqs calls cfg.log i}.encard ≤ MAX_CHALLENGE_ATTEMPTS ∧
      StaysDeleted id cfg.log ∧
      ((∃ e ∈ cfg.log, deletesTxn id e) → cfg.store.redis (.txn id) = none) ∧
      cfg.log.countP createsCode ≤ 1 := by
  obtain ⟨-, hlog, hprograms⟩ := hstart
  have hserial : (transactionDiscipline P id reqs calls).Serial cfg := by
    refine Discipline.Serial.run hrun hguard (fun _ _ => admitted_always _ _)
      (Discipline.serial_start hlog ?_ ?_ ?_)
    · intro i
      rw [hprograms]
      exact @handler_obeys P (onTransaction id reqs i) (calls i)
    · intro i hholding
      exact hholding rfl
    · exact .inl ⟨⟨fun e he => absurd he List.not_mem_nil, le_rfl, failures_nil _⟩,
        fun e _ => failures_nil _⟩
  have hbounds : TxnBounds id reqs calls cfg.store cfg.log := by
    rcases hserial.quiet_or_held with hquiet | ⟨i, -, hheld⟩
    · exact QuietTxn.bounds hquiet
    · exact HeldTxn.bounds hheld
  exact ⟨hbounds.failures, hbounds.stays, hbounds.gone, hbounds.codes⟩

end Runs

section Interleaved

/-- A transaction with a second factor pending and one attempt left. -/
def lastAttempt : LoginTxn where
  clientId := js "app"
  redirectUri := js "/cb"
  state := none
  nonce := none
  codeChallenge := js "v"
  codeChallengeMethod := js "S256"
  scope := js "openid"
  clientName := none
  localNext := none
  passkey := none
  mfa := some
    { sub := Uuid.numbered 1, userLabel := js "alice", kmsiLabel := none
      methods := [js "passkey", js "totp"], attempts := 4, maskedEmail := none, emailSent := false
      passkeyChallenge := none, stepupSid := none, stepupReturn := none }
  kmsi := none
  csrf := js "csrf"

def pendingSso : Sso :=
  { oneCodeSso with
    redis := ExpiringStore.setEx (fun _ => none) (.txn (js "txn")) lastAttempt 600000 }

/-- A wrong code, and a request for the passkey page. -/
def raceCalls : Bool → CardCall
  | false => .challenge (js "totp") (js "000000") none
  | true => .passkey none

def raceRequests (_ : Bool) : CardRequest := ⟨js "txn", some (js "csrf"), true, none⟩

def raceStart : Config Bool Command Command.Reply Sso Response :=
  ⟨pendingSso, [], fun i =>
    (raceCalls i).handler plainPrimitives (onTransaction (js "txn") raceRequests i)⟩

def raceSteps (schedule : List Bool) : List (Move Bool Outside Sso.Drift) :=
  schedule.map fun i => .act i wrongTotp

def Command.deletes (k : Key) : Command → Bool
  | .del keys => decide (keys = [k])
  | _ => false

theorem deletesTxn_of {ι : Type} {id : JsString} {e : Entry ι Command Command.Reply}
    (h : e.command.deletes (.txn id) = true) : deletesTxn id e := by
  obtain ⟨who, c, r⟩ := e
  cases c with
  | del keys => exact congrArg Command.del (of_decide_eq_true h)
  | _ => exact absurd h Bool.false_ne_true

/-- The last attempt fails and burns the transaction before anybody else looks it up. -/
theorem login_transaction_cap_oneAfterAnother :
    ∃ start trace cfg,
      (cardRuns (js "txn") raceRequests raceCalls plainPrimitives).initial start ∧
      Exec (cardRuns (js "txn") raceRequests raceCalls plainPrimitives) start trace cfg ∧
      cfg.store.redis (.txn (js "txn")) = none ∧ StaysDeleted (js "txn") cfg.log := by
  have hrun : (((raceSteps [false, false, false, false, true, true]).foldlM
      (ssoServer plainPrimitives).stepAlone raceStart).any
      fun cfg => cfg.log.any fun e => e.command.deletes (.txn (js "txn"))) = true := by
    decide +kernel
  obtain ⟨cfg, hcfg, hdeleted⟩ := (Option.any_eq_true ..).mp hrun
  obtain ⟨trace, hexec, hguard⟩ := Server.exec_of_moves_alone hcfg (fun _ => True)
    (fun i => (raceCalls i).handler plainPrimitives (onTransaction (js "txn") raceRequests i))
    (fun c => c = .get (.txn (js "txn"))) (fun _ c => c.usesTxn (js "txn") = true)
  obtain ⟨e, he, hdel⟩ := List.any_eq_true.mp hdeleted
  have hinitial : (cardRuns (js "txn") raceRequests raceCalls plainPrimitives).initial raceStart :=
    ⟨trivial, rfl, rfl⟩
  obtain ⟨-, hstays, hgone, -⟩ := login_transaction_cap plainPrimitives (js "txn") raceRequests
    raceCalls hinitial hexec hguard
  exact ⟨raceStart, trace, cfg, hinitial, hexec, hgone ⟨e, he, deletesTxn_of hdel⟩, hstays⟩

/-- The page is on its way to store a challenge while the last attempt burns the
transaction, and writes it back without an expiry. -/
theorem burned_transaction_restored :
    ∃ start trace cfg,
      (cardRuns (js "txn") raceRequests raceCalls plainPrimitives).initial start ∧
      Exec (cardRuns (js "txn") raceRequests raceCalls plainPrimitives) start trace cfg ∧
      (∃ e ∈ cfg.log, deletesTxn (js "txn") e) ∧
      ∃ t, cfg.store.redis (.txn (js "txn")) = some ⟨t, none⟩ := by
  have hrun : (((raceSteps [true, true, true, false, false, false, true]).foldlM
      (ssoServer plainPrimitives).step raceStart).any
      fun cfg => (cfg.log.any fun e => e.command.deletes (.txn (js "txn"))) &&
        (cfg.store.redis (.txn (js "txn"))).any fun e => e.deadline.isNone) = true := by
    decide +kernel
  obtain ⟨cfg, hcfg, hend⟩ := (Option.any_eq_true ..).mp hrun
  rw [Bool.and_eq_true] at hend
  obtain ⟨e, he, hdel⟩ := List.any_eq_true.mp hend.1
  obtain ⟨⟨t, deadline⟩, hstored, hforever⟩ := (Option.any_eq_true ..).mp hend.2
  obtain ⟨trace, hexec⟩ := Server.exec_of_moves hcfg (fun _ => True) fun i =>
    (raceCalls i).handler plainPrimitives (onTransaction (js "txn") raceRequests i)
  refine ⟨raceStart, trace, cfg, ⟨trivial, rfl, rfl⟩, hexec, ⟨e, he, deletesTxn_of hdel⟩, t, ?_⟩
  have hnone : deadline = none := Option.isNone_iff_eq_none.mp hforever
  rw [hstored, hnone]

end Interleaved

end DreamSso
