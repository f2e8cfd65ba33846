import DreamSso.MtlsPairs

/-!
Schedules that keep the outbound certificate and key a pair. An installation promotes its
key and stores its certificate in different steps; what matters is who comes between them,
whether a crash leaves them apart, and whether the pending key is still the one it has read.
-/
namespace DreamSso.Mtls

open Interleaving JsStrings Transitions
open SettingsCache (storedValue)

def Call.installs : Call → Bool
  | .installCert _ => true
  | _ => false

def Call.dispatches : Call → Bool
  | .outboundIdentity => true
  | _ => false

section Starts

variable {call : Call}

/-! The first phase of a call says which call it is. -/

theorem Call.eq_startSetup (h : call.start = .setup) : ∃ a b c, call = .startSetup a b c := by
  cases call <;> first | exact ⟨_, _, _, rfl⟩ | cases h

theorem Call.eq_installCert (h : call.start = .install) :
    ∃ certPem, call = .installCert certPem := by
  cases call <;> first | exact ⟨_, rfl⟩ | cases h

theorem Call.eq_reset (h : call.start = .resetting) : call = .reset := by
  cases call <;> first | rfl | cases h

theorem Call.eq_outboundIdentity (h : call.start = .outbound) : call = .outboundIdentity := by
  cases call <;> first | rfl | cases h

end Starts

/-- The command stores a key, the active one or the pending one. -/
def MtlsCommand.storesKey : MtlsCommand → Bool
  | .put .activeKey (some _) => true
  | .put .pendingKey (some _) => true
  | _ => false

/-- Only an installation stores an active key: it promotes the pending one. -/
def MtlsCommand.promotes : MtlsCommand → Bool
  | .put .activeKey (some _) => true
  | _ => false

def MtlsCommand.storesCert : MtlsCommand → Bool
  | .put .cert (some _) => true
  | _ => false

variable {ι : Type} [DecidableEq ι]

/-- No other call has stored a key since the first command of this one. -/
def KeysKept (log : List (MtlsEntry ι)) (i : ι) : Prop :=
  ∀ e ∈ log.dropWhile fun e => decide (e.who ≠ i), e.who ≠ i → e.command.storesKey = false

/-- Every installation that has promoted its key has stored its certificate: none is between
the two, or has crashed there. -/
def NonePromoting (log : List (MtlsEntry ι)) : Prop :=
  ∀ e ∈ log, e.command.promotes = true → ∃ e' ∈ log, e'.who = e.who ∧ e'.command.storesCert = true

/-- No key has been promoted since the call has read the certificate. -/
def NonePromotedSince (log : List (MtlsEntry ι)) (i : ι) : Prop :=
  ∀ e ∈ log.dropWhile fun e => decide (¬ (e.who = i ∧ e.command = .get .cert)),
    e.command.promotes = false

/-- An installation writes only while no other call has stored a key since it began. A reader
reads the certificate while no installation is between its key and its certificate, and the
active key while none has been promoted since. -/
def scheduled (calls : ι → Call) : Condition ι MtlsCommand MtlsCommand.Reply Settings ℤ where
  act _ log i c := match c with
    | .put _ _ => (calls i).installs = true → KeysKept log i
    | .get .cert => (calls i).dispatches = true → NonePromoting log
    | .get .activeKey => (calls i).dispatches = true → NonePromotedSince log i
    | _ => True
  drift _ _ _ := True

section Since

variable {α : Type} {p : α → Bool} {l : List α} {a b : α}

theorem since_snoc (h : a ∈ l.dropWhile p) : a ∈ (l ++ [b]).dropWhile p := by
  have hsome : (l.dropWhile p).isEmpty = false := by
    cases hl : l.dropWhile p with
    | nil =>
      rw [hl] at h
      cases h
    | cons c rest => rfl
  rw [List.dropWhile_append, hsome]
  exact List.mem_append_left _ h

/-- What is appended comes after what has begun. -/
theorem last_since (ha : a ∈ l) (hp : p a = false) : b ∈ (l ++ [b]).dropWhile p := by
  have hsome : (l.dropWhile p).isEmpty = false := by
    cases hl : l.dropWhile p with
    | nil =>
      have hall := List.dropWhile_eq_nil_iff.mp hl a ha
      rw [hp] at hall
      cases hall
    | cons c rest => rfl
  rw [List.dropWhile_append, hsome]
  exact List.mem_append_right _ (List.mem_singleton_self b)

end Since

section Schedules

variable {crypto : Crypto} {calls : ι → Call} {s : Settings} {log : List (MtlsEntry ι)}
  {x : MtlsEntry ι} {i : ι}

theorem KeysKept.before (h : KeysKept (log ++ [x]) i) : KeysKept log i :=
  fun e he => h e (since_snoc he)

theorem NonePromotedSince.before (h : NonePromotedSince (log ++ [x]) i) :
    NonePromotedSince log i := fun e he => h e (since_snoc he)

/-- A call that has left its first phase has a command in the log. -/
theorem begun_of_phase (h : phaseOf crypto calls log i ≠ (calls i).start) :
    ∃ e ∈ log, e.who = i := by
  by_contra hnone
  push Not at hnone
  exact h (Protocol.view_unbegun _ _ hnone)

/-- What an installation that nobody interferes with finds in the settings. -/
def Phase.Holds (s : Settings) : Phase → Prop
  | .pending key => s.value .pendingKey = none ∨ s.value .pendingKey = key
  | .renewing key => s.value .activeKey = none ∨ s.value .activeKey = key
  | .promoted key =>
      (s.value .activeKey = none ∨ s.value .activeKey = some key) ∧
        (s.value .pendingKey = none ∨ s.value .pendingKey = some key)
  | _ => True

theorem Call.holds_start (call : Call) (s : Settings) : call.start.Holds s := by
  cases call <;> trivial

theorem same_or_deleted {found now later : Option JsString} (h : later = none ∨ later = now)
    (h' : now = none ∨ now = found) : later = none ∨ later = found := by
  rcases h with h | rfl
  · exact .inl h
  · exact h'

/-- Keys that are only deleted are still those that were found. -/
theorem Phase.Holds.deleted {g : Phase} {s s' : Settings} (h : g.Holds s)
    (hactive : s'.value .activeKey = none ∨ s'.value .activeKey = s.value .activeKey)
    (hpending : s'.value .pendingKey = none ∨ s'.value .pendingKey = s.value .pendingKey) :
    g.Holds s' := by
  cases g with
  | pending key => exact same_or_deleted hpending h
  | renewing key => exact same_or_deleted hactive h
  | promoted key => exact ⟨same_or_deleted hactive h.1, same_or_deleted hpending h.2⟩
  | _ => trivial

theorem put_value (s : Settings) (setting : Setting) (v : Option JsString) :
    (performSettings (.put setting v) s).2.value =
      Function.update s.value setting (storedValue v) := rfl

theorem put_deleted {c : MtlsCommand} (h : c.storesKey = false) (s : Settings)
    {setting : Setting} (hsetting : setting = .activeKey ∨ setting = .pendingKey) :
    (performSettings c s).2.value setting = none ∨
      (performSettings c s).2.value setting = s.value setting := by
  cases c with
  | now => exact .inr rfl
  | get _ => exact .inr rfl
  | put other v =>
    rw [put_value]
    by_cases hsame : setting = other
    · subst hsame
      rw [Function.update_self]
      rcases hsetting with rfl | rfl
      · cases v with
        | none => exact .inl rfl
        | some _ => cases h
      · cases v with
        | none => exact .inl rfl
        | some _ => cases h
    · exact .inr (Function.update_of_ne hsame ..)

theorem storedValue_cases (v : JsString) :
    storedValue (some v) = none ∨ storedValue (some v) = some v := by
  unfold storedValue
  by_cases h : v = [] <;> simp [h]

/-- Only a setup and an installation that promotes its key store keys. -/
theorem Phase.allows_storesKey {g : Phase} {c : MtlsCommand} (hok : g.Allows crypto c)
    (h : c.storesKey = true) :
    g = .setup ∨ ∃ key, g = .pending (some key) ∧ c = .put .activeKey (some key) := by
  unfold MtlsCommand.storesKey at h
  split at h
  · rcases Phase.allows_putKey hok with ⟨key, rfl, hv⟩ | ⟨-, hv⟩
    · exact .inr ⟨key, rfl, by rw [hv]⟩
    · cases hv
  · rcases Phase.allows_putPending hok with hg | rfl | ⟨-, hv⟩
    · exact .inl hg
    · unfold Phase.Allows at hok
      simp at hok
    · cases hv
  · cases h

/-- An installation's own command leads from what it finds to what it finds next. -/
theorem Phase.Holds.own {g : Phase} {c : MtlsCommand} (hok : g.Allows crypto c) (h : g.Holds s) :
    (g.next c (performSettings c s).1).Holds (performSettings c s).2 := by
  cases hstores : c.storesKey with
  | true =>
    rcases Phase.allows_storesKey hok hstores with rfl | ⟨key, rfl, rfl⟩
    · cases c <;> trivial
    · refine ⟨?_, ?_⟩
      · rw [put_value, Function.update_self]
        exact storedValue_cases key
      · rw [put_value, Function.update_of_ne (by decide)]
        exact h
  | false =>
    have hkept : g.Holds (performSettings c s).2 :=
      h.deleted (put_deleted hstores s (.inl rfl)) (put_deleted hstores s (.inr rfl))
    unfold Phase.next
    split
    · next hread =>
      rw [← Option.some.inj hread]
      exact .inr rfl
    · next hread =>
      rw [← Option.some.inj hread]
      exact .inr rfl
    · cases hstores
    · trivial
    · trivial
    · exact hkept

/-- What holds at every moment of a scheduled run: an installation finds what it has read, it
stores no certificate before it has read a key, the pair is torn only by an installation that is
between its key and its certificate, and a reader's certificate is not overtaken. -/
structure Orderly (crypto : Crypto) (calls : ι → Call) (s : Settings) (log : List (MtlsEntry ι)) :
    Prop where
  holds : ∀ i, KeysKept log i → (phaseOf crypto calls log i).Holds s
  unstored : ∀ i, phaseOf crypto calls log i = .install ∨
    (∃ key, phaseOf crypto calls log i = .pending key) →
      ∀ e ∈ log, e.who = i → e.command.storesCert = false
  torn : (seen log).torn = true → ¬ NonePromoting log
  reader : ∀ i cert, phaseOf crypto calls log i = .certRead cert → NonePromotedSince log i →
    (seen log).stale i = false

theorem KeysKept.keeps {j : ι} (h : KeysKept (log ++ [x]) j) (hx : x.who ≠ j)
    (hbegun : ∃ e ∈ log, e.who = j) : x.command.storesKey = false := by
  obtain ⟨e, he, hwho⟩ := hbegun
  exact h x (last_since he (by simp [hwho])) hx

theorem Orderly.act_holds (h : Orderly crypto calls s log) {c : MtlsCommand}
    (hok : (phaseOf crypto calls log i).Allows crypto c) (j : ι)
    (hkept : KeysKept (log ++ [⟨i, c, (performSettings c s).1⟩]) j) :
    (phaseOf crypto calls (log ++ [⟨i, c, (performSettings c s).1⟩]) j).Holds
      (performSettings c s).2 := by
  by_cases hij : j = i
  · subst hij
    rw [phaseOf_self]
    exact (h.holds j hkept.before).own hok
  · rw [phaseOf_other hij]
    by_cases hstart : phaseOf crypto calls log j = (calls j).start
    · rw [hstart]
      exact (calls j).holds_start _
    · have hstores : c.storesKey = false := hkept.keeps (Ne.symm hij) (begun_of_phase hstart)
      exact (h.holds j hkept.before).deleted (put_deleted hstores s (.inl rfl))
        (put_deleted hstores s (.inr rfl))

/-- A certificate is stored in a phase that no longer comes before the key is read. -/
theorem Phase.early_next {g : Phase} {c : MtlsCommand} {r : Option c.Reply}
    (hok : g.Allows crypto c)
    (h : g.next c r = .install ∨ ∃ key, g.next c r = .pending key) :
    (g = .install ∨ ∃ key, g = .pending key) ∧ c.storesCert = false := by
  unfold Phase.next at h
  split at h
  · exact ⟨.inl rfl, rfl⟩
  · simp at h
  · simp at h
  · simp at h
  · simp at h
  · refine ⟨h, ?_⟩
    unfold MtlsCommand.storesCert
    split
    · rcases Phase.allows_putCert hok with ⟨_, _, hkey, -⟩ | ⟨hg, -⟩
      · rcases h with rfl | ⟨_, rfl⟩
        · cases hkey
        · cases hkey
      · rcases h with rfl | ⟨_, rfl⟩
        · cases hg
        · cases hg
    · rfl

theorem Orderly.act_unstored (h : Orderly crypto calls s log) {c : MtlsCommand}
    {r : Option c.Reply} (hok : (phaseOf crypto calls log i).Allows crypto c) (j : ι)
    (hearly : phaseOf crypto calls (log ++ [⟨i, c, r⟩]) j = .install ∨
      ∃ key, phaseOf crypto calls (log ++ [⟨i, c, r⟩]) j = .pending key) :
    ∀ e ∈ log ++ [(⟨i, c, r⟩ : MtlsEntry ι)], e.who = j → e.command.storesCert = false := by
  intro e he hwho
  by_cases hij : j = i
  · subst hij
    rw [phaseOf_self] at hearly
    obtain ⟨hbefore, hcommand⟩ := Phase.early_next hok hearly
    rcases List.mem_append.mp he with hold | hnew
    · exact h.unstored j hbefore e hold hwho
    · rw [List.mem_singleton.mp hnew]
      exact hcommand
  · rw [phaseOf_other hij] at hearly
    rcases List.mem_append.mp he with hold | hnew
    · exact h.unstored j hearly e hold hwho
    · rw [List.mem_singleton.mp hnew] at hwho
      exact (hij hwho.symm).elim

theorem promotes_eq {c : MtlsCommand} (h : c.promotes = true) :
    ∃ key, c = .put .activeKey (some key) := by
  unfold MtlsCommand.promotes at h
  split at h
  · exact ⟨_, rfl⟩
  · cases h

/-- What deleting the active key leaves of what was seen. -/
theorem next_deleted (seen : Seen ι) (i : ι) (r : Unit) :
    (seen.next ⟨i, .put .activeKey none, some r⟩).torn = seen.torn ∧
      (seen.next ⟨i, .put .activeKey none, some r⟩).stale = seen.stale := by
  have hnext : seen.next ⟨i, .put .activeKey none, some r⟩ =
      if none = seen.active then seen else { seen with active := none } := rfl
  rw [hnext]
  split_ifs
  · exact ⟨rfl, rfl⟩
  · exact ⟨rfl, rfl⟩

/-- The pair is torn where a key is promoted, and mended where a certificate is stored. -/
theorem torn_next {seen : Seen ι} {c : MtlsCommand}
    (h : (seen.next ⟨i, c, (performSettings c s).1⟩).torn = true) :
    c.promotes = true ∨ seen.torn = true ∧ c.storesCert = false := by
  cases c with
  | now => exact .inr ⟨h, rfl⟩
  | get setting =>
    refine .inr ⟨?_, rfl⟩
    cases setting <;> exact h
  | put setting v =>
    cases setting with
    | cert => cases h
    | activeKey =>
      cases v with
      | none => exact .inr ⟨(next_deleted seen i ()).1 ▸ h, rfl⟩
      | some key => exact .inl rfl
    | _ => exact .inr ⟨h, rfl⟩

theorem Orderly.act_torn (h : Orderly crypto calls s log) {c : MtlsCommand}
    (hok : (phaseOf crypto calls log i).Allows crypto c)
    (htorn : (seen (log ++ [⟨i, c, (performSettings c s).1⟩])).torn = true) :
    ¬ NonePromoting (log ++ [⟨i, c, (performSettings c s).1⟩]) := by
  rw [seen_append] at htorn
  intro hnone
  rcases torn_next htorn with hpromotes | ⟨hbefore, hcert⟩
  · -- the installation that promotes its key has not stored a certificate yet
    obtain ⟨key, rfl⟩ := promotes_eq hpromotes
    obtain ⟨e, he, hwho, hcert⟩ := hnone _ (List.mem_append_right _ (List.mem_singleton_self _)) rfl
    rcases List.mem_append.mp he with hold | hnew
    · rcases Phase.allows_putKey hok with ⟨found, hpending, -⟩ | ⟨-, hv⟩
      · rw [h.unstored i (.inr ⟨_, hpending⟩) e hold hwho] at hcert
        cases hcert
      · cases hv
    · rw [List.mem_singleton.mp hnew] at hcert
      cases hcert
  · refine h.torn hbefore fun e he hpromotes => ?_
    obtain ⟨e', he', hwho, hstored⟩ := hnone e (List.mem_append_left _ he) hpromotes
    rcases List.mem_append.mp he' with hold | hnew
    · exact ⟨e', hold, hwho, hstored⟩
    · rw [List.mem_singleton.mp hnew, hcert] at hstored
      cases hstored

theorem Phase.certRead_next {g : Phase} {c : MtlsCommand} {r : Option c.Reply}
    {cert : Option JsString} (hget : c ≠ .get .cert) (h : g.next c r = .certRead cert) :
    g = .certRead cert := by
  unfold Phase.next at h
  split at h
  · cases h
  · cases h
  · cases h
  · exact (hget rfl).elim
  · cases h
  · exact h

/-- A call that has the certificate has read it. -/
theorem certRead_in_log {cert : Option JsString} (h : phaseOf crypto calls log i = .certRead cert) :
    ∃ e ∈ log, e.who = i ∧ e.command = .get .cert := by
  induction log using List.reverseRecOn with
  | nil =>
    change (calls i).start = _ at h
    cases hcall : calls i <;> rw [hcall] at h <;> cases h
  | append_singleton log x ih =>
    obtain ⟨j, c, r⟩ := x
    have hold : phaseOf crypto calls log i = .certRead cert →
        ∃ e ∈ log ++ [(⟨j, c, r⟩ : MtlsEntry ι)], e.who = i ∧ e.command = .get .cert := by
      intro hbefore
      obtain ⟨e, he, hrest⟩ := ih hbefore
      exact ⟨e, List.mem_append_left _ he, hrest⟩
    by_cases hij : i = j
    · subst hij
      by_cases hget : c = .get .cert
      · exact ⟨_, List.mem_append_right _ (List.mem_singleton_self _), rfl, hget⟩
      · rw [phaseOf_self] at h
        exact hold (Phase.certRead_next hget h)
    · rw [phaseOf_other hij] at h
      exact hold h

/-- A promotion, and only that, overtakes what other readers have read. -/
theorem stale_next {seen : Seen ι} {c : MtlsCommand} (hc : c.promotes = false) (j : ι)
    (hread : j = i → c ≠ .get .cert) :
    (seen.next ⟨i, c, (performSettings c s).1⟩).stale j = seen.stale j := by
  cases c with
  | now => rfl
  | get setting =>
    cases setting with
    | cert => exact Function.update_of_ne (fun heq => hread heq rfl) ..
    | _ => rfl
  | put setting v =>
    cases setting with
    | activeKey =>
      cases v with
      | none => exact congrFun (next_deleted seen i ()).2 j
      | some key => cases hc
    | _ => rfl

theorem dispatches_of_origin (h : (phaseOf crypto calls log i).origin = .outbound) :
    (calls i).dispatches = true := by
  rw [Call.eq_outboundIdentity ((phaseOf_origin log i).symm.trans h)]
  rfl

theorem Orderly.act_reader (h : Orderly crypto calls s log) {c : MtlsCommand}
    (hok : (phaseOf crypto calls log i).Allows crypto c)
    (hmeets : (scheduled calls).act s log i c) (j : ι) (cert : Option JsString)
    (hphase : phaseOf crypto calls (log ++ [⟨i, c, (performSettings c s).1⟩]) j = .certRead cert)
    (hsince : NonePromotedSince (log ++ [⟨i, c, (performSettings c s).1⟩]) j) :
    (seen (log ++ [⟨i, c, (performSettings c s).1⟩])).stale j = false := by
  rw [seen_append]
  by_cases hread : j = i ∧ c = .get .cert
  · obtain ⟨rfl, rfl⟩ := hread
    have hstale : ((seen log).next ⟨j, .get .cert, (performSettings (.get .cert) s).1⟩).stale j =
        (seen log).torn := Function.update_self ..
    rw [hstale]
    by_contra htorn
    refine h.torn (Bool.not_eq_false _ ▸ htorn) (hmeets ?_)
    rw [phaseOf_self] at hphase
    rcases Phase.allows_getCert hok with hg | hg
    · exact dispatches_of_origin (by rw [hg]; rfl)
    · rw [hg] at hphase
      cases hphase
  · have hbefore : phaseOf crypto calls log j = .certRead cert := by
      by_cases hij : j = i
      · subst hij
        rw [phaseOf_self] at hphase
        exact Phase.certRead_next (fun hget => hread ⟨rfl, hget⟩) hphase
      · rwa [phaseOf_other hij] at hphase
    obtain ⟨e, he, hwho, hcommand⟩ := certRead_in_log hbefore
    have hc : c.promotes = false := by
      exact hsince _ (last_since he (by simp [hwho, hcommand]))
    rw [stale_next hc j fun hij hget => hread ⟨hij, hget⟩]
    exact h.reader j cert hbefore hsince.before

theorem Orderly.initial : Orderly crypto calls s [] where
  holds i _ := (calls i).holds_start s
  unstored _ _ _ he := (List.not_mem_nil he).elim
  torn htorn := Bool.noConfusion htorn
  reader _ _ _ _ := rfl

theorem Orderly.act (h : Orderly crypto calls s log) {c : MtlsCommand}
    (hok : (phaseOf crypto calls log i).Allows crypto c)
    (hmeets : (scheduled calls).act s log i c) :
    Orderly crypto calls (performSettings c s).2 (log ++ [⟨i, c, (performSettings c s).1⟩]) where
  holds := h.act_holds hok
  unstored := h.act_unstored hok
  torn := h.act_torn hok
  reader := h.act_reader hok hmeets

theorem installs_of_key {key : JsString} (h : (phaseOf crypto calls log i).key? = some key) :
    (calls i).installs = true := by
  have horigin : (phaseOf crypto calls log i).origin = .install := by
    generalize phaseOf crypto calls log i = g at h
    cases g with
    | promoted found => rfl
    | renewing found => rfl
    | _ => cases h
  obtain ⟨certPem, hcall⟩ := Call.eq_installCert ((phaseOf_origin log i).symm.trans horigin)
  rw [hcall]
  rfl

/-- The key a certificate was validated against is the active one, or none is. -/
theorem Phase.Holds.activeKey {g : Phase} {key : JsString} (h : g.Holds s)
    (hkey : g.key? = some key) : s.value .activeKey = none ∨ s.value .activeKey = g.key? := by
  cases g with
  | promoted found => exact h.1
  | renewing found => exact h
  | _ => cases hkey

/-- On schedule a call finds everything as it needs it. -/
theorem Orderly.undisturbed (h : Orderly crypto calls s log) {c : MtlsCommand}
    (hok : (phaseOf crypto calls log i).Allows crypto c)
    (hmeets : (scheduled calls).act s log i c) :
    (undisturbed crypto calls).act s log i c := by
  cases c with
  | now => trivial
  | get setting =>
    cases setting with
    | activeKey =>
      intro cert hphase _
      exact h.reader i (some cert) hphase (hmeets (dispatches_of_origin (by rw [hphase]; rfl)))
    | _ => trivial
  | put setting v =>
    cases setting with
    | cert =>
      cases v with
      | none => trivial
      | some chain =>
        rcases Phase.allows_putCert hok with ⟨_, key, hkey, -⟩ | ⟨-, hv⟩
        · exact (h.holds i (hmeets (installs_of_key hkey))).activeKey hkey
        · cases hv
    | pendingKey =>
      cases v with
      | some key => trivial
      | none =>
        intro key hphase
        have hkey : (phaseOf crypto calls log i).key? = some key := by
          rw [hphase]
          rfl
        have hinstalls := installs_of_key hkey
        have hholds := h.holds i (hmeets hinstalls)
        rw [hphase] at hholds
        exact hholds.2
    | _ => trivial

end Schedules

section Runs

variable {crypto : Crypto} {calls : ι → Call} {start cfg : MtlsConfig ι}
  {trace : List (Event (MtlsConfig ι) (MtlsMove ι))}

theorem run_scheduled (hinit : (mtlsRuns crypto calls).initial start)
    (hrun : Exec (mtlsRuns crypto calls) start trace cfg)
    (hmeets : ∀ e ∈ trace, (scheduled calls).Meets e.before e.label) :
    (Paired crypto calls cfg.store cfg.log ∧ Orderly crypto calls cfg.store cfg.log) ∧
      ∀ i, (mtlsProtocol crypto).Obeys Finished (phaseOf crypto calls cfg.log i)
        (cfg.requests i) := by
  obtain ⟨hempty, hlog, hprograms⟩ := hinit
  refine Server.run_meeting
    (I := fun s log => Paired crypto calls s log ∧ Orderly crypto calls s log)
    (P := fun _ => mtlsProtocol crypto) (fun s log i c w h hok hact => ?_)
    (fun s s' log clock h _ hdrift => ?_) hrun hmeets (fun i => ?_) ?_
  · exact ⟨h.1.act i hok (h.2.undisturbed hok hact), h.2.act hok hact⟩
  · obtain rfl := Option.some.inj hdrift
    obtain ⟨hpaired, horderly⟩ := h
    exact ⟨⟨hpaired.active, hpaired.matched, hpaired.reader, hpaired.pair⟩,
      ⟨fun i hkept => (horderly.holds i hkept).deleted (.inr rfl) (.inr rfl), horderly.unstored,
        horderly.torn, horderly.reader⟩⟩
  · rw [hlog, hprograms]
    exact call_obeys (calls i)
  · rw [hlog]
    exact ⟨Paired.initial hempty, Orderly.initial⟩

/-- Who may clear or replace the pending key. -/
theorem pending_discarded (horderly : Orderly crypto calls cfg.store cfg.log)
    (hobeys : ∀ i, (mtlsProtocol crypto).Obeys Finished (phaseOf crypto calls cfg.log i)
      (cfg.requests i)) {m : MtlsMove ι} {cfg' : MtlsConfig ι}
    (hstep : (mtlsRuns crypto calls).step cfg m cfg')
    (hmeets : (scheduled calls).Meets cfg m) {key : JsString}
    (hbefore : cfg.store.value .pendingKey = some key)
    (hafter : cfg'.store.value .pendingKey ≠ some key) :
    ∃ i w, m = .act i w ∧ ((∃ a b c, calls i = .startSetup a b c) ∨ calls i = .reset ∨
      (∃ certPem, calls i = .installCert certPem) ∧
        (⟨i, .put .activeKey (some key), some ()⟩ : MtlsEntry ι) ∈ cfg.log) := by
  cases m with
  | drift clock =>
    obtain ⟨s, hs, rfl⟩ := Server.step_drift hstep
    obtain rfl := Option.some.inj hs
    exact (hafter hbefore).elim
  | act i w =>
    refine ⟨i, w, rfl, ?_⟩
    obtain ⟨c, k, hprog, rfl⟩ := Server.step_act hstep
    have hobey := hobeys i
    rw [hprog] at hobey
    have horigin := @phaseOf_origin _ _ crypto calls cfg.log i
    have hok : (phaseOf crypto calls cfg.log i).Allows crypto c := hobey.1
    have hact := horderly.undisturbed hok (hmeets.act hprog)
    change (performSettings c cfg.store).2.value .pendingKey ≠ some key at hafter
    cases c with
    | now => exact (hafter hbefore).elim
    | get setting => exact (hafter hbefore).elim
    | put setting v =>
      by_cases hsetting : setting = .pendingKey
      · subst hsetting
        rcases Phase.allows_putPending hok with hg | hg | ⟨⟨promoted, hg⟩, rfl⟩
        · rw [hg] at horigin
          exact .inl (Call.eq_startSetup horigin.symm)
        · rw [hg] at horigin
          exact .inr (.inl (Call.eq_reset horigin.symm))
        · -- it clears the key it has promoted
          have hown := (hact promoted hg).resolve_left (by simp [hbefore])
          rw [hbefore] at hown
          obtain rfl := Option.some.inj hown
          rw [hg] at horigin
          exact .inr (.inr ⟨Call.eq_installCert horigin.symm, promoted_in_log hg⟩)
      · refine (hafter ?_).elim
        change Function.update cfg.store.value setting (storedValue v) .pendingKey = some key
        rw [Function.update_of_ne (Ne.symm hsetting)]
        exact hbefore

/-- In every scheduled run a reader returns a matching pair, and a pending key goes only with
a setup, a reset, or the installation that promoted it. -/
theorem mtls_identity (crypto : Crypto) (calls : ι → Call)
    (hinit : (mtlsRuns crypto calls).initial start)
    (hrun : Exec (mtlsRuns crypto calls) start trace cfg)
    (hmeets : ∀ e ∈ trace, (scheduled calls).Meets e.before e.label) :
    (∀ i cert key, cfg.requests i = .done (.identity cert key) → LeafMatches crypto cert key) ∧
    ∀ e ∈ trace, ∀ key, e.before.store.value .pendingKey = some key →
      e.after.store.value .pendingKey ≠ some key →
      ∃ i w, e.label = .act i w ∧ ((∃ a b c, calls i = .startSetup a b c) ∨ calls i = .reset ∨
        (∃ certPem, calls i = .installCert certPem) ∧
          (⟨i, .put .activeKey (some key), some ()⟩ : MtlsEntry ι) ∈ e.before.log) := by
  refine ⟨fun i cert key hdone => ?_, fun e he key hbefore hafter => ?_⟩
  · obtain ⟨⟨hpaired, -⟩, hobeys⟩ := run_scheduled hinit hrun hmeets
    have hobey := hobeys i
    rw [hdone] at hobey
    exact hpaired.pair i cert key (hobey cert key rfl)
  · obtain ⟨first, second, rfl, hfirst, hstep, -⟩ := hrun.split he
    obtain ⟨⟨-, horderly⟩, hobeys⟩ := run_scheduled hinit hfirst fun e he =>
      hmeets e (List.mem_append_left _ he)
    exact pending_discarded horderly hobeys hstep (hmeets e he) hbefore hafter

end Runs

section Examples

/-- A block is a certificate for the key that its text names, key texts are public keys. -/
def plainCrypto : Crypto where
  certificate block := some ⟨some ((block.drop 27).take 1), none, none, [], [], 1000⟩
  publicKey key := some key
  csr cn key := cn ++ key

def certificateFor (key : JsString) : JsString := BEGIN_MARK ++ key ++ END_MARK

/-- The key is replaced: 0 and 1 set it up, 2 and 3 replace it, 4 reads the identity. -/
def replacedKey : Fin 5 → Call
  | 0 => .startSetup none (js "a") (js "a")
  | 1 => .installCert (some (certificateFor (js "a")))
  | 2 => .startSetup none (js "b") (js "b")
  | 3 => .installCert (some (certificateFor (js "b")))
  | 4 => .outboundIdentity

def freshSettings : MtlsConfig (Fin 5) where
  store := ⟨fun _ => none, 0⟩
  log := []
  requests i := (replacedKey i).program plainCrypto

/-- `n` steps of one call. -/
def steps (i : Fin 5) (n : ℕ) : List (MtlsMove (Fin 5)) := List.replicate n (.act i ())

def setUp : List (MtlsMove (Fin 5)) := steps 0 2 ++ steps 1 9

/-- The reader comes between the promotion of the second key and its certificate, for good
if the process crashes there; and the third setup's key is cleared by an older installation. -/
theorem torn_identity_and_lost_key :
    (∃ start trace cfg, (mtlsRuns plainCrypto replacedKey).initial start ∧
      Exec (mtlsRuns plainCrypto replacedKey) start trace cfg ∧
      cfg.requests 4 = .done (.identity (certificateFor (js "a")) (js "b")) ∧
      ¬ LeafMatches plainCrypto (certificateFor (js "a")) (js "b")) ∧
    ∃ start trace cfg, (mtlsRuns plainCrypto replacedKey).initial start ∧
      Exec (mtlsRuns plainCrypto replacedKey) start trace cfg ∧
      cfg.requests 2 = .done (.csr (js "b") (plainCrypto.csr (js "b") (js "b"))) ∧
      cfg.store.value .pendingKey = none ∧ cfg.store.value .activeKey = some (js "a") := by
  constructor
  · have hruns : ((setUp ++ steps 2 2 ++ steps 3 3 ++ steps 4 4).foldlM
        (settingsServer.step) freshSettings).any (fun cfg => decide ((cfg.requests 4).result? =
          some (.identity (certificateFor (js "a")) (js "b")))) = true := by
      decide +kernel
    obtain ⟨cfg, hcfg, hresult⟩ := (Option.any_eq_true ..).mp hruns
    obtain ⟨trace, hrun⟩ := Server.exec_of_moves hcfg (fun s => ∀ setting, s.value setting = none)
      fun i => (replacedKey i).program plainCrypto
    refine ⟨freshSettings, trace, cfg, ⟨fun _ => rfl, rfl, rfl⟩, hrun,
      Prog.eq_done (of_decide_eq_true hresult), ?_⟩
    rintro ⟨leaf, c, hleaf, hc, -, hspki⟩
    have hblock : leaf = certificateFor (js "a") := by
      have hhead : (pemBlocks (certificateFor (js "a"))).head? =
        some (certificateFor (js "a")) := by decide +kernel
      rw [hhead] at hleaf
      exact (Option.some.inj hleaf).symm
    subst hblock
    obtain rfl := Option.some.inj hc
    revert hspki
    decide +kernel
  · have hruns : ((steps 0 2 ++ steps 1 1 ++ steps 2 2 ++ steps 1 3).foldlM
        (settingsServer.step) freshSettings).any (fun cfg => decide ((cfg.requests 2).result? =
          some (.csr (js "b") (plainCrypto.csr (js "b") (js "b")))) &&
          decide (cfg.store.value .pendingKey = none) &&
          decide (cfg.store.value .activeKey = some (js "a"))) = true := by
      decide +kernel
    obtain ⟨cfg, hcfg, hall⟩ := (Option.any_eq_true ..).mp hruns
    simp only [Bool.and_eq_true, decide_eq_true_eq] at hall
    obtain ⟨⟨hresult, hpending⟩, hactive⟩ := hall
    obtain ⟨trace, hrun⟩ := Server.exec_of_moves hcfg (fun s => ∀ setting, s.value setting = none)
      fun i => (replacedKey i).program plainCrypto
    exact ⟨freshSettings, trace, cfg, ⟨fun _ => rfl, rfl, rfl⟩, hrun, Prog.eq_done hresult,
      hpending, hactive⟩

instance (log : List (MtlsEntry (Fin 5))) (i : Fin 5) : Decidable (KeysKept log i) :=
  inferInstanceAs (Decidable (∀ e ∈ log.dropWhile _, _ → _))

instance (log : List (MtlsEntry (Fin 5))) : Decidable (NonePromoting log) :=
  inferInstanceAs (Decidable (∀ e ∈ log, _ → ∃ e' ∈ log, _))

instance (log : List (MtlsEntry (Fin 5))) (i : Fin 5) : Decidable (NonePromotedSince log i) :=
  inferInstanceAs (Decidable (∀ e ∈ log.dropWhile _, _))

instance (calls : Fin 5 → Call) (s : Settings) (log : List (MtlsEntry (Fin 5))) (i : Fin 5)
    (c : MtlsCommand) : Decidable ((scheduled calls).act s log i c) := by
  unfold scheduled
  dsimp only
  split <;> infer_instance

instance (calls : Fin 5 → Call) (s : Settings) (log : List (MtlsEntry (Fin 5))) (e : ℤ) :
    Decidable ((scheduled calls).drift s log e) :=
  inferInstanceAs (Decidable True)

/-- One call after the other, the reader last: the second key with its certificate. -/
theorem mtls_identity_replaced_key :
    ∃ start trace cfg, (mtlsRuns plainCrypto replacedKey).initial start ∧
      Exec (mtlsRuns plainCrypto replacedKey) start trace cfg ∧
      cfg.requests 4 = .done (.identity (certificateFor (js "b")) (js "b")) ∧
      LeafMatches plainCrypto (certificateFor (js "b")) (js "b") := by
  have hruns : ((setUp ++ steps 2 2 ++ steps 3 9 ++ steps 4 4).foldlM
      (settingsServer.stepMeeting (scheduled replacedKey)) freshSettings).any
        (fun cfg => decide ((cfg.requests 4).result? =
          some (.identity (certificateFor (js "b")) (js "b")))) = true := by
    decide +kernel
  obtain ⟨cfg, hcfg, hresult⟩ := (Option.any_eq_true ..).mp hruns
  obtain ⟨trace, hrun, hmeets⟩ := Server.exec_of_moves_meeting hcfg
    (fun s => ∀ setting, s.value setting = none) fun i => (replacedKey i).program plainCrypto
  have hinit : (mtlsRuns plainCrypto replacedKey).initial freshSettings := ⟨fun _ => rfl, rfl, rfl⟩
  have hdone := Prog.eq_done (of_decide_eq_true hresult)
  exact ⟨freshSettings, trace, cfg, hinit, hrun, hdone,
    (mtls_identity plainCrypto replacedKey hinit hrun hmeets).1 4 _ _ hdone⟩

end Examples

end DreamSso.Mtls
