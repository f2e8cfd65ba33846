import DreamSso.Library.Transitions
import Mathlib.Data.List.Pairwise
import Mathlib.Data.List.Nodup

/-!
A board of announced values. Every subject the board covers has a current value.
A turn that changes values announces the new ones at the next revision of the
board's authority, and a ledger keeps what was last announced for each subject.
Whoever reads the board at some revision, or reads an announcement, gets a report
of a value; reports of one revision agree, and the greatest one is current.
-/
namespace Announcements

open Transitions

structure Report (κ α ε : Type*) where
  subject : κ
  value : α
  epoch : ε
  revision : ℕ

/-- A subject without a current value is not covered; the authority is created
at revision zero when it is first needed. -/
structure Board (κ α ε : Type*) where
  current : κ → Option α
  ledger : κ → Option (α × ℕ)
  authority : Option (ε × ℕ)
  log : List (Report κ α ε)

variable {κ α ε : Type*} {b b' b'' : Board κ α ε} {k : κ} {changed : List (κ × α)}

def Board.revision (b : Board κ α ε) : ℕ := b.authority.elim 0 Prod.snd

/-- A subject that a turn does not announce keeps its value, or has the value
that was announced last. -/
def Holds (b b' : Board κ α ε) (k : κ) : Prop :=
  (b.current k ≠ none → b'.current k = b.current k) ∨
    ∃ v n, b.ledger k = some (v, n) ∧ b'.current k = some v

def stamp (e : ε) (n : ℕ) (change : κ × α) : Report κ α ε := ⟨change.1, change.2, e, n⟩

inductive Turn (b b' : Board κ α ε) : List (κ × α) → Prop
  | quiet (hledger : ∀ k, b'.ledger k = b.ledger k) (hlog : b'.log = b.log)
      (hauthority : b'.authority = b.authority ∨
        b.authority = none ∧ ∃ e, b'.authority = some (e, 0))
      (hholds : ∀ k, Holds b b' k) : Turn b b' []
  | announced {changed : List (κ × α)} {e : ε} {n : ℕ} (hchanged : changed ≠ [])
      (hnodup : (changed.map Prod.fst).Nodup)
      (hbefore : b.authority = some (e, n) ∨ b.authority = none ∧ n = 0)
      (hafter : b'.authority = some (e, n + 1))
      (hledger : ∀ c ∈ changed, b'.ledger c.1 = some (c.2, n + 1))
      (hkept : ∀ k, k ∉ changed.map Prod.fst → b'.ledger k = b.ledger k)
      (hlog : b'.log = b.log ++ changed.map (stamp e (n + 1)))
      (hcurrent : ∀ c ∈ changed, b'.current c.1 = some c.2)
      (hholds : ∀ k, k ∉ changed.map Prod.fst → Holds b b' k) : Turn b b' changed

def system (κ α ε : Type*) : System (Board κ α ε) (List (κ × α)) where
  initial b := ∀ k, b.ledger k = none ∧ b.log = []
  step b changed b' := Turn b b' changed

theorem Turn.revision (h : Turn b b' changed) :
    b'.revision = b.revision + if changed = [] then 0 else 1 := by
  cases h with
  | quiet hledger hlog hauthority hholds =>
    rcases hauthority with hsame | ⟨hnone, e, hsome⟩
    · simp [Board.revision, hsame]
    · simp [Board.revision, hnone, hsome]
  | announced hchanged hnodup hbefore hafter =>
    rcases hbefore with hsome | ⟨hnone, rfl⟩
    · simp [Board.revision, hsome, hafter, hchanged]
    · simp [Board.revision, hnone, hafter, hchanged]

section About

variable [DecidableEq κ]

def reportsAbout (k : κ) (log : List (Report κ α ε)) : List (Report κ α ε) :=
  log.filter fun r => decide (r.subject = k)

theorem mem_reportsAbout {log : List (Report κ α ε)} {r : Report κ α ε} :
    r ∈ reportsAbout k log ↔ r ∈ log ∧ r.subject = k := by
  simp [reportsAbout]

theorem reportsAbout_append (first second : List (Report κ α ε)) :
    reportsAbout k (first ++ second) = reportsAbout k first ++ reportsAbout k second :=
  List.filter_append _ _

theorem reportsAbout_other {e : ε} {n : ℕ} (h : k ∉ changed.map Prod.fst) :
    reportsAbout k (changed.map (stamp e n)) = [] := by
  rw [reportsAbout, List.filter_eq_nil_iff]
  intro r hr
  obtain ⟨c, hc, rfl⟩ := List.mem_map.mp hr
  intro hsame
  rw [← of_decide_eq_true hsame] at h
  exact h (List.mem_map_of_mem hc)

/-- A turn announces a subject at most once. -/
theorem reportsAbout_announced {e : ε} {n : ℕ} (hnodup : (changed.map Prod.fst).Nodup)
    {c : κ × α} (h : c ∈ changed) :
    reportsAbout c.1 (changed.map (stamp e n)) = [stamp e n c] := by
  induction changed with
  | nil => simp at h
  | cons first rest ih =>
    obtain ⟨hnew, hrest⟩ := List.nodup_cons.mp hnodup
    rcases List.mem_cons.mp h with rfl | hmem
    · have hothers := @reportsAbout_other κ α ε c.1 rest _ e n hnew
      rw [reportsAbout] at hothers ⊢
      rw [List.map_cons, List.filter_cons_of_pos (by simp [stamp]), hothers]
    · have hne : first.1 ≠ c.1 := by
        intro hsame
        exact hnew (hsame ▸ List.mem_map_of_mem hmem)
      have hothers := ih hrest hmem
      rw [reportsAbout] at hothers ⊢
      rw [List.map_cons, List.filter_cons_of_neg (by simp [stamp, hne]), hothers]

/-- What holds between turns: the last report about a subject is its ledger entry,
the ledger entry is current, and reports are numbered in their order. -/
structure Coherent (b : Board κ α ε) : Prop where
  latest : ∀ k, (reportsAbout k b.log).getLast?.map (fun r => (r.value, r.revision)) = b.ledger k
  published : ∀ k v n, b.ledger k = some (v, n) → b.current k = some v
  stamped : ∀ r ∈ b.log, ∃ n, b.authority = some (r.epoch, n) ∧ r.revision ≤ n
  ordered : b.log.Pairwise fun r s => r.revision < s.revision ∨
    r.revision = s.revision ∧ r.subject ≠ s.subject

theorem Coherent.initial (hledger : ∀ k, b.ledger k = none) (hlog : b.log = []) : Coherent b where
  latest k := by simp [reportsAbout, hlog, hledger]
  published k v n h := by simp [hledger] at h
  stamped r hr := by simp [hlog] at hr
  ordered := by simp [hlog]

theorem Coherent.revision_le (h : Coherent b) {r : Report κ α ε} (hr : r ∈ b.log) :
    r.revision ≤ b.revision := by
  obtain ⟨n, hn, hle⟩ := h.stamped r hr
  simpa [Board.revision, hn] using hle

theorem Coherent.holds (h : Coherent b) (hholds : Holds b b' k) {v : α}
    (hv : b.current k = some v) : b'.current k = some v := by
  rcases hholds with hsame | ⟨w, n, hledger, hcurrent⟩
  · rw [hsame (by simp [hv]), hv]
  · have hw := h.published k w n hledger
    rw [hcurrent, ← hw, hv]

/-- One turn keeps the board coherent. -/
theorem Turn.coherent (h : Turn b b' changed) (hb : Coherent b) : Coherent b' := by
  have hrevision := h.revision
  cases h with
  | quiet hledger hlog hauthority hholds =>
    refine ⟨?_, ?_, ?_, hlog ▸ hb.ordered⟩
    · intro k
      rw [hlog, hledger, hb.latest]
    · intro k v n hk
      rw [hledger] at hk
      exact hb.holds (hholds k) (hb.published k v n hk)
    · intro r hr
      rw [hlog] at hr
      obtain ⟨n, hn, hle⟩ := hb.stamped r hr
      rcases hauthority with hsame | ⟨hnone, -⟩
      · exact ⟨n, hsame.trans hn, hle⟩
      · simp [hnone] at hn
  | @announced changed e n hchanged hnodup hbefore hafter hledger hkept hlog hcurrent hholds =>
    have hn : b.revision = n := by
      rcases hbefore with hsome | ⟨hnone, rfl⟩
      · simp [Board.revision, hsome]
      · simp [Board.revision, hnone]
    refine ⟨?_, ?_, ?_, ?_⟩
    · intro k
      rw [hlog, reportsAbout_append]
      by_cases hk : k ∈ changed.map Prod.fst
      · obtain ⟨c, hc, rfl⟩ := List.mem_map.mp hk
        rw [reportsAbout_announced hnodup hc, hledger c hc]
        simp [stamp]
      · rw [reportsAbout_other hk, List.append_nil, hkept k hk, hb.latest]
    · intro k v m hm
      by_cases hk : k ∈ changed.map Prod.fst
      · obtain ⟨c, hc, rfl⟩ := List.mem_map.mp hk
        rw [hledger c hc, Option.some.injEq, Prod.mk.injEq] at hm
        rw [hcurrent c hc, hm.1]
      · rw [hkept k hk] at hm
        exact hb.holds (hholds k hk) (hb.published k v m hm)
    · intro r hr
      rw [hlog] at hr
      rcases List.mem_append.mp hr with hold | hnew
      · obtain ⟨m, hm, hle⟩ := hb.stamped r hold
        rcases hbefore with hsome | ⟨hnone, -⟩
        · rw [hsome, Option.some.injEq, Prod.mk.injEq] at hm
          exact ⟨n + 1, by rw [hafter, hm.1], by omega⟩
        · simp [hnone] at hm
      · obtain ⟨c, -, rfl⟩ := List.mem_map.mp hnew
        exact ⟨n + 1, hafter, Nat.le_refl _⟩
    · rw [hlog, List.pairwise_append]
      refine ⟨hb.ordered, ?_, ?_⟩
      · rw [List.pairwise_map]
        have hdistinct := List.pairwise_map.mp hnodup
        exact hdistinct.imp fun hne => .inr ⟨rfl, hne⟩
      · intro r hr s hs
        obtain ⟨c, -, rfl⟩ := List.mem_map.mp hs
        have hle := hb.revision_le hr
        left
        show r.revision < n + 1
        omega

/-- What a run of turns does to what was read before it. -/
structure Later (b b' : Board κ α ε) (announcements : ℕ) : Prop where
  authority : ∀ e n, b.authority = some (e, n) → ∃ n', b'.authority = some (e, n') ∧ n ≤ n'
  covered : ∀ k, b.current k ≠ none → b'.current k ≠ none
  appended : ∃ extra, b'.log = b.log ++ extra ∧ (∀ r ∈ extra, b.revision < r.revision) ∧
    ∀ k, (reportsAbout k extra).length ≤ announcements ∧
      (reportsAbout k extra = [] → ∀ v, b.current k = some v → b'.current k = some v)

theorem Later.refl (b : Board κ α ε) : Later b b 0 :=
  ⟨fun _ n h => ⟨n, h, Nat.le_refl n⟩, fun _ h => h, [], by simp, by simp,
    fun _ => ⟨by simp [reportsAbout], fun _ _ h => h⟩⟩

theorem Later.revision_le {m : ℕ} (h : Later b b' m) : b.revision ≤ b'.revision := by
  unfold Board.revision
  cases hauthority : b.authority with
  | none => exact Nat.zero_le _
  | some a =>
    obtain ⟨n', hn', hle⟩ := h.authority a.1 a.2 hauthority
    simpa [hn'] using hle

theorem Later.mono {m n : ℕ} (h : Later b b' m) (hle : m ≤ n) : Later b b' n := by
  obtain ⟨extra, hlog, hnew, hkeys⟩ := h.appended
  exact ⟨h.authority, h.covered, extra, hlog, hnew,
    fun k => ⟨Nat.le_trans (hkeys k).1 hle, (hkeys k).2⟩⟩

theorem Later.trans {m m' : ℕ} (h : Later b b' m) (h' : Later b' b'' m') :
    Later b b'' (m + m') := by
  obtain ⟨extra, hlog, hnew, hkeys⟩ := h.appended
  obtain ⟨extra', hlog', hnew', hkeys'⟩ := h'.appended
  refine ⟨?_, fun k hk => h'.covered k (h.covered k hk), extra ++ extra', ?_, ?_, ?_⟩
  · intro e n hn
    obtain ⟨n', hn', hle⟩ := h.authority e n hn
    obtain ⟨n'', hn'', hle'⟩ := h'.authority e n' hn'
    exact ⟨n'', hn'', Nat.le_trans hle hle'⟩
  · rw [hlog', hlog, List.append_assoc]
  · intro r hr
    rcases List.mem_append.mp hr with hfirst | hsecond
    · exact hnew r hfirst
    · exact Nat.lt_of_le_of_lt h.revision_le (hnew' r hsecond)
  · intro k
    obtain ⟨hcount, hsame⟩ := hkeys k
    obtain ⟨hcount', hsame'⟩ := hkeys' k
    rw [reportsAbout_append]
    refine ⟨by rw [List.length_append]; omega, ?_⟩
    intro hnone v hv
    obtain ⟨hfirst, hsecond⟩ := List.append_eq_nil_iff.mp hnone
    exact hsame' hsecond v (hsame hfirst v hv)

theorem Turn.later (h : Turn b b' changed) (hb : Coherent b) :
    Later b b' (if changed = [] then 0 else 1) := by
  have hcovered : ∀ k, Holds b b' k → b.current k ≠ none → b'.current k ≠ none := by
    intro k hholds hk
    obtain ⟨v, hv⟩ := Option.ne_none_iff_exists'.mp hk
    simp [hb.holds hholds hv]
  cases h with
  | quiet hledger hlog hauthority hholds =>
    refine ⟨?_, fun k => hcovered k (hholds k), [], by simp [hlog], by simp, ?_⟩
    · intro e n hn
      rcases hauthority with hsame | ⟨hnone, -⟩
      · exact ⟨n, hsame.trans hn, Nat.le_refl n⟩
      · simp [hnone] at hn
    · intro k
      exact ⟨by simp [reportsAbout], fun _ v hv => hb.holds (hholds k) hv⟩
  | @announced changed e n hchanged hnodup hbefore hafter hledger hkept hlog hcurrent hholds =>
    refine ⟨?_, ?_, _, hlog, ?_, ?_⟩
    · intro e' m hm
      rcases hbefore with hsome | ⟨hnone, -⟩
      · rw [hsome, Option.some.injEq, Prod.mk.injEq] at hm
        exact ⟨n + 1, by rw [hafter, hm.1], by omega⟩
      · simp [hnone] at hm
    · intro k hk
      by_cases hmem : k ∈ changed.map Prod.fst
      · obtain ⟨c, hc, rfl⟩ := List.mem_map.mp hmem
        simp [hcurrent c hc]
      · exact hcovered k (hholds k hmem) hk
    · intro r hr
      obtain ⟨c, -, rfl⟩ := List.mem_map.mp hr
      rcases hbefore with hsome | ⟨hnone, rfl⟩
      · simp [Board.revision, hsome, stamp]
      · simp [Board.revision, hnone, stamp]
    · intro k
      rw [if_neg hchanged]
      by_cases hmem : k ∈ changed.map Prod.fst
      · obtain ⟨c, hc, rfl⟩ := List.mem_map.mp hmem
        rw [reportsAbout_announced hnodup hc]
        exact ⟨Nat.le_refl 1, fun hnil => by simp at hnil⟩
      · rw [reportsAbout_other hmem]
        exact ⟨Nat.zero_le 1, fun _ v hv => hb.holds (hholds k hmem) hv⟩

/-- The number of turns of a run that announced something. -/
def announcements (trace : List (Event (Board κ α ε) (List (κ × α)))) : ℕ :=
  trace.countP fun event => !event.label.isEmpty

theorem run_later {trace : List (Event (Board κ α ε) (List (κ × α)))}
    (run : Exec (system κ α ε) b trace b') (hb : Coherent b) :
    Coherent b' ∧ Later b b' (announcements trace) := by
  induction run with
  | nil => exact ⟨hb, Later.refl _⟩
  | @snoc t u trace changed run step ih =>
    obtain ⟨ht, hlater⟩ := ih
    refine ⟨Turn.coherent step ht, ?_⟩
    have hcount : announcements (trace ++ [⟨t, changed, u⟩]) =
        announcements trace + if changed = [] then 0 else 1 := by
      rw [announcements, List.countP_append, ← announcements]
      cases changed <;> simp
    rw [hcount]
    exact hlater.trans (Turn.later step ht)

/-- Two reports about one subject at one revision are one report. -/
theorem Coherent.unique (h : Coherent b) {r s : Report κ α ε} (hr : r ∈ b.log) (hs : s ∈ b.log)
    (hsubject : r.subject = s.subject) (hrevision : r.revision = s.revision) : r = s := by
  by_contra hne
  have hpairs : b.log.Pairwise fun r s => r.subject = s.subject → r.revision ≠ s.revision := by
    refine h.ordered.imp ?_
    intro r s hrs hsame
    rcases hrs with hlt | ⟨-, hother⟩
    · exact Nat.ne_of_lt hlt
    · exact (hother hsame).elim
  have hsymm : Std.Symm fun r s : Report κ α ε => r.subject = s.subject → r.revision ≠ s.revision :=
    ⟨fun r s hrs hsame => (hrs hsame.symm).symm⟩
  exact hpairs.forall hr hs hne hsubject hrevision

/-- The last report about a subject has the greatest revision and the current value. -/
theorem Coherent.last_report (h : Coherent b) {r : Report κ α ε} (hr : r ∈ b.log) :
    ∃ last ∈ b.log, last.subject = r.subject ∧ b.current r.subject = some last.value ∧
      r.revision ≤ last.revision := by
  have hmem : r ∈ reportsAbout r.subject b.log := mem_reportsAbout.mpr ⟨hr, rfl⟩
  obtain ⟨init, last, hsplit⟩ :=
    (List.eq_nil_or_concat (reportsAbout r.subject b.log)).resolve_left (List.ne_nil_of_mem hmem)
  have hlast : last ∈ reportsAbout r.subject b.log := by simp [hsplit]
  obtain ⟨hlog, hsubject⟩ := mem_reportsAbout.mp hlast
  have hledger := h.latest r.subject
  rw [hsplit] at hledger
  simp only [List.concat_eq_append, List.getLast?_append_cons, List.getLast?_singleton,
    Option.map_some] at hledger
  refine ⟨last, hlog, hsubject, h.published _ _ _ hledger.symm, ?_⟩
  have hordered : (reportsAbout r.subject b.log).Pairwise fun r s => r.revision ≤ s.revision := by
    refine (h.ordered.filter _).imp ?_
    intro r s hrs
    omega
  rw [hsplit, List.concat_eq_append, List.pairwise_append] at hordered
  rw [hsplit, List.concat_eq_append, List.mem_append, List.mem_singleton] at hmem
  rcases hmem with hinit | rfl
  · exact hordered.2.2 r hinit last List.mem_cons_self
  · exact Nat.le_refl _

/-- A report at the revision of the board has the current value. -/
theorem Coherent.current_report (h : Coherent b) {r : Report κ α ε} (hr : r ∈ b.log)
    (hlast : ∀ s ∈ b.log, s.subject = r.subject → s.revision ≤ r.revision) :
    b.current r.subject = some r.value := by
  obtain ⟨last, hlog, hsubject, hcurrent, hle⟩ := h.last_report hr
  have hsame : last = r :=
    h.unique hlog hr hsubject (Nat.le_antisymm (hlast last hlog hsubject) hle)
  rw [hcurrent, hsame]

/-- A value read at some point and a later announcement of the same revision agree. -/
theorem Later.read_agrees {m : ℕ} (h : Later b b' m) (hb : Coherent b) {v : α}
    (hv : b.current k = some v) {r : Report κ α ε} (hr : r ∈ b'.log) (hsubject : r.subject = k)
    (hrevision : r.revision = b.revision) : r.value = v := by
  obtain ⟨extra, hlog, hnew, -⟩ := h.appended
  rw [hlog] at hr
  rcases List.mem_append.mp hr with hold | hextra
  · have hcurrent := hb.current_report hold fun s hs _ => hrevision ▸ hb.revision_le hs
    rw [hsubject, hv] at hcurrent
    exact (Option.some.inj hcurrent).symm
  · have hlt := hnew r hextra
    omega

/-- A value read before a run that announces nothing newer about it is current. -/
theorem Later.read_current {m : ℕ} (h : Later b b' m) {v : α} (hv : b.current k = some v)
    (hlast : ∀ r ∈ b'.log, r.subject = k → r.revision ≤ b.revision) : b'.current k = some v := by
  obtain ⟨extra, hlog, hnew, hkeys⟩ := h.appended
  refine (hkeys k).2 ?_ v hv
  rw [List.eq_nil_iff_forall_not_mem]
  intro r hr
  obtain ⟨hextra, hsubject⟩ := mem_reportsAbout.mp hr
  have hle := hlast r (by rw [hlog]; exact List.mem_append_right _ hextra) hsubject
  have hlt := hnew r hextra
  omega

/-- Two reads at the same revision agree. -/
theorem Later.reads_agree {m : ℕ} (h : Later b b' m) (hb' : Coherent b') {v : α}
    (hv : b.current k = some v) (hrevision : b'.revision = b.revision) : b'.current k = some v :=
  h.read_current hv fun _ hr _ => hrevision ▸ hb'.revision_le hr

/-- A run that changes a value announces the new one, after everything that was
reported before. -/
theorem Later.announces {m : ℕ} (h : Later b b' m) (hb' : Coherent b') {v v' : α}
    (hv : b.current k = some v) (hv' : b'.current k = some v') (hne : v' ≠ v) :
    ∃ extra last, b'.log = b.log ++ extra ∧ (∀ r ∈ extra, b.revision < r.revision) ∧
      (reportsAbout k extra).getLast? = some last ∧ last.value = v' ∧
      (reportsAbout k extra).length ≤ m := by
  obtain ⟨extra, hlog, hnew, hkeys⟩ := h.appended
  obtain ⟨hcount, hsame⟩ := hkeys k
  rcases List.eq_nil_or_concat (reportsAbout k extra) with hnil | ⟨init, last, hsplit⟩
  · have hold := hsame hnil v hv
    rw [hv', Option.some.injEq] at hold
    exact (hne hold).elim
  · rw [List.concat_eq_append] at hsplit
    refine ⟨extra, last, hlog, hnew, by simp [hsplit], ?_, hcount⟩
    have hledger := hb'.latest k
    rw [hlog, reportsAbout_append, hsplit, ← List.append_assoc, List.getLast?_concat,
      Option.map_some] at hledger
    have hcurrent := hb'.published k _ _ hledger.symm
    rw [hv', Option.some.injEq] at hcurrent
    exact hcurrent.symm

end About

end Announcements
