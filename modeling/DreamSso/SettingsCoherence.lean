import DreamSso.SettingsCache

/-!
When the cache of a settings key is coherent. A call that has replaced the row leaves
the cache behind until its continuation runs; while at most one call is in this
window, and no statement loses its answer, the cache is told of the last write last.
-/
namespace DreamSso.SettingsCache

open Interleaving JsStrings Transitions

variable {ι : Type} [DecidableEq ι]

abbrev CacheLog (ι : Type) := List (Entry ι CacheCommand CacheCommand.Reply)

abbrev CacheConfig (ι : Type) :=
  Config ι CacheCommand CacheCommand.Reply Process CacheAnswer

abbrev CacheMove (ι : Type) := Move ι Unit CacheDrift

def cachePhases (log : CacheLog ι) (i : ι) : CachePhase :=
  phases (fun _ => cacheProtocol) (fun _ => .idle) log i

/-- Any calls at once, in a process that has cached nothing. -/
def cacheRuns (calls : ι → CacheCall) : System (CacheConfig ι) (CacheMove ι) :=
  cacheServer.system (fun s => s.cache = none) fun i => (calls i).program

/-- The row is replaced only while no other call is between its own replacement and the
cache, and by a statement that is answered if it is executed. -/
def writesApart : Condition ι CacheCommand CacheCommand.Reply Process CacheDrift where
  act s log _ c := match c with
    | .execute _ => s.link ≠ .lost ∧ ∀ j, ¬ (cachePhases log j).Open
    | .commit _ => s.link ≠ .lost ∧ ∀ j, ¬ (cachePhases log j).Open
    | _ => True
  drift _ _ _ := True

/-- What an executed statement has written, and for whom. -/
def written? (x : Entry ι CacheCommand CacheCommand.Reply) : Option (ι × Option JsString) :=
  match x with
  | ⟨i, .execute v, some _⟩ => some (i, v)
  | ⟨i, .commit v, some _⟩ => some (i, v)
  | _ => none

def writes (log : CacheLog ι) : List (ι × Option JsString) := log.filterMap written?

section Programs

/-- A read returns the value it has found, and no call ends inside its window. -/
def Finished (g : CachePhase) (a : Option CacheAnswer) : Prop :=
  ¬ g.Open ∧ ∀ v, a = some (.read v) → g = .read v

theorem finished_idle {a : Option CacheAnswer} (h : ∀ v, a ≠ some (.read v)) : Finished .idle a :=
  ⟨id, fun v hv => (h v hv).elim⟩

theorem readRaw_obeys : cacheProtocol.Obeys Finished .idle readRaw := by
  refine Protocol.obeys_await_bind.mpr ⟨trivial, finished_idle (by simp), ?_⟩
  intro r
  cases r with
  | hit v => exact ⟨id, fun _ hv => by cases hv; rfl⟩
  | miss version =>
    refine Protocol.obeys_await_bind.mpr ⟨trivial, finished_idle (by simp), ?_⟩
    intro v
    refine Protocol.obeys_await_bind.mpr ⟨⟨rfl, rfl⟩, finished_idle (by simp), ?_⟩
    intro _
    exact ⟨id, fun _ hv => by cases hv; rfl⟩

theorem writeRaw_obeys (value : Option JsString) :
    cacheProtocol.Obeys Finished .idle (writeRaw value) := by
  refine Protocol.obeys_await_bind.mpr ⟨trivial, finished_idle (by simp), ?_⟩
  intro _
  refine Protocol.obeys_await_bind.mpr ⟨rfl, finished_idle (by simp), ?_⟩
  intro _
  exact finished_idle (by simp)

theorem invalidate_obeys (committed : Option (Option JsString)) :
    cacheProtocol.Obeys Finished .idle (invalidateSettingCache committed) := by
  cases committed with
  | none =>
    refine Protocol.obeys_await_bind.mpr ⟨trivial, finished_idle (by simp), ?_⟩
    intro _
    exact finished_idle (by simp)
  | some v =>
    refine Protocol.obeys_await_bind.mpr ⟨trivial, finished_idle (by simp), ?_⟩
    intro _
    refine Protocol.obeys_await_bind.mpr ⟨trivial, finished_idle (by simp), ?_⟩
    intro _
    exact finished_idle (by simp)

theorem call_obeys (call : CacheCall) : cacheProtocol.Obeys Finished .idle call.program := by
  cases call with
  | readRaw => exact readRaw_obeys
  | writeRaw value => exact writeRaw_obeys value
  | invalidate committed => exact invalidate_obeys committed

end Programs

section Invariant

variable {s s' : Process} {log : CacheLog ι}

/-- While no window is open the cache holds the row, and so does a read that may still
fill the cache; whoever is in the window wrote last. -/
structure Coherent (s : Process) (log : CacheLog ι) : Prop where
  single : ∀ i j, (cachePhases log i).Open → (cachePhases log j).Open → i = j
  cached : (∀ i, ¬ (cachePhases log i).Open) → ∀ hit, s.cache = some hit → hit.value = s.row
  selected : (∀ i, ¬ (cachePhases log i).Open) → ∀ i v,
    cachePhases log i = .selected v s.version → v = s.row
  looked : ∀ i version, cachePhases log i = .looked version → version ≤ s.version
  bounded : ∀ i v version, cachePhases log i = .selected v version → version ≤ s.version
  held : ∀ i v, cachePhases log i = .executed v → s.row = v
  last : ∀ i v, (writes log).getLast? = some (i, v) → s.row = v
  opener : ∀ i, (cachePhases log i).Open → ∃ v, (writes log).getLast? = some (i, v)

omit [DecidableEq ι] in
theorem writes_append (log : CacheLog ι) (x : Entry ι CacheCommand CacheCommand.Reply) :
    writes (log ++ [x]) = writes log ++ (written? x).toList := by
  rw [writes, List.filterMap_append, ← writes]
  cases h : written? x <;> simp [h]

theorem phase_self (log : CacheLog ι) (i : ι) (c : CacheCommand) (r : Option c.Reply) :
    cachePhases (log ++ [⟨i, c, r⟩]) i = (cachePhases log i).next c r := by
  show phases (fun _ => cacheProtocol) (fun _ => CachePhase.idle) (log ++ [⟨i, c, r⟩]) i =
    cacheProtocol.next (phases (fun _ => cacheProtocol) (fun _ => .idle) log i) c r
  exact phases_self ..

theorem phase_other {i j : ι} (h : j ≠ i) (log : CacheLog ι) (c : CacheCommand)
    (r : Option c.Reply) : cachePhases (log ++ [⟨i, c, r⟩]) j = cachePhases log j := by
  unfold cachePhases
  exact phases_other (Ne.symm h) ..

theorem coherent_start (s : Process) (h : s.cache = none) : Coherent s ([] : CacheLog ι) where
  single := fun _ _ h => h.elim
  cached := fun _ hit hhit => by rw [h] at hhit; cases hhit
  selected := fun _ _ _ h => by cases h
  looked := fun _ _ h => by cases h
  bounded := fun _ _ _ h => by cases h
  held := fun _ _ h => by cases h
  last := fun _ _ h => by cases h
  opener := fun _ h => h.elim

/-- A step of a call that is and stays outside its window. -/
theorem Coherent.outside (h : Coherent s log) {i : ι} {c : CacheCommand} {r : Option c.Reply}
    (hbefore : ¬ (cachePhases log i).Open) (hafter : ¬ ((cachePhases log i).next c r).Open)
    (hwrites : written? ⟨i, c, r⟩ = none) (hrow : s'.row = s.row) (hversion : s'.version = s.version)
    (hcached : (∀ j, ¬ (cachePhases log j).Open) → ∀ hit, s'.cache = some hit → hit.value = s.row)
    (hselected : ∀ v version, (cachePhases log i).next c r = .selected v version →
      v = s.row ∧ version ≤ s.version)
    (hlooked : ∀ version, (cachePhases log i).next c r = .looked version → version ≤ s.version) :
    Coherent s' (log ++ [⟨i, c, r⟩]) := by
  have hsame : writes (log ++ [⟨i, c, r⟩]) = writes log := by
    rw [writes_append, hwrites]
    exact List.append_nil _
  have hopen : ∀ j, (cachePhases (log ++ [⟨i, c, r⟩]) j).Open ↔ (cachePhases log j).Open := by
    intro j
    by_cases hj : j = i
    · subst hj
      rw [phase_self]
      exact iff_of_false hafter hbefore
    · rw [phase_other hj]
  have hnone : (∀ j, ¬ (cachePhases (log ++ [⟨i, c, r⟩]) j).Open) →
      ∀ j, ¬ (cachePhases log j).Open := fun hclosed j hj => hclosed j ((hopen j).mpr hj)
  refine ⟨?_, ?_, ?_, ?_, ?_, ?_, ?_, ?_⟩
  · intro j k hj hk
    exact h.single j k ((hopen j).mp hj) ((hopen k).mp hk)
  · intro hclosed hit hhit
    rw [hrow]
    exact hcached (hnone hclosed) hit hhit
  · intro hclosed j v hj
    rw [hversion] at hj
    rw [hrow]
    by_cases hi : j = i
    · subst hi
      rw [phase_self] at hj
      exact (hselected v _ hj).1
    · rw [phase_other hi] at hj
      exact h.selected (hnone hclosed) j v hj
  · intro j version hj
    rw [hversion]
    by_cases hi : j = i
    · subst hi
      rw [phase_self] at hj
      exact hlooked version hj
    · rw [phase_other hi] at hj
      exact h.looked j version hj
  · intro j v version hj
    rw [hversion]
    by_cases hi : j = i
    · subst hi
      rw [phase_self] at hj
      exact (hselected v version hj).2
    · rw [phase_other hi] at hj
      exact h.bounded j v version hj
  · intro j v hj
    rw [hrow]
    by_cases hi : j = i
    · subst hi
      rw [phase_self] at hj
      exact (hafter (hj ▸ trivial)).elim
    · rw [phase_other hi] at hj
      exact h.held j v hj
  · intro j v hj
    rw [hsame] at hj
    rw [hrow]
    exact h.last j v hj
  · intro j hj
    rw [hsame]
    exact h.opener j ((hopen j).mp hj)

/-- The row is replaced while no window is open. -/
theorem Coherent.opens (h : Coherent s log) {i : ι} {c : CacheCommand} {r : Option c.Reply}
    {v : Option JsString} (hclosed : ∀ j, ¬ (cachePhases log j).Open)
    (hafter : (cachePhases log i).next c r = .executed v ∨ (cachePhases log i).next c r = .committed)
    (hwrites : written? ⟨i, c, r⟩ = some (i, v)) (hrow : s'.row = v) (hversion : s'.version = s.version) :
    Coherent s' (log ++ [⟨i, c, r⟩]) := by
  have hlast : (writes (log ++ [⟨i, c, r⟩])).getLast? = some (i, v) := by
    rw [writes_append, hwrites]
    exact List.getLast?_concat ..
  have hopen : ∀ j, (cachePhases (log ++ [⟨i, c, r⟩]) j).Open → j = i := by
    intro j hj
    by_contra hne
    rw [phase_other hne] at hj
    exact hclosed j hj
  have hself : (cachePhases (log ++ [⟨i, c, r⟩]) i).Open := by
    rw [phase_self]
    rcases hafter with hafter | hafter <;> rw [hafter] <;> trivial
  have hold : ∀ j g, cachePhases (log ++ [⟨i, c, r⟩]) j = g → ¬ g.Open → cachePhases log j = g := by
    intro j g hj hg
    by_cases hi : j = i
    · subst hi
      exact (hg (hj ▸ hself)).elim
    · rwa [phase_other hi] at hj
  refine ⟨?_, ?_, ?_, ?_, ?_, ?_, ?_, ?_⟩
  · intro j k hj hk
    rw [hopen j hj, hopen k hk]
  · intro hnone
    exact (hnone i hself).elim
  · intro hnone
    exact (hnone i hself).elim
  · intro j version hj
    rw [hversion]
    exact h.looked j version (hold j _ hj id)
  · intro j v version hj
    rw [hversion]
    exact h.bounded j v version (hold j _ hj id)
  · intro j v' hj
    have hi := hopen j (by rw [hj]; trivial)
    subst hi
    rw [phase_self] at hj
    rcases hafter with hafter | hafter
    · rw [hafter] at hj
      rw [hrow]
      exact CachePhase.executed.inj hj
    · rw [hafter] at hj
      cases hj
  · intro j v' hj
    rw [hlast] at hj
    rw [hrow]
    exact (Prod.mk.inj (Option.some.inj hj)).2
  · intro j hj
    rw [hopen j hj]
    exact ⟨v, hlast⟩

/-- The cache is told, in a new version, of the row or of nothing. -/
theorem Coherent.invalidated (h : Coherent s log) {i : ι} {c : CacheCommand} {r : Option c.Reply}
    (hafter : (cachePhases log i).next c r = .idle) (hwrites : written? ⟨i, c, r⟩ = none)
    (hrow : s'.row = s.row) (hversion : s'.version = s.version + 1)
    (hcached : ∀ hit, s'.cache = some hit → hit.value = s.row) :
    Coherent s' (log ++ [⟨i, c, r⟩]) := by
  have hsame : writes (log ++ [⟨i, c, r⟩]) = writes log := by
    rw [writes_append, hwrites]
    exact List.append_nil _
  have hold : ∀ j g, cachePhases (log ++ [⟨i, c, r⟩]) j = g → g ≠ .idle → cachePhases log j = g := by
    intro j g hj hg
    by_cases hi : j = i
    · subst hi
      rw [phase_self, hafter] at hj
      exact (hg hj.symm).elim
    · rwa [phase_other hi] at hj
  have hopen : ∀ j, (cachePhases (log ++ [⟨i, c, r⟩]) j).Open → (cachePhases log j).Open := by
    intro j hj
    rw [hold j _ rfl fun hidle => by rw [hidle] at hj; exact hj]
    exact hj
  refine ⟨?_, ?_, ?_, ?_, ?_, ?_, ?_, ?_⟩
  · intro j k hj hk
    exact h.single j k (hopen j hj) (hopen k hk)
  · intro _ hit hhit
    rw [hrow]
    exact hcached hit hhit
  · intro _ j v hj
    have := h.bounded j v _ (hold j _ hj (by simp))
    omega
  · intro j version hj
    have := h.looked j version (hold j _ hj (by simp))
    omega
  · intro j v version hj
    have := h.bounded j v version (hold j _ hj (by simp))
    omega
  · intro j v hj
    rw [hrow]
    exact h.held j v (hold j _ hj (by simp))
  · intro j v hj
    rw [hsame] at hj
    rw [hrow]
    exact h.last j v hj
  · intro j hj
    rw [hsame]
    exact h.opener j (hopen j hj)

theorem lookup_hit {v : Option JsString} (h : s.lookup = .hit v) :
    ∃ hit, s.cache = some hit ∧ hit.value = v := by
  unfold Process.lookup at h
  split at h
  · next hit hcache =>
    split at h
    · exact ⟨hit, hcache, Lookup.hit.inj h⟩
    · cases h
  · cases h

theorem lookup_miss {version : ℕ} (h : s.lookup = .miss version) : version = s.version := by
  unfold Process.lookup at h
  split at h
  · split at h
    · cases h
    · exact (Lookup.miss.inj h).symm
  · exact (Lookup.miss.inj h).symm

/-- A statement that does not lose its answer has written the row or done nothing. -/
theorem write_cases (v : Option JsString) (h : s.link ≠ .lost) :
    s.write v = (some (), { s with row := v }) ∨ s.write v = (none, s) := by
  unfold Process.write
  cases hlink : s.link with
  | answered => exact .inl rfl
  | refused => exact .inr rfl
  | lost => exact (h hlink).elim

/-- A step that leaves everything as it is. -/
theorem Coherent.rests (h : Coherent s log) {i : ι} {c : CacheCommand} {r : Option c.Reply}
    (hbefore : ¬ (cachePhases log i).Open) (hafter : (cachePhases log i).next c r = .idle)
    (hwrites : written? ⟨i, c, r⟩ = none) : Coherent s (log ++ [⟨i, c, r⟩]) := by
  refine h.outside hbefore ?_ hwrites rfl rfl h.cached ?_ ?_
  all_goals rw [hafter]
  · exact id
  · exact fun _ _ hnext => by cases hnext
  · exact fun _ hnext => by cases hnext

theorem Coherent.execute (h : Coherent s log) {i : ι} (v : Option JsString)
    (hidle : cachePhases log i = .idle) (hlink : s.link ≠ .lost)
    (hclosed : ∀ j, ¬ (cachePhases log j).Open) :
    Coherent (s.write v).2 (log ++ [⟨i, .execute v, (s.write v).1⟩]) := by
  rcases write_cases v hlink with hwrite | hwrite <;> rw [hwrite]
  · exact h.opens hclosed (.inl (by rw [hidle]; rfl)) rfl rfl rfl
  · exact h.rests (hclosed i) (by rw [hidle]; rfl) rfl

theorem Coherent.commit (h : Coherent s log) {i : ι} (v : Option JsString)
    (hidle : cachePhases log i = .idle) (hlink : s.link ≠ .lost)
    (hclosed : ∀ j, ¬ (cachePhases log j).Open) :
    Coherent (s.write v).2 (log ++ [⟨i, .commit v, (s.write v).1⟩]) := by
  rcases write_cases v hlink with hwrite | hwrite <;> rw [hwrite]
  · exact h.opens hclosed (.inr (by rw [hidle]; rfl)) rfl rfl rfl
  · exact h.rests (hclosed i) (by rw [hidle]; rfl) rfl

theorem Coherent.lookup (h : Coherent s log) {i : ι} (hidle : cachePhases log i = .idle) :
    Coherent s (log ++ [⟨i, .lookup, some s.lookup⟩]) := by
  have hnext : (cachePhases log i).next .lookup (some s.lookup) = .afterLookup (some s.lookup) := by
    rw [hidle]
    rfl
  have hbefore : ¬ (cachePhases log i).Open := by
    rw [hidle]
    exact id
  refine h.outside hbefore ?_ rfl rfl rfl h.cached ?_ ?_
  all_goals rw [hnext]
  · cases s.lookup <;> exact id
  · intro v version hselected
    cases hlook : s.lookup <;> rw [hlook] at hselected <;> cases hselected
  · intro version hlooked
    cases hlook : s.lookup with
    | hit v =>
      rw [hlook] at hlooked
      cases hlooked
    | miss seen =>
      rw [hlook] at hlooked
      cases hlooked
      exact (lookup_miss hlook).le

theorem Coherent.select (h : Coherent s log) {i : ι} {version : ℕ}
    (hphase : cachePhases log i = .looked version) :
    Coherent s (log ++ [⟨i, .select, if s.link = .answered then some s.row else none⟩]) := by
  have hbefore : ¬ (cachePhases log i).Open := by
    rw [hphase]
    exact id
  by_cases hlink : s.link = .answered
  · rw [if_pos hlink]
    refine h.outside hbefore ?_ rfl rfl rfl h.cached ?_ ?_
    all_goals rw [hphase]
    · exact id
    · intro v seen hselected
      cases hselected
      exact ⟨rfl, h.looked i version hphase⟩
    · exact fun _ hnext => by cases hnext
  · rw [if_neg hlink]
    exact h.rests hbefore (by rw [hphase]; rfl) rfl

theorem Coherent.publish (h : Coherent s log) {i : ι} {v : Option JsString} {version : ℕ}
    (hphase : cachePhases log i = .selected v version) :
    Coherent (if s.version = version then s.fill v else s)
      (log ++ [⟨i, .publish v version, some ()⟩]) := by
  have hnext : (cachePhases log i).next (.publish v version) (some ()) = .read v := by
    rw [hphase]
    rfl
  have hbefore : ¬ (cachePhases log i).Open := by
    rw [hphase]
    exact id
  refine h.outside hbefore ?_ rfl ?_ ?_ ?_ ?_ ?_
  · rw [hnext]
    exact id
  · split <;> rfl
  · split <;> rfl
  · intro hclosed hit hhit
    by_cases hversion : s.version = version
    · rw [if_pos hversion] at hhit
      cases hhit
      exact h.selected hclosed i v (hversion ▸ hphase)
    · rw [if_neg hversion] at hhit
      exact h.cached hclosed hit hhit
  · intro _ _ hselected
    rw [hnext] at hselected
    cases hselected
  · intro _ hlooked
    rw [hnext] at hlooked
    cases hlooked

/-- Every step that meets the condition keeps the cache coherent. -/
theorem coherent_act {i : ι} {c : CacheCommand} (h : Coherent s log)
    (hok : (cachePhases log i).Allows c) (hmeets : writesApart.act s log i c) :
    Coherent (performCache c s).2 (log ++ [⟨i, c, (performCache c s).1⟩]) := by
  cases hphase : cachePhases log i with
  | idle =>
    rw [hphase] at hok
    cases c with
    | lookup => exact h.lookup hphase
    | execute v => exact h.execute v hphase hmeets.1 hmeets.2
    | commit v => exact h.commit v hphase hmeets.1 hmeets.2
    | invalidate =>
      exact h.invalidated (by rw [hphase]; rfl) rfl rfl rfl fun hit hhit => by cases hhit
    | select => exact hok.elim
    | publish v version => exact hok.elim
    | store v => exact hok.elim
  | looked version =>
    rw [hphase] at hok
    cases c with
    | select => exact h.select hphase
    | _ => exact hok.elim
  | selected v version =>
    rw [hphase] at hok
    cases c with
    | publish v' version' =>
      obtain ⟨rfl, rfl⟩ := hok
      exact h.publish hphase
    | _ => exact hok.elim
  | read v =>
    rw [hphase] at hok
    cases c <;> exact hok.elim
  | executed v =>
    rw [hphase] at hok
    cases c with
    | store v' =>
      cases hok
      refine h.invalidated (by rw [hphase]; rfl) rfl rfl rfl ?_
      intro hit hhit
      cases hhit
      exact (h.held i v hphase).symm
    | _ => exact hok.elim
  | committed =>
    rw [hphase] at hok
    cases c with
    | invalidate =>
      exact h.invalidated (by rw [hphase]; rfl) rfl rfl rfl fun hit hhit => by cases hhit
    | _ => exact hok.elim

theorem coherent_drift {e : CacheDrift} (h : Coherent s log)
    (hdrift : cacheServer.drift e s = some s') : Coherent s' log := by
  have hkept : s'.row = s.row ∧ s'.cache = s.cache ∧ s'.version = s.version := by
    cases e <;> cases hdrift <;> exact ⟨rfl, rfl, rfl⟩
  obtain ⟨hrow, hcache, hversion⟩ := hkept
  constructor
  · exact h.single
  · rw [hcache, hrow]
    exact h.cached
  · rw [hversion, hrow]
    exact h.selected
  · rw [hversion]
    exact h.looked
  · rw [hversion]
    exact h.bounded
  · rw [hrow]
    exact h.held
  · rw [hrow]
    exact h.last
  · exact h.opener

end Invariant

section Reads

variable {s s' : Process} {log : CacheLog ι} {W : List (ι × Option JsString)} {i : ι}
  {v : Option JsString}

/-- Since these writes nobody has written, and the read has found the value they left. -/
structure Undisturbed (i : ι) (v : Option JsString) (s : Process) (log : CacheLog ι) : Prop where
  closed : ∀ j, ¬ (cachePhases log j).Open
  row : s.row = v
  selected : ∀ w version, cachePhases log i = .selected w version → w = v
  read : ∀ w, cachePhases log i = .read w → w = v

def Reads (W : List (ι × Option JsString)) (i : ι) (v : Option JsString) (s : Process)
    (log : CacheLog ι) : Prop :=
  W <+: writes log ∧ (writes log = W → Undisturbed i v s log)

omit [DecidableEq ι] in
theorem closed_next {g : CachePhase} {j : ι} {c : CacheCommand} {r : Option c.Reply}
    (hwrites : written? ⟨j, c, r⟩ = none) : ¬ (g.next c r).Open := by
  intro hopen
  cases c with
  | lookup =>
    rcases r with _ | ⟨_ | _⟩ <;> cases g <;> exact hopen
  | select => cases g <;> cases r <;> exact hopen
  | publish v version => cases g <;> cases r <;> exact hopen
  | execute v =>
    cases r with
    | some _ => cases hwrites
    | none => cases g <;> exact hopen
  | store v => cases g <;> exact hopen
  | commit v =>
    cases r with
    | some _ => cases hwrites
    | none => cases g <;> exact hopen
  | invalidate => cases g <;> exact hopen

/-- Only a statement of a read selects a value. -/
theorem next_selected {g : CachePhase} {c : CacheCommand} {w : Option JsString} {version : ℕ}
    (h : g.next c (performCache c s).1 = .selected w version) : w = s.row := by
  cases c with
  | lookup =>
    have hnext : CachePhase.afterLookup (some s.lookup) = .selected w version := by
      cases g <;> exact h
    cases hlook : s.lookup <;> rw [hlook] at hnext <;> cases hnext
  | select =>
    by_cases hlink : s.link = .answered
    · have hreply : (performCache .select s).1 = some s.row := if_pos hlink
      rw [hreply] at h
      cases g <;> cases h
      rfl
    · have hreply : (performCache .select s).1 = none := if_neg hlink
      rw [hreply] at h
      cases g <;> cases h
  | publish v version => cases g <;> cases h
  | execute v => cases hreply : (s.write v).1 <;> cases g <;> simp [performCache, hreply, CachePhase.next] at h
  | store v => cases g <;> cases h
  | commit v => cases hreply : (s.write v).1 <;> cases g <;> simp [performCache, hreply, CachePhase.next] at h
  | invalidate => cases g <;> cases h

/-- A read has its value from the cache or from the row it selected. -/
theorem next_read {g : CachePhase} {c : CacheCommand} {w : Option JsString} (hok : g.Allows c)
    (h : g.next c (performCache c s).1 = .read w) :
    (∃ hit, s.cache = some hit ∧ hit.value = w) ∨ ∃ version, g = .selected w version := by
  cases c with
  | lookup =>
    have hnext : CachePhase.afterLookup (some s.lookup) = .read w := by
      cases g <;> exact h
    cases hlook : s.lookup with
    | hit v =>
      rw [hlook] at hnext
      cases hnext
      exact .inl (lookup_hit hlook)
    | miss version =>
      rw [hlook] at hnext
      cases hnext
  | select =>
    by_cases hlink : s.link = .answered
    · have hreply : (performCache .select s).1 = some s.row := if_pos hlink
      rw [hreply] at h
      cases g <;> cases h
    · have hreply : (performCache .select s).1 = none := if_neg hlink
      rw [hreply] at h
      cases g <;> cases h
  | publish v version =>
    cases g with
    | selected v' version' =>
      cases h
      obtain ⟨rfl, rfl⟩ := hok
      exact .inr ⟨version, rfl⟩
    | _ => exact hok.elim
  | execute v => cases hreply : (s.write v).1 <;> cases g <;> simp [performCache, hreply, CachePhase.next] at h
  | store v => cases g <;> cases h
  | commit v => cases hreply : (s.write v).1 <;> cases g <;> simp [performCache, hreply, CachePhase.next] at h
  | invalidate => cases g <;> cases h

theorem row_unwritten {j : ι} {c : CacheCommand} (hmeets : writesApart.act s log j c)
    (hwrites : written? ⟨j, c, (performCache c s).1⟩ = none) :
    (performCache c s).2.row = s.row := by
  cases c with
  | lookup => rfl
  | select => rfl
  | publish v version =>
    show (if s.version = version then s.fill v else s).row = s.row
    split <;> rfl
  | execute v =>
    rcases write_cases v hmeets.1 with hwrite | hwrite
    · change written? ⟨j, .execute v, (s.write v).1⟩ = none at hwrites
      rw [hwrite] at hwrites
      cases hwrites
    · show (s.write v).2.row = s.row
      rw [hwrite]
  | store v => rfl
  | commit v =>
    rcases write_cases v hmeets.1 with hwrite | hwrite
    · change written? ⟨j, .commit v, (s.write v).1⟩ = none at hwrites
      rw [hwrite] at hwrites
      cases hwrites
    · show (s.write v).2.row = s.row
      rw [hwrite]
  | invalidate => rfl

theorem reads_act {j : ι} {c : CacheCommand} (hcoherent : Coherent s log) (h : Reads W i v s log)
    (hok : (cachePhases log j).Allows c) (hmeets : writesApart.act s log j c) :
    Reads W i v (performCache c s).2 (log ++ [⟨j, c, (performCache c s).1⟩]) := by
  obtain ⟨hearlier, hquiet⟩ := h
  refine ⟨?_, ?_⟩
  · rw [writes_append]
    exact hearlier.trans (List.prefix_append _ _)
  · intro hsame
    rw [writes_append] at hsame
    -- the step has written nothing, and nothing was written before it
    have hlength : W.length ≤ (writes log).length := hearlier.length_le
    have hnothing : (written? ⟨j, c, (performCache c s).1⟩).toList = [] := by
      have := congrArg List.length hsame
      rw [List.length_append] at this
      exact List.length_eq_zero_iff.mp (by omega)
    have hwrites : written? ⟨j, c, (performCache c s).1⟩ = none := by
      cases hwritten : written? ⟨j, c, (performCache c s).1⟩ with
      | none => rfl
      | some x =>
        rw [hwritten] at hnothing
        cases hnothing
    rw [hnothing, List.append_nil] at hsame
    obtain ⟨hclosed, hrow, hselected, hread⟩ := hquiet hsame
    have hclosed' : ∀ k, ¬ (cachePhases (log ++ [⟨j, c, (performCache c s).1⟩]) k).Open := by
      intro k
      by_cases hk : k = j
      · subst hk
        rw [phase_self]
        exact closed_next hwrites
      · rw [phase_other hk]
        exact hclosed k
    refine ⟨hclosed', (row_unwritten hmeets hwrites).trans hrow, ?_, ?_⟩
    · intro w version hw
      by_cases hi : i = j
      · subst hi
        rw [phase_self] at hw
        exact (next_selected hw).trans hrow
      · rw [phase_other hi] at hw
        exact hselected w version hw
    · intro w hw
      by_cases hi : i = j
      · subst hi
        rw [phase_self] at hw
        rcases next_read hok hw with ⟨hit, hcache, rfl⟩ | ⟨version, hphase⟩
        · exact (hcoherent.cached hclosed hit hcache).trans hrow
        · exact hselected w version hphase
      · rw [phase_other hi] at hw
        exact hread w hw

end Reads

section Runs

variable {calls : ι → CacheCall} {cfg cfg' : CacheConfig ι}
  {trace : List (Event (CacheConfig ι) (CacheMove ι))}

theorem run_coherent (hinit : (cacheRuns calls).initial cfg)
    (hrun : Exec (cacheRuns calls) cfg trace cfg')
    (hmeets : ∀ e ∈ trace, writesApart.Meets e.before e.label) :
    Coherent cfg'.store cfg'.log ∧
      ∀ i, cacheProtocol.Obeys Finished (cachePhases cfg'.log i) (cfg'.requests i) := by
  obtain ⟨hcache, hlog, hrequests⟩ := hinit
  refine Server.run_meeting (P := fun _ => cacheProtocol) (I := Coherent) ?_ ?_ hrun hmeets ?_ ?_
  · intro s log i c _ h hok hact
    exact coherent_act h hok hact
  · intro s s' log e h _ hdrift
    exact coherent_drift h hdrift
  · intro i
    rw [hlog, hrequests]
    exact call_obeys (calls i)
  · rw [hlog]
    exact coherent_start _ hcache

/-- Once all calls have finished no window is open. -/
theorem closed_of_finished (hobeys : ∀ i, cacheProtocol.Obeys Finished (cachePhases cfg.log i)
      (cfg.requests i))
    (hended : ∀ i, (∀ e ∈ cfg.log, e.who ≠ i) ∨ (cfg.requests i).ended = true) (i : ι) :
    ¬ (cachePhases cfg.log i).Open := by
  rcases hended i with hunbegun | hended
  · have hidle : cachePhases cfg.log i = .idle := Protocol.view_unbegun _ _ hunbegun
    rw [hidle]
    exact id
  · have hobey := hobeys i
    cases hprog : cfg.requests i with
    | done a =>
      rw [hprog] at hobey
      exact hobey.1
    | thrown =>
      rw [hprog] at hobey
      exact hobey.1
    | call c k =>
      rw [hprog] at hended
      cases hended

/-- A read that begins when the last write has returned, and before any other, returns
what that write has left. -/
theorem read_after_write {mid : CacheConfig ι} (hmid : Coherent mid.store mid.log)
    (hobeys : ∀ i, cacheProtocol.Obeys Finished (cachePhases mid.log i) (mid.requests i))
    (hrun : Exec (cacheRuns calls) mid trace cfg)
    (hmeets : ∀ e ∈ trace, writesApart.Meets e.before e.label) {i j : ι} {v w : Option JsString}
    {a : CacheAnswer} (hlast : (writes cfg.log).getLast? = some (j, v))
    (hreturned : mid.requests j = .done a) (hunbegun : ∀ e ∈ mid.log, e.who ≠ i)
    (hread : cfg.requests i = .done (.read w)) : w = v := by
  obtain ⟨later, hlog, hothers⟩ := Server.log_after_done hrun hreturned
  have hsplit : writes cfg.log = writes mid.log ++ writes later := by
    rw [hlog, writes, List.filterMap_append]
    rfl
  have hnone : writes later = [] := by
    rcases List.eq_nil_or_concat (writes later) with hnil | ⟨rest, last, hconcat⟩
    · exact hnil
    · rw [hsplit, hconcat, List.concat_eq_append, ← List.append_assoc, List.getLast?_concat] at hlast
      have hmem : (j, v) ∈ writes later := by
        rw [hconcat, ← Option.some.inj hlast]
        simp
      obtain ⟨x, hx, hwritten⟩ := List.mem_filterMap.mp hmem
      have hwho : x.who = j := by
        unfold written? at hwritten
        split at hwritten
        · cases hwritten
          rfl
        · cases hwritten
          rfl
        · cases hwritten
      exact (hothers x hx hwho).elim
  rw [hnone, List.append_nil] at hsplit
  have hlast' : (writes mid.log).getLast? = some (j, v) := hsplit ▸ hlast
  have hclosed : ∀ k, ¬ (cachePhases mid.log k).Open := by
    intro k hk
    obtain ⟨v', hv'⟩ := hmid.opener k hk
    have hkj : k = j := (Prod.mk.inj (Option.some.inj (hv'.symm.trans hlast'))).1
    have hobey := hobeys j
    rw [hreturned] at hobey
    exact hobey.1 (hkj ▸ hk)
  have hidle : cachePhases mid.log i = .idle := Protocol.view_unbegun _ _ hunbegun
  have hstart : Reads (writes mid.log) i v mid.store mid.log := by
    refine ⟨List.prefix_rfl, fun _ => ⟨hclosed, hmid.last j v hlast', ?_, ?_⟩⟩
    · intro u version hu
      rw [hidle] at hu
      cases hu
    · intro u hu
      rw [hidle] at hu
      cases hu
  have hkept := Server.run_meeting (P := fun _ => cacheProtocol) (G := writesApart)
    (I := fun s log => Coherent s log ∧ Reads (writes mid.log) i v s log)
    (fun s log k c _ h hok hact => ⟨coherent_act h.1 hok hact, reads_act h.1 h.2 hok hact⟩)
    (fun s s' log e h _ hdrift => ⟨coherent_drift h.1 hdrift, ?_⟩) hrun hmeets hobeys ⟨hmid, hstart⟩
  · obtain ⟨⟨-, -, hquiet⟩, hfinished⟩ := hkept
    have hobey := hfinished i
    rw [hread] at hobey
    exact (hquiet hsplit).read w (hobey.2 w rfl)
  · refine ⟨h.2.1, fun hsame => ?_⟩
    obtain ⟨hclosed, hrow, hselected, hread⟩ := h.2.2 hsame
    refine ⟨hclosed, ?_, hselected, hread⟩
    cases e <;> cases hdrift <;> exact hrow

/-- With writes apart, the cache agrees with the row whenever nothing is under way, and
no read returns a value older than a write that has completed before it. -/
theorem settings_cache (calls : ι → CacheCall) (hinit : (cacheRuns calls).initial cfg)
    (hrun : Exec (cacheRuns calls) cfg trace cfg')
    (hmeets : ∀ e ∈ trace, writesApart.Meets e.before e.label) :
    ((∀ i, (∀ e ∈ cfg'.log, e.who ≠ i) ∨ (cfg'.requests i).ended = true) →
      ∀ hit, cfg'.store.cache = some hit → hit.value = cfg'.store.row) ∧
    ∀ first second mid, trace = first ++ second → Exec (cacheRuns calls) cfg first mid →
      Exec (cacheRuns calls) mid second cfg' → ∀ i j v w,
        (writes cfg'.log).getLast? = some (j, v) → mid.requests j = .done .written →
        (∀ e ∈ mid.log, e.who ≠ i) → cfg'.requests i = .done (.read w) → w = v := by
  refine ⟨?_, ?_⟩
  · intro hended
    obtain ⟨hcoherent, hobeys⟩ := run_coherent hinit hrun hmeets
    exact hcoherent.cached (closed_of_finished hobeys hended)
  · rintro first second mid rfl hfirst hsecond i j v w hlast hreturned hunbegun hread
    obtain ⟨hcoherent, hobeys⟩ := run_coherent hinit hfirst fun e he =>
      hmeets e (List.mem_append_left _ he)
    exact read_after_write hcoherent hobeys hsecond
      (fun e he => hmeets e (List.mem_append_right _ he)) hlast hreturned hunbegun hread

end Runs

section Examples

instance (s : Process) (log : CacheLog (Fin 3)) (i : Fin 3) (c : CacheCommand) :
    Decidable (writesApart.act s log i c) :=
  match c with
  | .execute _ => inferInstanceAs (Decidable (_ ∧ ∀ j, ¬ (cachePhases log j).Open))
  | .commit _ => inferInstanceAs (Decidable (_ ∧ ∀ j, ¬ (cachePhases log j).Open))
  | .lookup => inferInstanceAs (Decidable True)
  | .select => inferInstanceAs (Decidable True)
  | .publish _ _ => inferInstanceAs (Decidable True)
  | .store _ => inferInstanceAs (Decidable True)
  | .invalidate => inferInstanceAs (Decidable True)

instance (s : Process) (log : CacheLog (Fin 3)) (e : CacheDrift) :
    Decidable (writesApart.drift s log e) := inferInstanceAs (Decidable True)

def twoWritesAndARead : Fin 3 → CacheCall
  | 0 => .writeRaw (some (js "a"))
  | 1 => .writeRaw (some (js "b"))
  | 2 => .readRaw

def emptyProcess : CacheConfig (Fin 3) where
  store := ⟨none, .answered, 0, none, 0⟩
  log := []
  requests i := (twoWritesAndARead i).program

def acts (order : List (Fin 3)) : List (CacheMove (Fin 3)) := order.map fun i => .act i ()

/-- The continuations of two writes run in the other order than their statements, and a
later read returns the value the row no longer has. -/
theorem writes_crossed :
    ∃ start first second mid cfg, (cacheRuns twoWritesAndARead).initial start ∧
      Exec (cacheRuns twoWritesAndARead) start first mid ∧
      Exec (cacheRuns twoWritesAndARead) mid second cfg ∧
      (∀ i, (cfg.requests i).ended = true) ∧
      (∃ hit, cfg.store.cache = some hit ∧ hit.value ≠ cfg.store.row) ∧
      (writes cfg.log).getLast? = some (1, some (js "b")) ∧
      mid.requests 1 = .done .written ∧ (∀ e ∈ mid.log, e.who ≠ 2) ∧
      cfg.requests 2 = .done (.read (some (js "a"))) := by
  have hruns : ((acts [0, 1, 1, 0]).foldlM cacheServer.step emptyProcess).any (fun mid =>
      decide ((mid.requests 1).result? = some .written) && (decide (∀ e ∈ mid.log, e.who ≠ 2) &&
      ((acts [2]).foldlM cacheServer.step mid).any fun cfg =>
        decide (∀ i, (cfg.requests i).ended = true) && (decide (cfg.store.cache.any fun hit =>
          decide (hit.value ≠ cfg.store.row)) &&
        (decide ((writes cfg.log).getLast? = some (1, some (js "b"))) &&
          decide ((cfg.requests 2).result? = some (.read (some (js "a")))))))) = true := by
    decide +kernel
  obtain ⟨mid, hmid, hboth⟩ := (Option.any_eq_true ..).mp hruns
  simp only [Bool.and_eq_true, decide_eq_true_eq] at hboth
  obtain ⟨hwritten, hunbegun, hthen⟩ := hboth
  obtain ⟨cfg, hcfg, hall⟩ := (Option.any_eq_true ..).mp hthen
  simp only [Bool.and_eq_true, decide_eq_true_eq] at hall
  obtain ⟨hended, hstale, hlast, hread⟩ := hall
  obtain ⟨hit, hcache, hvalue⟩ := (Option.any_eq_true ..).mp hstale
  obtain ⟨first, hfirst⟩ := Server.exec_of_moves hmid (fun s => s.cache = none)
    fun i => (twoWritesAndARead i).program
  obtain ⟨second, hsecond⟩ := Server.exec_of_moves hcfg (fun s => s.cache = none)
    fun i => (twoWritesAndARead i).program
  exact ⟨emptyProcess, first, second, mid, cfg, ⟨rfl, rfl, rfl⟩, hfirst, hsecond, hended,
    ⟨hit, hcache, of_decide_eq_true hvalue⟩, hlast, Prog.eq_done hwritten, hunbegun,
    Prog.eq_done hread⟩

/-- Writes one after the other and then a read. -/
theorem settings_cache_apart :
    ∃ start trace cfg, (cacheRuns twoWritesAndARead).initial start ∧
      Exec (cacheRuns twoWritesAndARead) start trace cfg ∧
      (∀ hit, cfg.store.cache = some hit → hit.value = cfg.store.row) ∧
      ∀ w, cfg.requests 2 = .done (.read w) → w = some (js "b") := by
  have hruns : ((acts [0, 0, 1, 1]).foldlM (cacheServer.stepMeeting writesApart) emptyProcess).any
      (fun mid => decide ((mid.requests 1).result? = some .written) &&
        (decide (∀ e ∈ mid.log, e.who ≠ 2) &&
        ((acts [2]).foldlM (cacheServer.stepMeeting writesApart) mid).any fun cfg =>
          decide (∀ i, (cfg.requests i).ended = true) &&
          decide ((writes cfg.log).getLast? = some (1, some (js "b"))))) = true := by
    decide +kernel
  obtain ⟨mid, hmid, hboth⟩ := (Option.any_eq_true ..).mp hruns
  simp only [Bool.and_eq_true, decide_eq_true_eq] at hboth
  obtain ⟨hwritten, hunbegun, hthen⟩ := hboth
  obtain ⟨cfg, hcfg, hall⟩ := (Option.any_eq_true ..).mp hthen
  simp only [Bool.and_eq_true, decide_eq_true_eq] at hall
  obtain ⟨hended, hlast⟩ := hall
  obtain ⟨first, hfirst, hmeets⟩ := Server.exec_of_moves_meeting hmid (fun s => s.cache = none)
    fun i => (twoWritesAndARead i).program
  obtain ⟨second, hsecond, hmeets'⟩ := Server.exec_of_moves_meeting hcfg (fun s => s.cache = none)
    fun i => (twoWritesAndARead i).program
  have hinit : (cacheRuns twoWritesAndARead).initial emptyProcess := ⟨rfl, rfl, rfl⟩
  have hrun : Exec (cacheRuns twoWritesAndARead) emptyProcess (first ++ second) cfg :=
    hfirst.append hsecond
  obtain ⟨hcoherent, hreads⟩ := settings_cache twoWritesAndARead hinit hrun fun e he =>
    (List.mem_append.mp he).elim (hmeets e) (hmeets' e)
  exact ⟨emptyProcess, first ++ second, cfg, hinit, hrun, hcoherent fun i => .inr (hended i),
    fun w hw => hreads first second mid rfl hfirst hsecond 2 1 _ w hlast (Prog.eq_done hwritten)
      hunbegun hw⟩

end Examples

end DreamSso.SettingsCache
