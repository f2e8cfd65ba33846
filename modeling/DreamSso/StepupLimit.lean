import DreamSso.StepupVerify

/-!
The step-up failure counter over runs of one user's attempts. Counter, deadline
and phases are a tally of attempt windows, and every command is a step of it.
-/
namespace DreamSso.Factors

open AttemptWindows Interleaving JsStrings KeyedTables Transitions

/-- The counter as commands see it. -/
def counter? (sub : Uuid) (s : FactorDb) : Option (ExpiringStore.Stored ℕ) :=
  ExpiringStore.visible? s.redis s.clock (.stepupFail sub)

def Command.mark : (c : Command) → Option c.Reply → Option Mark
  | .incr _, some n => if n = 1 then some .opened else none
  | .confirmedSecrets _, _ => some .evaluated
  | _, _ => none

/-- The slots taken by codes once this command is executed. -/
def Command.slots (guesses : Bool) (taken : ℕ) : (c : Command) → Option c.Reply → ℕ
  | .incr _, some n => if n = 1 then guesses.toNat
      else if n ≤ MAX_FAILS then taken + guesses.toNat else taken
  | _, _ => taken

/-- The command deletes the counter. -/
def Command.clears (sub : Uuid) : Command → Bool
  | .del keys => decide (.stepupFail sub ∈ keys)
  | _ => false

/-- The counter is over once this time has passed. -/
def lapses (sub : Uuid) (s : FactorDb) (milliseconds : ℕ) : Bool :=
  (counter? sub s).any fun e => e.deadline.any fun d => decide (d ≤ s.clock + milliseconds)

section Runs

variable {ι : Type} [DecidableEq ι]

/-- Verify requests of one user. -/
def verifyRuns (P : Primitives) (sub : Uuid) (calls : ι → VerifyBody) :
    System (Config ι Command Command.Reply FactorDb VerifyAnswer) (Move ι Outside ℕ) :=
  factorServer.system (fun s => s.redis (.stepupFail sub) = none)
    fun i => stepupVerify P sub (calls i)

abbrev guessPhases (sub : Uuid) (calls : ι → VerifyBody)
    (log : List (Entry ι Command Command.Reply)) (i : ι) : GuessPhase :=
  phases (fun i => guessProtocol sub (calls i).guesses) (fun _ => .before) log i

omit [DecidableEq ι] in
/-- The slots codes have taken since the last counter was created. -/
def slotsTaken (calls : ι → VerifyBody) (log : List (Entry ι Command Command.Reply)) : ℕ :=
  log.foldl (fun taken e => e.command.slots (calls e.who).guesses taken e.reply) 0

/-- The first attempts of windows and the look-ups of codes, and when they were
executed. -/
def marks (hist : List (FactorDb × Entry ι Command Command.Reply)) : List (Mark × ℤ) :=
  hist.filterMap fun e => (e.2.command.mark e.2.reply).map fun m => (m, e.1.clock)

/-- The last opening. -/
def openedAt (history : List (Mark × ℤ)) : ℤ :=
  history.foldl (fun t m => if m.1 = .opened then m.2 else t) 0

/-- No time passes while a counter has been created and its EXPIRE is still to
come. A counter is deleted only while no code has taken a slot of it, and it
lapses only when every code that has a slot has been looked up. -/
def lookedUpInTime (sub : Uuid) (calls : ι → VerifyBody) :
    Condition ι Command Command.Reply FactorDb ℕ where
  act s log _ c :=
    c.clears sub = true → (counter? sub s).isSome = true → slotsTaken calls log = 0
  drift s log milliseconds :=
    (∀ i, (guessPhases sub calls log i).isOpening = false) ∧
      (lapses sub s milliseconds = true → ∀ i, (guessPhases sub calls log i).holdsSlot = false)

abbrev windowLength : ℤ := FactorDb.milliseconds FAIL_WINDOW

/-- Store and commands as a tally. -/
def tally (sub : Uuid) (calls : ι → VerifyBody)
    (hist : List (FactorDb × Entry ι Command Command.Reply)) (s : FactorDb) : Tally ι where
  clock := s.clock
  window := (counter? sub s).map fun _ => (openedAt (marks hist), slotsTaken calls (entries hist))
  history := marks hist
  reserved := {i | (guessPhases sub calls (entries hist) i).holdsSlot = true}

/-- The counter counts at least the slots of its window and ends with it, or has
just been created. -/
structure Limited (sub : Uuid) (calls : ι → VerifyBody)
    (hist : List (FactorDb × Entry ι Command Command.Reply)) (s : FactorDb) : Prop where
  fits : Inv windowLength MAX_FAILS (tally sub calls hist s)
  counts : ∀ e, counter? sub s = some e → 1 ≤ e.value ∧ slotsTaken calls (entries hist) ≤ e.value
  ends : ∀ e, counter? sub s = some e → e.deadline = some (openedAt (marks hist) + windowLength) ∨
    e.deadline = none ∧ ∃ i, (guessPhases sub calls (entries hist) i).isOpening = true
  fresh : ∀ i, (guessPhases sub calls (entries hist) i).isOpening = true →
    (counter? sub s).isSome = true → openedAt (marks hist) = s.clock

variable {P : Primitives} {sub : Uuid} {calls : ι → VerifyBody} {out : Outside}
  {hist : List (FactorDb × Entry ι Command Command.Reply)} {s s' : FactorDb} {i : ι} {c : Command}
  {r : Option c.Reply}

omit [DecidableEq ι] in
theorem marks_append : marks (hist ++ [(s, (⟨i, c, r⟩ : Entry ι Command Command.Reply))]) =
    marks hist ++ ((c.mark r).map fun m => (m, s.clock)).toList := by
  rw [marks, List.filterMap_append]
  cases h : c.mark r <;> simp [marks, h]

omit [DecidableEq ι] in
theorem slotsTaken_append (log : List (Entry ι Command Command.Reply)) :
    slotsTaken calls (log ++ [⟨i, c, r⟩]) = c.slots (calls i).guesses (slotsTaken calls log) r := by
  rw [slotsTaken, List.foldl_append]
  rfl

theorem openedAt_opened (history : List (Mark × ℤ)) (t : ℤ) :
    openedAt (history ++ [(.opened, t)]) = t := by
  rw [openedAt, List.foldl_append]
  rfl

theorem openedAt_evaluated (history : List (Mark × ℤ)) (t : ℤ) :
    openedAt (history ++ [(.evaluated, t)]) = openedAt history := by
  rw [openedAt, List.foldl_append]
  rfl

theorem guessPhases_append (log : List (Entry ι Command Command.Reply)) :
    guessPhases sub calls (log ++ [⟨i, c, r⟩]) = Function.update (guessPhases sub calls log) i
      ((guessProtocol sub (calls i).guesses).next (guessPhases sub calls log i) c r) :=
  phases_append log i c r

/-- What has to be shown of a command, given its mark, the slots after it and the
phase it leads to: above all that it is a step of the tally. -/
theorem Limited.of_next (h : Limited sub calls hist s) (g : GuessPhase) (taken : ℕ)
    (history : List (Mark × ℤ))
    (hclock : s'.clock = s.clock)
    (hmark : marks hist ++ ((c.mark r).map fun m => (m, s.clock)).toList = history)
    (hslots : c.slots (calls i).guesses (slotsTaken calls (entries hist)) r = taken)
    (hnext : (guessProtocol sub (calls i).guesses).next
      (guessPhases sub calls (entries hist) i) c r = g)
    (hstep : Step windowLength MAX_FAILS (tally sub calls hist s)
      ⟨s.clock, (counter? sub s').map fun _ => (openedAt history, taken), history,
        {j | (Function.update (guessPhases sub calls (entries hist)) i g j).holdsSlot = true}⟩)
    (hcounts : ∀ e, counter? sub s' = some e → 1 ≤ e.value ∧ taken ≤ e.value)
    (hends : ∀ e, counter? sub s' = some e → e.deadline = some (openedAt history + windowLength) ∨
      e.deadline = none ∧
        ∃ j, (Function.update (guessPhases sub calls (entries hist)) i g j).isOpening = true)
    (hfresh : ∀ j, (Function.update (guessPhases sub calls (entries hist)) i g j).isOpening = true →
      (counter? sub s').isSome = true → openedAt history = s.clock) :
    Limited sub calls (hist ++ [(s, ⟨i, c, r⟩)]) s' := by
  have hphases : guessPhases sub calls (entries (hist ++ [(s, ⟨i, c, r⟩)])) =
      Function.update (guessPhases sub calls (entries hist)) i g := by
    rw [entries_append, guessPhases_append, hnext]
  have htaken : slotsTaken calls (entries (hist ++ [(s, ⟨i, c, r⟩)])) = taken := by
    rw [entries_append, slotsTaken_append, hslots]
  have hhistory : marks (hist ++ [(s, (⟨i, c, r⟩ : Entry ι Command Command.Reply))]) = history := by
    rw [marks_append, hmark]
  have htally : tally sub calls (hist ++ [(s, ⟨i, c, r⟩)]) s' =
      ⟨s.clock, (counter? sub s').map fun _ => (openedAt history, taken), history,
        {j | (Function.update (guessPhases sub calls (entries hist)) i g j).holdsSlot = true}⟩ := by
    rw [tally, hphases, htaken, hhistory, hclock]
  refine ⟨htally ▸ h.fits.step (by decide) (by decide) hstep, ?_, ?_, ?_⟩
  · rw [htaken]
    exact hcounts
  · rw [hhistory, hphases]
    exact hends
  · rw [hhistory, hphases, hclock]
    exact hfresh

theorem reserved_add {v : ι → GuessPhase} {g : GuessPhase} (hi : (v i).holdsSlot = false) :
    {j | (Function.update v i g j).holdsSlot = true} =
      reserve g.holdsSlot i {j | (v j).holdsSlot = true} := by
  ext j
  by_cases hij : j = i
  · subst hij
    cases hg : g.holdsSlot <;> simp [reserve, hg, hi]
  · cases hg : g.holdsSlot <;> simp [reserve, hij]

theorem reserved_keep {v : ι → GuessPhase} {g : GuessPhase} (hg : g.holdsSlot = (v i).holdsSlot) :
    {j | (Function.update v i g j).holdsSlot = true} = {j | (v j).holdsSlot = true} := by
  ext j
  by_cases hij : j = i
  · subst hij
    simp [hg]
  · simp [hij]

theorem reserved_drop {v : ι → GuessPhase} {g : GuessPhase} (hg : g.holdsSlot = false) :
    {j | (Function.update v i g j).holdsSlot = true} = {j | (v j).holdsSlot = true} \ {i} := by
  ext j
  by_cases hij : j = i
  · subst hij
    simp [hg]
  · simp [hij]

/-- Past an update by another phase the openings are those of other attempts. -/
theorem opening_of_update {v : ι → GuessPhase} {g : GuessPhase} (hg : g.isOpening = false) {j : ι}
    (hj : (Function.update v i g j).isOpening = true) : (v j).isOpening = true := by
  by_cases hij : j = i
  · subst hij
    rw [Function.update_self, hg] at hj
    cases hj
  · rw [Function.update_of_ne hij] at hj
    exact hj

theorem opening_update {v : ι → GuessPhase} {g : GuessPhase} (hi : (v i).isOpening = false)
    (h : ∃ j, (v j).isOpening = true) : ∃ j, (Function.update v i g j).isOpening = true := by
  obtain ⟨j, hj⟩ := h
  have hij : j ≠ i := by
    rintro rfl
    rw [hi] at hj
    cases hj
  exact ⟨j, by rw [Function.update_of_ne hij]; exact hj⟩

omit [DecidableEq ι] in
theorem incr_of_none (h : counter? sub s = none) : (s.incr sub).1 = 1 ∧
    counter? sub (s.incr sub).2 = some ⟨1, none⟩ := by
  have hcount : (s.incr sub).1 = 1 := by
    rw [FactorDb.incr, ExpiringStore.get]
    exact congrArg (fun e => (Option.map ExpiringStore.Stored.value e).getD 0 + 1) h
  refine ⟨hcount, ExpiringStore.visible?_eq_some_iff.mpr ⟨?_, fun d hd => by cases hd⟩⟩
  show ExpiringStore.setKeepTtl s.redis s.clock (.stepupFail sub) (s.incr sub).1 _ = _
  rw [ExpiringStore.setKeepTtl_self, hcount]
  have hentry : ExpiringStore.visible? s.redis s.clock (.stepupFail sub) = none := h
  rw [hentry]
  rfl

omit [DecidableEq ι] in
theorem incr_of_some {e : ExpiringStore.Stored ℕ} (h : counter? sub s = some e) :
    (s.incr sub).1 = e.value + 1 ∧
      counter? sub (s.incr sub).2 = some ⟨e.value + 1, e.deadline⟩ := by
  have hcount : (s.incr sub).1 = e.value + 1 := by
    rw [FactorDb.incr, ExpiringStore.get]
    exact congrArg (fun e => (Option.map ExpiringStore.Stored.value e).getD 0 + 1) h
  refine ⟨hcount, ExpiringStore.visible?_eq_some_iff.mpr
    ⟨?_, (ExpiringStore.visible?_eq_some_iff.mp h).2⟩⟩
  show ExpiringStore.setKeepTtl s.redis s.clock (.stepupFail sub) (s.incr sub).1 _ = _
  rw [ExpiringStore.setKeepTtl_self, hcount]
  have hentry : ExpiringStore.visible? s.redis s.clock (.stepupFail sub) = some e := h
  rw [hentry]
  rfl

/-- The first attempt of a window. -/
theorem Limited.open (h : Limited sub calls hist s)
    (hbefore : guessPhases sub calls (entries hist) i = .before) (hnone : counter? sub s = none) :
    Limited sub calls (hist ++ [(s, ⟨i, .incr sub, some (s.incr sub).1⟩)]) (s.incr sub).2 := by
  obtain ⟨hone, hcounter⟩ := incr_of_none hnone
  have hclosed : (tally sub calls hist s).window = none := by rw [tally, hnone, Option.map_none]
  refine h.of_next (.opening (calls i).guesses) (calls i).guesses.toNat
    (marks hist ++ [(.opened, s.clock)]) rfl ?_ ?_ ?_ ?_ ?_ ?_ ?_
  · rw [hone]
    rfl
  · rw [hone]
    rfl
  · rw [hbefore, hone]
    rfl
  · rw [hcounter, Option.map_some, openedAt_opened, reserved_add (by rw [hbefore]; rfl)]
    exact .start i (calls i).guesses hclosed
  · intro e he
    rw [hcounter] at he
    cases he
    exact ⟨le_refl 1, Bool.toNat_le _⟩
  · intro e he
    rw [hcounter] at he
    cases he
    exact .inr ⟨rfl, i, by rw [Function.update_self]; rfl⟩
  · intro j _ _
    rw [openedAt_opened]

/-- Any later attempt. It takes a slot if it is among the first five and a code. -/
theorem Limited.join (h : Limited sub calls hist s)
    (hbefore : guessPhases sub calls (entries hist) i = .before) {e : ExpiringStore.Stored ℕ}
    (hsome : counter? sub s = some e) :
    Limited sub calls (hist ++ [(s, ⟨i, .incr sub, some (s.incr sub).1⟩)]) (s.incr sub).2 := by
  obtain ⟨hcount, hcounter⟩ := incr_of_some hsome
  obtain ⟨hpos, hslots⟩ := h.counts e hsome
  have hlater : ¬ e.value + 1 = 1 := by omega
  have hwindow : (tally sub calls hist s).window =
      some (openedAt (marks hist), slotsTaken calls (entries hist)) := by
    rw [tally, hsome, Option.map_some]
  have hkept : ∀ taken g, GuessPhase.isOpening g = false → taken ≤ e.value + 1 →
      Command.slots (calls i).guesses (slotsTaken calls (entries hist)) (.incr sub)
        (some (e.value + 1)) = taken →
      GuessPhase.counted (calls i).guesses (some (e.value + 1)) = g →
      Step windowLength MAX_FAILS (tally sub calls hist s)
        ⟨s.clock, some (openedAt (marks hist), taken), marks hist,
          {j | (Function.update (guessPhases sub calls (entries hist)) i g j).holdsSlot = true}⟩ →
      Limited sub calls (hist ++ [(s, ⟨i, .incr sub, some (s.incr sub).1⟩)]) (s.incr sub).2 := by
    intro taken g hopening htaken hcommand hnext hstep
    refine h.of_next g taken (marks hist) rfl ?_ ?_ ?_ ?_ ?_ ?_ ?_
    · have hmark : Command.mark (.incr sub) (some (e.value + 1)) = none := if_neg hlater
      rw [hcount, hmark]
      exact List.append_nil _
    · rw [hcount]
      exact hcommand
    · rw [hbefore, hcount]
      exact hnext
    · rw [hcounter, Option.map_some]
      exact hstep
    · intro e' he'
      rw [hcounter] at he'
      cases he'
      exact ⟨Nat.le_add_left 1 _, htaken⟩
    · intro e' he'
      rw [hcounter] at he'
      cases he'
      refine (h.ends e hsome).imp id fun hends => ⟨hends.1, opening_update ?_ hends.2⟩
      rw [hbefore]
      rfl
    · intro j hj _
      exact h.fresh j (opening_of_update hopening hj) (by rw [hsome]; rfl)
  by_cases hcap : e.value + 1 ≤ MAX_FAILS
  · have hholds : (GuessPhase.admitted (calls i).guesses).holdsSlot = (calls i).guesses := by
      cases (calls i).guesses <;> rfl
    refine hkept (slotsTaken calls (entries hist) + (calls i).guesses.toNat)
      (GuessPhase.admitted (calls i).guesses) (admitted_not_opening _) ?_ ?_ ?_ ?_
    · have := (calls i).guesses.toNat_le
      omega
    · simp only [Command.slots, if_neg hlater, if_pos hcap]
    · simp only [GuessPhase.counted, if_neg hlater, if_pos hcap]
    · rw [reserved_add (by rw [hbefore]; rfl), hholds]
      exact .join i (calls i).guesses _ _ hwindow (by omega)
  · refine hkept (slotsTaken calls (entries hist)) .ended rfl (by omega) ?_ ?_ ?_
    · simp only [Command.slots, if_neg hlater, if_neg hcap]
    · simp only [GuessPhase.counted, if_neg hlater, if_neg hcap]
    · rw [reserved_keep (by rw [hbefore]; rfl), ← hwindow]
      exact .idle

omit [DecidableEq ι] in
theorem counter?_expire :
    counter? sub (FactorDb.perform out (.expire (.stepupFail sub) FAIL_WINDOW) s).2 =
      (counter? sub s).map fun e => ⟨e.value, some (s.clock + windowLength)⟩ := by
  cases h : counter? sub s with
  | none =>
    refine ExpiringStore.visible?_of_none ?_ _
    show ExpiringStore.expire s.redis s.clock (.stepupFail sub) _ _ = _
    rw [ExpiringStore.expire_self]
    exact congrArg (Option.map _) h
  | some e =>
    refine ExpiringStore.visible?_eq_some_iff.mpr ⟨?_, fun d hd => ?_⟩
    · show ExpiringStore.expire s.redis s.clock (.stepupFail sub) _ _ = _
      rw [ExpiringStore.expire_self]
      exact congrArg (Option.map _) h
    · cases hd
      have hwindow : (0 : ℤ) < windowLength := by decide
      show s.clock < s.clock + windowLength
      omega

/-- The deadline is set at the time the window was opened. -/
theorem Limited.expire (h : Limited sub calls hist s) {guesses : Bool}
    (hopening : guessPhases sub calls (entries hist) i = .opening guesses) :
    Limited sub calls (hist ++ [(s, ⟨i, .expire (.stepupFail sub) FAIL_WINDOW, some ()⟩)])
      (FactorDb.perform out (.expire (.stepupFail sub) FAIL_WINDOW) s).2 := by
  have hholds : (GuessPhase.admitted guesses).holdsSlot =
      (guessPhases sub calls (entries hist) i).holdsSlot := by
    rw [hopening]
    cases guesses <;> rfl
  refine h.of_next (.admitted guesses) (slotsTaken calls (entries hist)) (marks hist) rfl
    (List.append_nil _) rfl ?_ ?_ ?_ ?_ ?_
  · rw [hopening]
    rfl
  · rw [counter?_expire, Option.map_map, reserved_keep hholds]
    exact .idle
  · intro e he
    rw [counter?_expire, Option.map_eq_some_iff] at he
    obtain ⟨e', he', rfl⟩ := he
    exact h.counts e' he'
  · intro e he
    rw [counter?_expire, Option.map_eq_some_iff] at he
    obtain ⟨e', he', rfl⟩ := he
    refine .inl ?_
    rw [h.fresh i (by rw [hopening]; rfl) (by rw [he']; rfl)]
  · intro j hj hsome
    rw [counter?_expire, Option.isSome_map] at hsome
    exact h.fresh j (opening_of_update (admitted_not_opening _) hj) hsome

/-- The code of an attempt that holds a slot is looked up. -/
theorem Limited.lookUp (h : Limited sub calls hist s) (sub' : Uuid)
    (rows : Option (List (Uuid × JsString)))
    (hreserved : guessPhases sub calls (entries hist) i = .reserved) :
    Limited sub calls (hist ++ [(s, ⟨i, .confirmedSecrets sub', rows⟩)]) s := by
  have hmem : i ∈ (tally sub calls hist s).reserved := by
    show (guessPhases sub calls (entries hist) i).holdsSlot = true
    rw [hreserved]
    rfl
  refine h.of_next .ended (slotsTaken calls (entries hist))
    (marks hist ++ [(.evaluated, s.clock)]) rfl rfl rfl ?_ ?_ h.counts ?_ ?_
  · rw [hreserved]
    rfl
  · rw [openedAt_evaluated, reserved_drop rfl]
    exact .evaluate i hmem
  · intro e he
    rw [openedAt_evaluated]
    refine (h.ends e he).imp id fun hends => ⟨hends.1, opening_update ?_ hends.2⟩
    rw [hreserved]
    rfl
  · intro j hj hsome
    rw [openedAt_evaluated]
    exact h.fresh j (opening_of_update rfl hj) hsome

/-- The counter is deleted, or is not there. -/
theorem Limited.clear (h : Limited sub calls hist s) (keys : List Key)
    (hclears : Key.stepupFail sub ∈ keys) (hover : guessPhases sub calls (entries hist) i = .ended)
    (hunused : (counter? sub s).isSome = true → slotsTaken calls (entries hist) = 0) :
    Limited sub calls (hist ++ [(s, ⟨i, .del keys, some ()⟩)])
      { s with redis := ExpiringStore.del s.redis keys } := by
  have hgone : counter? sub { s with redis := ExpiringStore.del s.redis keys } = none :=
    ExpiringStore.visible?_of_none (ExpiringStore.del_of_mem s.redis hclears) _
  have hstep : Step windowLength MAX_FAILS (tally sub calls hist s)
      { tally sub calls hist s with window := none } := by
    cases hcounter : counter? sub s with
    | none =>
      have hclosed : (tally sub calls hist s).window = none := by
        rw [tally, hcounter, Option.map_none]
      rw [← hclosed]
      exact .idle
    | some e =>
      refine .clear (openedAt (marks hist)) ?_
      rw [tally, hcounter, Option.map_some, hunused (by rw [hcounter]; rfl)]
  refine h.of_next .ended (slotsTaken calls (entries hist)) (marks hist) rfl
    (List.append_nil _) rfl ?_ ?_ ?_ ?_ ?_
  · rw [hover]
    rfl
  · rw [hgone, Option.map_none, reserved_keep (by rw [hover])]
    exact hstep
  · intro e he
    rw [hgone] at he
    cases he
  · intro e he
    rw [hgone] at he
    cases he
  · intro j _ hsome
    rw [hgone] at hsome
    cases hsome

/-- What leaves the counter, the slots, the marks and its own phase. -/
theorem Limited.same (h : Limited sub calls hist s) (hclock : s'.clock = s.clock)
    (hcounter : counter? sub s' = counter? sub s) (hmark : c.mark r = none)
    (hslots : c.slots (calls i).guesses (slotsTaken calls (entries hist)) r =
      slotsTaken calls (entries hist))
    (hphase : (guessProtocol sub (calls i).guesses).next (guessPhases sub calls (entries hist) i) c r =
      guessPhases sub calls (entries hist) i) :
    Limited sub calls (hist ++ [(s, ⟨i, c, r⟩)]) s' := by
  refine h.of_next _ (slotsTaken calls (entries hist)) (marks hist) hclock ?_ hslots hphase
    ?_ ?_ ?_ ?_
  · rw [hmark]
    exact List.append_nil _
  · rw [hcounter, Function.update_eq_self]
    exact .idle
  · rw [hcounter]
    exact h.counts
  · rw [hcounter, Function.update_eq_self]
    exact h.ends
  · rw [hcounter, Function.update_eq_self]
    exact h.fresh

omit [DecidableEq ι] in
theorem counter?_of_redis (hclock : s'.clock = s.clock)
    (hredis : s'.redis (.stepupFail sub) = s.redis (.stepupFail sub)) :
    counter? sub s' = counter? sub s := by
  rw [counter?, hclock]
  exact ExpiringStore.visible?_congr hredis _

omit [DecidableEq ι] in
/-- Past its own counting an attempt only deletes the counter. -/
theorem perform_counter (hlate : c.afterwards sub) (hkeeps : c.clears sub = false) :
    counter? sub (FactorDb.perform out c s).2 = counter? sub s := by
  refine counter?_of_redis (FactorDb.perform_clock out c s) ?_
  cases c with
  | evalClaimStep id timeStep =>
    have hne : Key.stepupFail sub ≠ .totpStep id := fun h => by cases h
    simp only [FactorDb.perform, FactorDb.claimStep]
    split_ifs
    · exact ExpiringStore.setEx_ne s.redis timeStep (s.clock + FactorDb.milliseconds TOTP_STEP_TTL) hne
    · rfl
  | incr sub' => exact hlate.elim
  | expire k ttlSeconds => exact hlate.elim
  | confirmedSecrets sub' => exact hlate.elim
  | del keys => exact ExpiringStore.del_of_notMem _ (of_decide_eq_false hkeeps)
  | getdel k =>
    refine ExpiringStore.del_of_notMem _ fun hmem => ?_
    exact hlate (List.mem_singleton.mp hmem).symm
  | _ => rfl

omit [DecidableEq ι] in
theorem mark_afterwards (hlate : c.afterwards sub) : c.mark r = none := by
  cases c with
  | incr sub' => exact hlate.elim
  | confirmedSecrets sub' => exact hlate.elim
  | _ => rfl

omit [DecidableEq ι] in
theorem slots_afterwards (hlate : c.afterwards sub) (guesses : Bool) (taken : ℕ) :
    c.slots guesses taken r = taken := by
  cases c with
  | incr sub' => exact hlate.elim
  | _ => rfl

/-- One command of a request that keeps to its protocol. -/
theorem Limited.act (h : Limited sub calls hist s)
    (hok : (guessProtocol sub (calls i).guesses).ok (guessPhases sub calls (entries hist) i) c)
    (hmeets : (lookedUpInTime sub calls).act s (entries hist) i c) :
    Limited sub calls (hist ++ [(s, ⟨i, c, (FactorDb.perform out c s).1⟩)])
      (FactorDb.perform out c s).2 := by
  cases hphase : guessPhases sub calls (entries hist) i with
  | before =>
    rw [hphase] at hok
    cases c with
    | sessionRow sid => exact h.same rfl rfl rfl rfl (by rw [hphase]; rfl)
    | incr sub' =>
      obtain rfl : sub' = sub := hok
      cases hcounter : counter? sub' s with
      | none => exact h.open hphase hcounter
      | some e => exact h.join hphase hcounter
    | _ => cases hok
  | opening guesses =>
    rw [hphase] at hok
    cases c with
    | expire k ttlSeconds =>
      obtain ⟨rfl, rfl⟩ := hok
      exact h.expire hphase
    | _ => cases hok
  | reserved =>
    rw [hphase] at hok
    cases c with
    | confirmedSecrets sub' => exact h.lookUp sub' _ hphase
    | _ => cases hok
  | ended =>
    rw [hphase] at hok
    by_cases hclears : c.clears sub = true
    · cases c with
      | del keys => exact h.clear keys (of_decide_eq_true hclears) hphase (hmeets hclears)
      | _ => cases hclears
    · have hlate : c.afterwards sub := hok
      exact h.same (FactorDb.perform_clock out c s)
        (perform_counter hlate (eq_false_of_ne_true hclears)) (mark_afterwards hlate)
        (slots_afterwards hlate _ _) (by rw [hphase]; rfl)

section Time

variable {milliseconds : ℕ} {e : ExpiringStore.Stored ℕ}

theorem counter?_later (h : counter? sub { s with clock := s.clock + milliseconds } = some e) :
    counter? sub s = some e := by
  refine ExpiringStore.visible?_later ?_ h
  show s.clock ≤ s.clock + (milliseconds : ℤ)
  omega

/-- A counter lapses at its deadline. -/
theorem counter?_tick {deadline : ℤ} (hcounter : counter? sub s = some e)
    (hends : e.deadline = some deadline) :
    counter? sub { s with clock := s.clock + milliseconds } =
      if deadline ≤ s.clock + milliseconds then none else some e := by
  split_ifs with hover
  · cases hlate : counter? sub { s with clock := s.clock + milliseconds } with
    | none => rfl
    | some e' =>
      obtain rfl := Option.some.inj (hcounter.symm.trans (counter?_later hlate))
      have hlive : s.clock + milliseconds < deadline :=
        (ExpiringStore.visible?_eq_some_iff.mp hlate).2 deadline hends
      omega
  · refine ExpiringStore.visible?_eq_some_iff.mpr
      ⟨(ExpiringStore.visible?_eq_some_iff.mp hcounter).1, fun d hd => ?_⟩
    obtain rfl := Option.some.inj (hends.symm.trans hd)
    exact not_le.mp hover

theorem tally_tick : tally sub calls hist { s with clock := s.clock + milliseconds } =
    { tally sub calls hist s with
      clock := s.clock + milliseconds
      window := (counter? sub { s with clock := s.clock + milliseconds }).map fun _ =>
        (openedAt (marks hist), slotsTaken calls (entries hist)) } := rfl

/-- The window lapses with the counter. -/
theorem tally_step (hcounter : counter? sub s = some e)
    (hends : e.deadline = some (openedAt (marks hist) + windowLength))
    (hquiet : lapses sub s milliseconds = true →
      ∀ i, (guessPhases sub calls (entries hist) i).holdsSlot = false) :
    Step windowLength MAX_FAILS (tally sub calls hist s)
      (tally sub calls hist { s with clock := s.clock + milliseconds }) := by
  have hwindow : (tally sub calls hist s).window =
      some (openedAt (marks hist), slotsTaken calls (entries hist)) := by
    rw [tally, hcounter, Option.map_some]
  by_cases hlapses : openedAt (marks hist) + windowLength ≤ s.clock + milliseconds
  · have hnobody : (tally sub calls hist s).reserved = ∅ := by
      have hall := hquiet (by
        rw [lapses, hcounter, Option.any_some, hends, Option.any_some]
        exact decide_eq_true hlapses)
      refine Set.eq_empty_of_forall_notMem fun i hi => ?_
      have hholds : (guessPhases sub calls (entries hist) i).holdsSlot = true := hi
      rw [hall i] at hholds
      cases hholds
    rw [tally_tick, counter?_tick hcounter hends, if_pos hlapses]
    exact .lapse milliseconds _ _ hwindow hlapses hnobody
  · rw [tally_tick, counter?_tick hcounter hends, if_neg hlapses, ← hcounter]
    refine .pass milliseconds fun t u hwin => ?_
    rw [hwindow] at hwin
    cases hwin
    exact not_le.mp hlapses

/-- Time passes. -/
theorem Limited.tick (h : Limited sub calls hist s)
    (hmeets : (lookedUpInTime sub calls).drift s (entries hist) milliseconds) :
    Limited sub calls hist { s with clock := s.clock + milliseconds } := by
  obtain ⟨hopened, hquiet⟩ := hmeets
  have hnone : ∀ i, ¬ (guessPhases sub calls (entries hist) i).isOpening = true := by
    intro i hi
    rw [hopened i] at hi
    cases hi
  have hdeadline : ∀ e, counter? sub s = some e →
      e.deadline = some (openedAt (marks hist) + windowLength) := by
    intro e he
    rcases h.ends e he with hends | ⟨-, i, hi⟩
    · exact hends
    · exact absurd hi (hnone i)
  refine ⟨h.fits.step (by decide) (by decide) ?_, fun e he => h.counts e (counter?_later he),
    fun e he => .inl (hdeadline e (counter?_later he)), fun i hi _ => absurd hi (hnone i)⟩
  cases hcounter : counter? sub s with
  | none =>
    have hafter : counter? sub { s with clock := s.clock + milliseconds } = none := by
      cases hlate : counter? sub { s with clock := s.clock + milliseconds } with
      | none => rfl
      | some e =>
        rw [counter?_later hlate] at hcounter
        cases hcounter
    rw [tally_tick, hafter, ← hcounter]
    refine .pass milliseconds fun t u hwin => ?_
    rw [tally, hcounter, Option.map_none] at hwin
    cases hwin
  | some e => exact tally_step hcounter (hdeadline e hcounter) hquiet

end Time

/-- Every attempt refused so far was refused in the window opened last. -/
def RefusedInTime (sub : Uuid) (hist : List (FactorDb × Entry ι Command Command.Reply)) : Prop :=
  ∀ earlier s i n rest, hist = earlier ++ (s, ⟨i, .incr sub, some n⟩) :: rest → MAX_FAILS < n →
    ∃ t, (Mark.opened, t) ∈ marks earlier ∧ (∀ t', (Mark.opened, t') ∈ marks earlier → t' ≤ t) ∧
      s.clock < t + windowLength

theorem Limited.refused (h : Limited sub calls hist s) (hrefused : RefusedInTime sub hist) :
    RefusedInTime sub (hist ++ [(s, ⟨i, c, (FactorDb.perform out c s).1⟩)]) := by
  intro earlier s₀ j n rest heq hcap
  rcases split_append heq with ⟨rest', hrest, -⟩ | ⟨rfl, hlast, -⟩
  · exact hrefused earlier s₀ j n rest' hrest hcap
  · obtain ⟨rfl, hentry⟩ := Prod.mk.inj hlast
    cases c with
    | incr sub' =>
      simp only [Entry.mk.injEq, Command.incr.injEq] at hentry
      obtain ⟨-, rfl, hreply⟩ := hentry
      have hcount : (s.incr sub').1 = n := Option.some.inj (eq_of_heq hreply)
      cases hcounter : counter? sub' s with
      | none =>
        rw [(incr_of_none hcounter).1] at hcount
        have hfirst : ¬ MAX_FAILS < 1 := by decide
        exact absurd (hcount ▸ hcap) hfirst
      | some e =>
        have hwindow : (tally sub' calls hist s).window =
            some (openedAt (marks hist), slotsTaken calls (entries hist)) := by
          rw [tally, hcounter, Option.map_some]
        obtain ⟨hmem, hlatest⟩ := h.fits.latest _ _ hwindow
        exact ⟨_, hmem, hlatest, (h.fits.lasting _ _ hwindow).1⟩
    | _ => simp at hentry

/-- In every run whose steps meet the condition: no period of 120 seconds that
begins with the first attempt of a window sees more than five look-ups of codes; a
counter without a deadline is one whose EXPIRE is some request's next command; and
an attempt is refused only within 120 seconds of the first attempt of the window
opened last. -/
theorem stepup_guessing (P : Primitives) (sub : Uuid) (calls : ι → VerifyBody)
    {start cfg : Config ι Command Command.Reply FactorDb VerifyAnswer}
    {trace : List (Event (Config ι Command Command.Reply FactorDb VerifyAnswer) (Move ι Outside ℕ))}
    (hstart : (verifyRuns P sub calls).initial start)
    (hrun : Exec (verifyRuns P sub calls) start trace cfg)
    (hmeets : ∀ e ∈ trace, (lookedUpInTime sub calls).Meets e.before e.label) :
    (∀ first t later, marks (recorded trace) = first ++ (.opened, t) :: later →
        later.countP (within windowLength t) ≤ MAX_FAILS) ∧
      (∀ e, cfg.store.redis (.stepupFail sub) = some e → e.deadline = none →
        ∃ i k, cfg.requests i = .call (.expire (.stepupFail sub) FAIL_WINDOW) k) ∧
      RefusedInTime sub (recorded trace) := by
  obtain ⟨hempty, hlog, hprograms⟩ := hstart
  have hnone : counter? sub start.store = none := ExpiringStore.visible?_of_none hempty _
  have hbegin : Limited sub calls [] start.store := by
    refine ⟨?_, ?_, ?_, fun i hi => by cases hi⟩
    · have htally : tally sub calls [] start.store = ⟨start.store.clock, none, [], ∅⟩ := by
        rw [tally, hnone, Option.map_none]
        have hnobody : {i | (guessPhases sub calls [] i).holdsSlot = true} = ∅ :=
          Set.eq_empty_of_forall_notMem fun i hi => by cases hi
        exact congrArg (Tally.mk start.store.clock none []) hnobody
      rw [htally]
      exact Inv.initial
    · intro e he
      rw [hnone] at he
      cases he
    · intro e he
      rw [hnone] at he
      cases he
  obtain ⟨⟨⟨hlimited, hrefused⟩, hentries⟩, hobeys⟩ := Server.run_recorded
    (P := fun i => guessProtocol sub (calls i).guesses)
    (J := fun hist s => Limited sub calls hist s ∧ RefusedInTime sub hist)
    (fun hist s i c w h hok hmeets => ⟨h.1.act hok hmeets, h.1.refused h.2⟩)
    (fun hist s s' e h hmeets hdrift => by
      cases hdrift
      exact ⟨h.1.tick hmeets, h.2⟩)
    hrun hmeets hlog
    (fun i => by
      rw [hprograms]
      exact stepupVerify_obeys (calls i))
    ⟨hbegin, fun earlier s i n rest heq => by simp at heq⟩
  refine ⟨fun first t later heq => hlimited.fits.bounded first t later heq, ?_, hrefused⟩
  intro e he hdeadline
  have hcounter : counter? sub cfg.store = some e := ExpiringStore.visible?_eq_some_iff.mpr
    ⟨he, fun d hd => by rw [hdeadline] at hd; cases hd⟩
  rcases hlimited.ends e hcounter with hends | ⟨-, i, hi⟩
  · rw [hdeadline] at hends
    cases hends
  · rw [← hentries] at hi
    exact ⟨i, opening_program (hobeys i) hi⟩

end Runs

section Interleaved

instance {ι : Type} [DecidableEq ι] (sub : Uuid) (calls : ι → VerifyBody) (s : FactorDb)
    (log : List (Entry ι Command Command.Reply)) (i : ι) (c : Command) :
    Decidable ((lookedUpInTime sub calls).act s log i c) :=
  inferInstanceAs (Decidable (_ = true → _ = true → _ = 0))

instance {ι : Type} [DecidableEq ι] [Fintype ι] (sub : Uuid) (calls : ι → VerifyBody) (s : FactorDb)
    (log : List (Entry ι Command Command.Reply)) (e : ℕ) :
    Decidable ((lookedUpInTime sub calls).drift s log e) :=
  inferInstanceAs (Decidable ((∀ _, _ = false) ∧ (_ = true → ∀ _, _ = false)))

/-- No code is valid. -/
def neverValid : Primitives where
  openSecret := some
  verifySync _ _ _ := some none

/-- A user with a password, one session and a confirmed authenticator. -/
def oneSession : FactorDb where
  clock := 0
  redis := fun _ => none
  db := { Db.empty with
    identities := Table.upsert ∅ (Uuid.numbered 1)
      ⟨js "ann", js "Ann", none, false, some (js "hash"), none, .active, none⟩ }
  sessions := Table.upsert ∅ (Uuid.numbered 2)
    ⟨Uuid.numbered 1, [], [], none, 0, 0, 0, false, none, none, []⟩
  totpCredentials := Table.upsert ∅ (Uuid.numbered 3)
    ⟨Uuid.numbered 1, js "secret", none, some 0, 0, none⟩
  webauthnCredentials := ∅

def attempt (method code : String) : VerifyBody :=
  ⟨(Uuid.numbered 2).text, some (js method), js code, none, []⟩

/-- The password matches. -/
def rightPassword : Outside := ⟨fun
  | .passwordMatches _ _ => some true
  | _ => none⟩

def attemptsStart {n : ℕ} (calls : Fin n → VerifyBody) :
    Config (Fin n) Command Command.Reply FactorDb VerifyAnswer :=
  ⟨oneSession, [], fun i => stepupVerify neverValid (Uuid.numbered 1) (calls i)⟩

/-- Some commands of one request. -/
def commandsOf {n : ℕ} (i : Fin n) (count : ℕ) : List (Move (Fin n) Outside ℕ) :=
  List.replicate count (.act i rightPassword)

def wrongCodes (_ : Fin 3) : VerifyBody := attempt "totp" "000000"

/-- Two wrong codes in one window and, once it has lapsed, a third. -/
def inTwoWindows : List (Move (Fin 3) Outside ℕ) :=
  commandsOf 0 5 ++ commandsOf 1 4 ++ [.drift 130000] ++ commandsOf 2 5

theorem stepup_guessing_inTwoWindows :
    ∃ start trace cfg, (verifyRuns neverValid (Uuid.numbered 1) wrongCodes).initial start ∧
      Exec (verifyRuns neverValid (Uuid.numbered 1) wrongCodes) start trace cfg ∧
      cfg.requests 2 =
        .done (.answered (.failed ⟨403, "verification_failed", some "invalid_code"⟩)) ∧
      ∀ first t later, marks (recorded trace) = first ++ (.opened, t) :: later →
        later.countP (within windowLength t) ≤ MAX_FAILS := by
  have hrun : ((inTwoWindows.foldlM (factorServer.stepMeeting
      (lookedUpInTime (Uuid.numbered 1) wrongCodes)) (attemptsStart wrongCodes)).any fun cfg =>
        decide ((cfg.requests 2).result? = some
          (.answered (.failed ⟨403, "verification_failed", some "invalid_code"⟩)))) = true := by
    decide +kernel
  obtain ⟨cfg, hcfg, hdone⟩ := (Option.any_eq_true ..).mp hrun
  obtain ⟨trace, hexec, hmeets⟩ := Server.exec_of_moves_meeting hcfg
    (fun s => s.redis (.stepupFail (Uuid.numbered 1)) = none)
    fun i => stepupVerify neverValid (Uuid.numbered 1) (wrongCodes i)
  have hinitial : (verifyRuns neverValid (Uuid.numbered 1) wrongCodes).initial
      (attemptsStart wrongCodes) := ⟨rfl, rfl, rfl⟩
  exact ⟨attemptsStart wrongCodes, trace, cfg, hinitial, hexec, Prog.eq_done (of_decide_eq_true hdone),
    (stepup_guessing neverValid (Uuid.numbered 1) wrongCodes hinitial hexec hmeets).1⟩

def malformedCodes (_ : Fin 6) : VerifyBody := attempt "totp" "000"

/-- The first attempt crashes after its INCR; five more follow much later. -/
def crashedBetween : List (Move (Fin 6) Outside ℕ) :=
  commandsOf 0 2 ++ [.drift 500000] ++ commandsOf 1 2 ++ commandsOf 2 2 ++ commandsOf 3 2 ++
    commandsOf 4 2 ++ commandsOf 5 3

/-- Three wrong codes before and three after a right password. -/
def passwordBetween (i : Fin 7) : VerifyBody :=
  if i = 3 then attempt "password" "" else attempt "totp" "000000"

def clearedBetween : List (Move (Fin 7) Outside ℕ) :=
  commandsOf 0 5 ++ commandsOf 1 4 ++ commandsOf 2 4 ++ commandsOf 3 6 ++ commandsOf 4 5 ++
    commandsOf 5 4 ++ commandsOf 6 4

/-- A crash between INCR and EXPIRE leaves a counter without a deadline, and a user
is refused long after the first attempt. A right password clears the counter, and
six codes are looked up in one period. No code is ever valid. -/
theorem counter_outlives_its_window :
    (∃ start trace cfg, (verifyRuns neverValid (Uuid.numbered 1) malformedCodes).initial start ∧
      Exec (verifyRuns neverValid (Uuid.numbered 1) malformedCodes) start trace cfg ∧
      marks (recorded trace) = [(.opened, 0)] ∧ cfg.store.clock = 500000 ∧
      cfg.requests 5 = .done (.tooMany FAIL_WINDOW) ∧
      (cfg.store.redis (.stepupFail (Uuid.numbered 1))).map ExpiringStore.Stored.deadline =
        some none) ∧
    ∃ start trace cfg first t later,
      (verifyRuns neverValid (Uuid.numbered 1) passwordBetween).initial start ∧
      Exec (verifyRuns neverValid (Uuid.numbered 1) passwordBetween) start trace cfg ∧
      marks (recorded trace) = first ++ (.opened, t) :: later ∧
      later.countP (within windowLength t) = MAX_FAILS + 1 := by
  constructor
  · have hrun : ((crashedBetween.foldlM factorServer.stepRecorded
        (attemptsStart malformedCodes, [])).any fun so => decide (marks so.2 = [(.opened, 0)] ∧
          so.1.store.clock = 500000 ∧
          (so.1.requests 5).result? = some (.tooMany FAIL_WINDOW) ∧
          (so.1.store.redis (.stepupFail (Uuid.numbered 1))).map ExpiringStore.Stored.deadline =
            some none)) = true := by
      decide +kernel
    obtain ⟨⟨cfg, hist⟩, hcfg, hfacts⟩ := (Option.any_eq_true ..).mp hrun
    obtain ⟨hmarks, hclock, hdone, hdeadline⟩ := of_decide_eq_true hfacts
    obtain ⟨trace, hexec, rfl⟩ := Server.exec_of_moves_recorded hcfg
      (fun s => s.redis (.stepupFail (Uuid.numbered 1)) = none)
      fun i => stepupVerify neverValid (Uuid.numbered 1) (malformedCodes i)
    exact ⟨attemptsStart malformedCodes, trace, cfg, ⟨rfl, rfl, rfl⟩, hexec, hmarks, hclock,
      Prog.eq_done hdone, hdeadline⟩
  · have hrun : ((clearedBetween.foldlM factorServer.stepRecorded
        (attemptsStart passwordBetween, [])).any fun so => decide (marks so.2 =
          [(.opened, 0), (.evaluated, 0), (.evaluated, 0), (.evaluated, 0), (.opened, 0),
            (.evaluated, 0), (.evaluated, 0), (.evaluated, 0)])) = true := by
      decide +kernel
    obtain ⟨⟨cfg, hist⟩, hcfg, hmarks⟩ := (Option.any_eq_true ..).mp hrun
    obtain ⟨trace, hexec, rfl⟩ := Server.exec_of_moves_recorded hcfg
      (fun s => s.redis (.stepupFail (Uuid.numbered 1)) = none)
      fun i => stepupVerify neverValid (Uuid.numbered 1) (passwordBetween i)
    exact ⟨attemptsStart passwordBetween, trace, cfg, [], 0, _, ⟨rfl, rfl, rfl⟩, hexec,
      of_decide_eq_true hmarks, by decide⟩

end Interleaved

end DreamSso.Factors
