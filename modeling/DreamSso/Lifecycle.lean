import DreamSso.Library.Transitions
import Mathlib.Data.Int.Notation
import Mathlib.Tactic.Common

/-!
The lifecycle of a service: one startup, one HTTP listener, periodic tasks, and one
shutdown bounded by a deadline. A label is a call, a callback or a step of the cleanup
sequence; while a hook runs only calls can happen, all else waits for it to return.
-/
namespace DreamSso.Lifecycle

open Transitions

/-- `closed` once the callback of `close` has run. -/
inductive Server
  | none
  | listening
  | closing
  | closed
  deriving DecidableEq

/-- `threw` until the rejection is caught. A startup is `late` when the cleanup sequence
had looked for one before. -/
inductive Startup
  | none
  | queued (late : Bool)
  | running
  | threw
  | settled (failed : Bool)
  deriving DecidableEq

inductive Deadline
  | unset
  | armed
  | fired
  | cleared
  deriving DecidableEq

/-- Where the cleanup sequence is: it awaits the listener and the startup, the tasks and
the drain, or the close. `failing` is its catch block. -/
inductive Cleanup
  | unbegun
  | waiting
  | draining (settled drained : Bool)
  | closing
  | failing
  | done
  deriving DecidableEq

/-- A hook that is running. `force` is called at the deadline and in the catch block. -/
inductive Hook
  | quiesce
  | force (deadline : Bool)
  deriving DecidableEq

/-- `exits` are the codes `options.exit` was called with, `closes` counts the calls of
`options.close`. -/
structure State where
  stopping : Bool
  code : ℤ
  server : Server
  startup : Startup
  shutdown : Bool
  active : ℕ
  timers : ℕ
  cleanup : Cleanup
  deadline : Deadline
  ended : Bool
  hook : Option Hook
  exits : List ℤ
  closes : ℕ
  deriving DecidableEq

def State.initial : State :=
  ⟨false, 0, .none, .none, false, 0, 0, .unbegun, .unset, false, none, [], 0⟩

inductive Label
  | boot
  | listen (opened : Bool)
  | every
  | stop (code : ℤ)
  | httpError
  | timer
  | taskEnds
  | start
  | startupEnds (failed : Bool)
  | startupCaught
  | hookEnds (throws : Bool)
  | finish
  | httpClosed (failed : Bool)
  | httpAndStartup (drainThrows : Bool)
  | tasksSettled
  | drainEnds (failed : Bool)
  | callClose (throws : Bool)
  | closeEnds (failed : Bool)
  | deadline
  deriving DecidableEq

def State.boot (s : State) : State :=
  if s.startup = .none then { s with startup := .queued (decide (s.cleanup ≠ .unbegun)) } else s

def State.listen (s : State) (opened : Bool) : State :=
  if s.stopping then s
  else if s.server ≠ .none then s
  else if opened then { s with server := .listening } else s

/-- A periodic run, at once and at each interval. -/
def State.run (s : State) : State :=
  if s.stopping then s else { s with active := s.active + 1 }

def State.every (s : State) : State :=
  if s.stopping then s else { s.run with timers := s.timers + 1 }

/-- The part before `quiesce` has returned. -/
def State.stop (s : State) (code : ℤ) : State :=
  if s.shutdown then { s with code := max s.code code }
  else { s with
    code := max s.code code
    stopping := true
    shutdown := true
    timers := 0
    hook := some .quiesce }

def State.exit (s : State) (code : ℤ) : State :=
  if s.ended then s else { s with ended := true, exits := s.exits ++ [code] }

/-- The last lines of the cleanup sequence. -/
def State.leave (s : State) : State :=
  if s.ended then { s with cleanup := .done }
  else { s with cleanup := .done, deadline := .cleared }.exit s.code

/-- The catch block up to `force`. -/
def State.fails (s : State) : State :=
  { s with code := 1, cleanup := .failing, hook := some (.force false) }

def State.hookEnds (s : State) (throws : Bool) : Hook → State
  | .quiesce => if throws then { s with code := 1, hook := none } else { s with hook := none }
  | .force false => { s with hook := none }.leave
  | .force true => { s with hook := none }.exit 1

def State.finish (s : State) : State :=
  { s with
    deadline := .armed
    server := if s.server = .listening then .closing else s.server
    cleanup := .waiting }

/-- What `Promise.allSettled` waits for: the listener and the startup that was there when
the cleanup sequence began. -/
def State.httpAndStartupSettled (s : State) : Bool :=
  decide (s.server = .none ∨ s.server = .closed) &&
    match s.startup with
    | .none | .queued true | .settled _ => true
    | _ => false

def State.httpAndStartup (s : State) (drainThrows : Bool) : State :=
  if s.ended then { s with cleanup := .done }
  else if drainThrows then s.fails
  else { s with cleanup := .draining false false }

def State.callClose (s : State) (throws : Bool) : State :=
  if s.ended then { s with cleanup := .done }
  else if throws then { s with closes := s.closes + 1 }.fails
  else { s with closes := s.closes + 1, cleanup := .closing }

/-- The labels that wait for a running hook. -/
def State.callback (s : State) : Label → Option State
  | .timer => if 0 < s.timers then some s.run else none
  | .taskEnds => if 0 < s.active then some { s with active := s.active - 1 } else none
  | .start =>
    match s.startup with
    | .queued _ =>
        some { s with startup := if s.stopping then .settled false else .running }
    | _ => none
  | .startupEnds failed =>
      if s.startup = .running then
        some { s with startup := if failed then .threw else .settled false }
      else none
  | .startupCaught =>
      if s.startup = .threw then some { s with startup := .settled true, code := 1 } else none
  | .finish => if s.shutdown && decide (s.cleanup = .unbegun) then some s.finish else none
  | .httpClosed failed =>
      if s.server = .closing then
        some (if failed then { s with server := .closed, code := 1 }
          else { s with server := .closed })
      else none
  | .httpAndStartup drainThrows =>
      if decide (s.cleanup = .waiting) && s.httpAndStartupSettled then
        some (s.httpAndStartup drainThrows)
      else none
  | .tasksSettled =>
    match s.cleanup with
    | .draining false drained =>
        if s.active = 0 then some { s with cleanup := .draining true drained } else none
    | _ => none
  | .drainEnds failed =>
    match s.cleanup with
    | .draining settled false =>
        some (if failed then s.fails else { s with cleanup := .draining settled true })
    | _ => none
  | .callClose throws =>
      if s.cleanup = .draining true true then some (s.callClose throws) else none
  | .closeEnds failed =>
      if s.cleanup = .closing then some (if failed then s.fails else s.leave) else none
  | .deadline =>
      if s.deadline = .armed then some { s with deadline := .fired, hook := some (.force true) }
      else none
  | _ => none

def State.step (s : State) : Label → Option State
  | .boot => some s.boot
  | .listen opened => some (s.listen opened)
  | .every => some s.every
  | .stop code => some (s.stop code)
  | .httpError => if s.server = .none then none else some (s.stop 1)
  | .hookEnds throws => s.hook.map fun hook => s.hookEnds throws hook
  | l => if s.hook = none then s.callback l else none

def lifecycle : System State Label where
  initial s := s = .initial
  step s l s' := s.step l = some s'

/-- What the cleanup sequence still waits for is as it was when the sequence began. -/
def Startup.Over : Startup → Prop
  | .none | .queued true | .settled _ => True
  | _ => False

/-- Everything before the close has settled. -/
def State.Quiet (s : State) : Prop :=
  (s.server = .none ∨ s.server = .closed) ∧ s.startup.Over

structure Sound (s : State) : Prop where
  stopping : s.stopping = s.shutdown
  unbegun : s.cleanup = .unbegun → s.deadline = .unset ∧ s.ended = false ∧ s.closes = 0 ∧
    (s.server = .none ∨ s.server = .listening) ∧ s.startup ≠ .queued true ∧
    (s.hook = none ∨ s.hook = some .quiesce)
  begun : s.cleanup ≠ .unbegun → s.stopping = true ∧ s.server ≠ .listening ∧
    s.hook ≠ some .quiesce ∧ (s.ended = false → s.deadline = .armed ∨
      s.deadline = .fired ∧ s.hook = some (.force true))
  running : s.hook = some .quiesce → s.stopping = true
  waited : s.cleanup ≠ .unbegun → s.cleanup ≠ .waiting → s.Quiet
  settled : ∀ drained, s.cleanup = .draining true drained → s.active = 0
  closing : s.cleanup = .closing → s.active = 0
  failing : s.cleanup = .failing ↔ s.hook = some (.force false)
  done : s.cleanup = .done → s.ended = true
  deadline : s.deadline = .fired → s.ended = true ∨ s.hook = some (.force true)
  atDeadline : s.hook = some (.force true) → s.deadline = .fired
  unexited : s.ended = false → s.exits = []
  exited : s.ended = true → s.exits.length = 1
  closes : s.closes ≤ 1
  unclosed : s.closes ≠ 0 → s.cleanup = .closing ∨ s.cleanup = .failing ∨ s.cleanup = .done
  code : 0 ≤ s.code
  positive : s.startup = .settled true ∨ s.cleanup = .failing → 0 < s.code

theorem Sound.initial : Sound .initial := by
  constructor <;> simp [State.initial, State.Quiet]

theorem Sound.boot {s : State} (h : Sound s) : Sound s.boot := by
  unfold State.boot
  by_cases hnone : s.startup = .none
  · rw [if_pos hnone]
    exact { h with
      unbegun := fun hunbegun => by
        obtain ⟨hunset, hended, hcloses, hserver, -, hhook⟩ := h.unbegun hunbegun
        exact ⟨hunset, hended, hcloses, hserver, by simpa using hunbegun, hhook⟩
      waited := fun hbegun hwaiting => by
        refine ⟨(h.waited hbegun hwaiting).1, ?_⟩
        simp [Startup.Over, hbegun]
      positive := fun hbad => h.positive (.inr (by simpa using hbad)) }
  · rw [if_neg hnone]
    exact h

theorem Sound.listen {s : State} (h : Sound s) (opened : Bool) : Sound (s.listen opened) := by
  unfold State.listen
  by_cases hstopping : s.stopping = true
  · rw [if_pos hstopping]
    exact h
  · have hunbegun : s.cleanup = .unbegun := by
      by_contra hbegun
      exact hstopping (h.begun hbegun).1
    rw [if_neg hstopping]
    split_ifs
    · exact h
    · obtain ⟨hunset, hended, hcloses, -, hstartup, hhook⟩ := h.unbegun hunbegun
      exact { h with
        unbegun := fun _ => ⟨hunset, hended, hcloses, .inr rfl, hstartup, hhook⟩
        begun := fun hbegun => absurd hunbegun hbegun
        waited := fun hbegun _ => absurd hunbegun hbegun }
    · exact h

theorem Sound.run {s : State} (h : Sound s) : Sound s.run := by
  unfold State.run
  by_cases hstopping : s.stopping = true
  · rw [if_pos hstopping]
    exact h
  · have hunbegun : s.cleanup = .unbegun := by
      by_contra hbegun
      exact hstopping (h.begun hbegun).1
    rw [if_neg hstopping]
    exact { h with
      settled := fun _ hdraining => by simp [hunbegun] at hdraining
      closing := fun hclosing => by simp [hunbegun] at hclosing }

theorem Sound.every {s : State} (h : Sound s) : Sound s.every := by
  unfold State.every
  split_ifs
  · exact h
  · exact { h.run with }

/-- A larger code keeps the invariant. -/
theorem Sound.raised {s : State} (h : Sound s) (code : ℤ) (hcode : 0 ≤ code)
    (hpositive : s.startup = .settled true ∨ s.cleanup = .failing → 0 < code) :
    Sound { s with code := code } :=
  { h with code := hcode, positive := hpositive }

theorem Sound.stop {s : State} (h : Sound s) (given : ℤ) : Sound (s.stop given) := by
  have hgiven : s.code ≤ max s.code given := Int.le_max_left ..
  have hraised : Sound { s with code := max s.code given } :=
    h.raised _ (Int.le_trans h.code hgiven) fun hbad =>
      Int.lt_of_lt_of_le (h.positive hbad) hgiven
  unfold State.stop
  by_cases hshutdown : s.shutdown = true
  · rw [if_pos hshutdown]
    exact hraised
  · rw [if_neg hshutdown]
    have hunbegun : s.cleanup = .unbegun := by
      by_contra hbegun
      exact hshutdown (h.stopping ▸ (h.begun hbegun).1)
    obtain ⟨hunset, hended, hcloses, hserver, hstartup, -⟩ := h.unbegun hunbegun
    exact { hraised with
      stopping := rfl
      unbegun := fun _ => ⟨hunset, hended, hcloses, hserver, hstartup, .inr rfl⟩
      begun := fun hbegun => absurd hunbegun hbegun
      running := fun _ => rfl
      failing := by simp [hunbegun]
      deadline := fun hfired => by simp [hunset] at hfired
      atDeadline := fun hforce => by simp at hforce }

/-- The catch block is entered from a step of the sequence that waits for no hook. -/
theorem Sound.fails {s : State} (h : Sound s) (hquiet : s.Quiet) (hhook : s.hook = none)
    (hbegun : s.cleanup ≠ .unbegun) : Sound s.fails := by
  obtain ⟨hstopping, hserver, -, harmed⟩ := h.begun hbegun
  have hfired : s.ended = false → s.deadline = .armed := fun hended =>
    (harmed hended).resolve_right (by simp [hhook])
  exact { h with
    unbegun := fun hunbegun => by simp [State.fails] at hunbegun
    begun := fun _ => ⟨hstopping, hserver, by simp [State.fails], fun hended => .inl (hfired hended)⟩
    running := fun hrunning => by simp [State.fails] at hrunning
    waited := fun _ _ => hquiet
    settled := fun _ hdraining => by simp [State.fails] at hdraining
    closing := fun hclosing => by simp [State.fails] at hclosing
    failing := by simp [State.fails]
    done := fun hdone => by simp [State.fails] at hdone
    deadline := fun hdeadline => (h.deadline hdeadline).imp_right (by simp [hhook])
    atDeadline := fun hforce => by simp [State.fails] at hforce
    unclosed := fun _ => .inr (.inl rfl)
    code := by simp [State.fails]
    positive := fun _ => by simp [State.fails] }

theorem Sound.begun_of_force {s : State} (h : Sound s) {deadline : Bool}
    (hhook : s.hook = some (.force deadline)) : s.cleanup ≠ .unbegun := by
  intro hunbegun
  rcases (h.unbegun hunbegun).2.2.2.2.2 with hnone | hquiesce
  · simp [hhook] at hnone
  · simp [hhook] at hquiesce

/-- `quiesce` runs before the cleanup sequence begins. -/
theorem Sound.unbegun_of_quiesce {s : State} (h : Sound s) (hhook : s.hook = some .quiesce) :
    s.cleanup = .unbegun := by
  by_contra hbegun
  exact (h.begun hbegun).2.2.1 hhook

theorem Sound.quiesceEnds {s : State} (h : Sound s) (hhook : s.hook = some .quiesce) :
    Sound { s with hook := none } := by
  have hunbegun := h.unbegun_of_quiesce hhook
  obtain ⟨hunset, hended, hcloses, hserver, hstartup, -⟩ := h.unbegun hunbegun
  exact {
    stopping := h.stopping
    unbegun := fun _ => ⟨hunset, hended, hcloses, hserver, hstartup, .inl rfl⟩
    begun := fun hbegun => absurd hunbegun hbegun
    running := fun hrunning => by simp at hrunning
    waited := h.waited
    settled := h.settled
    closing := h.closing
    failing := by simp [hunbegun]
    done := h.done
    deadline := fun hfired => by simp [hunset] at hfired
    atDeadline := fun hforce => by simp at hforce
    unexited := h.unexited
    exited := h.exited
    closes := h.closes
    unclosed := h.unclosed
    code := h.code
    positive := h.positive }

/-- The exit at the deadline leaves the cleanup sequence where it is. -/
theorem Sound.deadlineEnds {s : State} (h : Sound s) (hhook : s.hook = some (.force true)) :
    Sound ({ s with hook := none }.exit 1) := by
  have hbegun := h.begun_of_force hhook
  obtain ⟨hstopping, hserver, -, -⟩ := h.begun hbegun
  have hfailing : s.cleanup ≠ .failing := by
    rw [Ne, h.failing, hhook]
    simp
  unfold State.exit
  by_cases hended : s.ended = true
  · rw [if_pos (by exact hended)]
    exact { h with
      unbegun := fun hunbegun => absurd hunbegun hbegun
      begun := fun _ => ⟨hstopping, hserver, by simp, by simp [hended]⟩
      running := fun _ => hstopping
      failing := by simp [hfailing]
      deadline := fun _ => .inl hended
      atDeadline := fun hforce => by simp at hforce }
  · rw [if_neg (by exact hended)]
    have hexits := h.unexited (by simpa using hended)
    exact { h with
      unbegun := fun hunbegun => absurd hunbegun hbegun
      begun := fun _ => ⟨hstopping, hserver, by simp, by simp⟩
      running := fun _ => hstopping
      failing := by simp [hfailing]
      done := fun _ => rfl
      deadline := fun _ => .inl rfl
      atDeadline := fun hforce => by simp at hforce
      unexited := by simp
      exited := fun _ => by simp [hexits] }

/-- The last lines run in a sequence that has begun and whose hooks have returned. -/
theorem Sound.leave {s : State} (h : Sound s) (hbegun : s.cleanup ≠ .unbegun)
    (hwaiting : s.cleanup ≠ .waiting) : Sound { s with hook := none }.leave := by
  obtain ⟨hstopping, hserver, -, -⟩ := h.begun hbegun
  have hquiet := h.waited hbegun hwaiting
  unfold State.leave State.exit
  by_cases hended : s.ended = true
  · rw [if_pos (by exact hended)]
    exact { h with
      unbegun := fun hunbegun => by simp at hunbegun
      begun := fun _ => ⟨hstopping, hserver, by simp, by simp [hended]⟩
      running := fun _ => hstopping
      waited := fun _ _ => hquiet
      settled := fun _ hdraining => by simp at hdraining
      closing := fun hclosing => by simp at hclosing
      failing := by simp
      done := fun _ => hended
      deadline := fun _ => .inl hended
      atDeadline := fun hforce => by simp at hforce
      unclosed := fun _ => .inr (.inr rfl)
      positive := fun hbad => h.positive (.inl (by simpa using hbad)) }
  · rw [if_neg (by exact hended), if_neg (by exact hended)]
    have hexits := h.unexited (by simpa using hended)
    exact { h with
      unbegun := fun hunbegun => by simp at hunbegun
      begun := fun _ => ⟨hstopping, hserver, by simp, by simp⟩
      running := fun _ => hstopping
      waited := fun _ _ => hquiet
      settled := fun _ hdraining => by simp at hdraining
      closing := fun hclosing => by simp at hclosing
      failing := by simp
      done := fun _ => rfl
      deadline := fun hfired => by simp at hfired
      atDeadline := fun hforce => by simp at hforce
      unexited := by simp
      exited := fun _ => by simp [hexits]
      unclosed := fun _ => .inr (.inr rfl)
      positive := fun hbad => h.positive (.inl (by simpa using hbad)) }

theorem Sound.hookEnds {s : State} (h : Sound s) {hook : Hook} (hhook : s.hook = some hook)
    (throws : Bool) : Sound (s.hookEnds throws hook) := by
  cases hook with
  | quiesce =>
    cases throws with
    | false => exact h.quiesceEnds hhook
    | true => exact (h.quiesceEnds hhook).raised 1 (by omega) fun _ => by omega
  | force deadline =>
    cases deadline with
    | false =>
      have hfailing := h.failing.mpr hhook
      exact h.leave (by simp [hfailing]) (by simp [hfailing])
    | true => exact h.deadlineEnds hhook

theorem Sound.finish {s : State} (h : Sound s) (hshutdown : s.shutdown = true)
    (hunbegun : s.cleanup = .unbegun) (hhook : s.hook = none) : Sound s.finish := by
  obtain ⟨-, hended, hcloses, -, -, -⟩ := h.unbegun hunbegun
  exact { h with
    unbegun := fun hwaiting => by simp [State.finish] at hwaiting
    begun := fun _ => by
      refine ⟨h.stopping.trans hshutdown, ?_, by simp [State.finish, hhook], fun _ => .inl rfl⟩
      unfold State.finish
      split_ifs with hlistening
      · simp
      · exact hlistening
    waited := fun _ hwaiting => absurd rfl hwaiting
    settled := fun _ hdraining => by simp [State.finish] at hdraining
    closing := fun hclosing => by simp [State.finish] at hclosing
    failing := by simp [State.finish, hhook]
    done := fun hdone => by simp [State.finish] at hdone
    deadline := fun hfired => by simp [State.finish] at hfired
    atDeadline := fun hforce => by simp [State.finish, hhook] at hforce
    unclosed := fun hclosed => absurd hcloses hclosed
    positive := fun hbad => h.positive (.inl (by simpa [State.finish] using hbad)) }

theorem State.quiet_of_settled {s : State} (h : s.httpAndStartupSettled = true) : s.Quiet := by
  unfold State.httpAndStartupSettled at h
  simp only [Bool.and_eq_true, decide_eq_true_eq] at h
  refine ⟨h.1, ?_⟩
  cases hstartup : s.startup <;> simp_all [Startup.Over]
  rename_i late
  cases late <;> simp_all

/-- The sequence goes on: it awaits something else, or is over after an exit. -/
theorem Sound.proceeds {s : State} (h : Sound s) (hbegun : s.cleanup ≠ .unbegun)
    (hhook : s.hook = none) (hquiet : s.Quiet) {next : Cleanup}
    (hnext : next ≠ .unbegun ∧ next ≠ .waiting ∧ next ≠ .failing)
    (hactive : ((∃ drained, next = .draining true drained) ∨ next = .closing) → s.active = 0)
    (hdone : next = .done → s.ended = true)
    (hunclosed : s.closes ≠ 0 → next = .closing ∨ next = .failing ∨ next = .done) :
    Sound { s with cleanup := next } :=
  { h with
    unbegun := fun hunbegun => absurd hunbegun hnext.1
    begun := fun _ => h.begun hbegun
    waited := fun _ _ => hquiet
    settled := fun drained hdraining => hactive (.inl ⟨drained, hdraining⟩)
    closing := fun hclosing => hactive (.inr hclosing)
    failing := by simp [hnext.2.2, hhook]
    done := hdone
    unclosed := hunclosed
    positive := fun hbad => h.positive (hbad.imp_right fun hfailing => absurd hfailing hnext.2.2) }

theorem Sound.httpAndStartup {s : State} (h : Sound s) (hwaiting : s.cleanup = .waiting)
    (hquiet : s.Quiet) (hhook : s.hook = none) (drainThrows : Bool) :
    Sound (s.httpAndStartup drainThrows) := by
  have hbegun : s.cleanup ≠ .unbegun := by simp [hwaiting]
  have hunclosed : s.closes = 0 := by
    by_contra hclosed
    rcases h.unclosed hclosed with hbad | hbad | hbad <;> simp [hwaiting] at hbad
  unfold State.httpAndStartup
  split_ifs with hended
  · exact h.proceeds hbegun hhook hquiet (by simp) (by simp) (fun _ => hended)
      (fun hclosed => absurd hunclosed hclosed)
  · exact h.fails hquiet hhook hbegun
  · exact h.proceeds hbegun hhook hquiet (by simp) (by simp) (by simp)
      (fun hclosed => absurd hunclosed hclosed)

theorem Sound.callClose {s : State} (h : Sound s) (hdrained : s.cleanup = .draining true true)
    (hhook : s.hook = none) (throws : Bool) : Sound (s.callClose throws) := by
  have hbegun : s.cleanup ≠ .unbegun := by simp [hdrained]
  have hquiet := h.waited hbegun (by simp [hdrained])
  have hunclosed : s.closes = 0 := by
    by_contra hclosed
    rcases h.unclosed hclosed with hbad | hbad | hbad <;> simp [hdrained] at hbad
  have hactive := h.settled true hdrained
  -- the sequence stands at the close with the call counted
  have hproceeds : Sound { s with cleanup := .closing } :=
    h.proceeds hbegun hhook hquiet (by simp) (fun _ => hactive) (by simp) fun _ => .inl rfl
  have hcalled : Sound { s with closes := s.closes + 1, cleanup := .closing } :=
    { hproceeds with
      closes := by simp [hunclosed]
      unbegun := fun hunbegun => by simp at hunbegun
      unclosed := fun _ => .inl rfl }
  unfold State.callClose
  split_ifs with hended
  · exact h.proceeds hbegun hhook hquiet (by simp) (by simp) (fun _ => hended)
      (fun hclosed => absurd hunclosed hclosed)
  · exact hcalled.fails hquiet hhook (by simp)
  · exact hcalled

/-- A startup goes from one state to the next, and has been there when it is over. -/
theorem Sound.startup {s : State} (h : Sound s) {next : Startup} (hnext : next ≠ .queued true)
    (hover : s.startup.Over → next.Over) (hpositive : next = .settled true → 0 < s.code) :
    Sound { s with startup := next } :=
  { h with
    unbegun := fun hunbegun => by
      obtain ⟨hunset, hended, hcloses, hserver, -, hhook⟩ := h.unbegun hunbegun
      exact ⟨hunset, hended, hcloses, hserver, hnext, hhook⟩
    waited := fun hbegun hwaiting => (h.waited hbegun hwaiting).imp_right hover
    positive := fun hbad => hbad.elim hpositive fun hfailing => h.positive (.inr hfailing) }

theorem Sound.httpClosed {s : State} (h : Sound s) (hclosing : s.server = .closing) :
    Sound { s with server := .closed } :=
  { h with
    unbegun := fun hunbegun => by
      have hserver := (h.unbegun hunbegun).2.2.2.1
      simp [hclosing] at hserver
    begun := fun hbegun => by
      obtain ⟨hstopping, -, hhook, harmed⟩ := h.begun hbegun
      exact ⟨hstopping, by simp, hhook, harmed⟩
    waited := fun hbegun hwaiting => ⟨.inr rfl, (h.waited hbegun hwaiting).2⟩ }

theorem Sound.deadlineFires {s : State} (h : Sound s) (hhook : s.hook = none)
    (harmed : s.deadline = .armed) :
    Sound { s with deadline := .fired, hook := some (.force true) } := by
  have hbegun : s.cleanup ≠ .unbegun := fun hunbegun => by
    simp [(h.unbegun hunbegun).1] at harmed
  obtain ⟨hstopping, hserver, -, -⟩ := h.begun hbegun
  exact { h with
    unbegun := fun hunbegun => absurd hunbegun hbegun
    begun := fun _ => ⟨hstopping, hserver, by simp, fun _ => .inr ⟨rfl, rfl⟩⟩
    running := fun hrunning => by simp at hrunning
    failing := by simp [h.failing, hhook]
    deadline := fun _ => .inr rfl
    atDeadline := fun _ => rfl }

theorem Sound.callback {s t : State} (h : Sound s) (hhook : s.hook = none) {l : Label}
    (hstep : s.callback l = some t) : Sound t := by
  cases l with
  | timer =>
    simp only [State.callback, Option.ite_none_right_eq_some, Option.some.injEq] at hstep
    exact hstep.2 ▸ h.run
  | taskEnds =>
    simp only [State.callback, Option.ite_none_right_eq_some, Option.some.injEq] at hstep
    obtain ⟨-, rfl⟩ := hstep
    exact { h with
      settled := fun drained hdraining => by simp [h.settled drained hdraining]
      closing := fun hclosing => by simp [h.closing hclosing] }
  | start =>
    simp only [State.callback] at hstep
    split at hstep
    · obtain rfl := Option.some.inj hstep
      by_cases hstopping : s.stopping = true
      · rw [if_pos hstopping]
        exact h.startup (by simp) (by simp [Startup.Over]) (by simp)
      · have hunbegun : s.cleanup = .unbegun := by
          by_contra hbegun
          exact hstopping (h.begun hbegun).1
        rw [if_neg hstopping]
        exact { h with
          unbegun := fun _ => by
            obtain ⟨hunset, hended, hcloses, hserver, -, hnone⟩ := h.unbegun hunbegun
            exact ⟨hunset, hended, hcloses, hserver, by simp, hnone⟩
          waited := fun hbegun _ => absurd hunbegun hbegun
          positive := fun hbad => h.positive (.inr (by simpa using hbad)) }
    · cases hstep
  | startupEnds failed =>
    simp only [State.callback, Option.ite_none_right_eq_some, Option.some.injEq] at hstep
    obtain ⟨hrunning, rfl⟩ := hstep
    cases failed with
    | false => exact h.startup (by simp) (by simp [Startup.Over]) (by simp)
    | true => exact h.startup (by simp) (by simp [Startup.Over, hrunning]) (by simp)
  | startupCaught =>
    simp only [State.callback, Option.ite_none_right_eq_some, Option.some.injEq] at hstep
    obtain ⟨-, rfl⟩ := hstep
    exact (h.raised 1 (by omega) fun _ => by omega).startup (by simp) (by simp [Startup.Over])
      (by simp)
  | finish =>
    simp only [State.callback, Option.ite_none_right_eq_some, Option.some.injEq, Bool.and_eq_true,
      decide_eq_true_eq] at hstep
    obtain ⟨⟨hshutdown, hunbegun⟩, rfl⟩ := hstep
    exact h.finish hshutdown hunbegun hhook
  | httpClosed failed =>
    simp only [State.callback, Option.ite_none_right_eq_some, Option.some.injEq] at hstep
    obtain ⟨hclosing, rfl⟩ := hstep
    cases failed with
    | false => exact h.httpClosed hclosing
    | true => exact (h.httpClosed hclosing).raised 1 (by omega) fun _ => by omega
  | httpAndStartup drainThrows =>
    simp only [State.callback, Option.ite_none_right_eq_some, Option.some.injEq, Bool.and_eq_true,
      decide_eq_true_eq] at hstep
    obtain ⟨⟨hwaiting, hsettled⟩, rfl⟩ := hstep
    exact h.httpAndStartup hwaiting (State.quiet_of_settled hsettled) hhook drainThrows
  | tasksSettled =>
    simp only [State.callback] at hstep
    split at hstep
    · rename_i drained hdraining
      simp only [Option.ite_none_right_eq_some, Option.some.injEq] at hstep
      obtain ⟨hactive, rfl⟩ := hstep
      refine h.proceeds (by simp [hdraining]) hhook (h.waited ?_ ?_) (by simp) (fun _ => hactive)
        (by simp) fun hclosed => ?_
      · simp [hdraining]
      · simp [hdraining]
      · rcases h.unclosed hclosed with hbad | hbad | hbad <;> simp [hdraining] at hbad
    · cases hstep
  | drainEnds failed =>
    simp only [State.callback] at hstep
    split at hstep
    · rename_i settled hdraining
      obtain rfl := Option.some.inj hstep
      have hquiet := h.waited (by simp [hdraining]) (by simp [hdraining])
      cases failed with
      | true => exact h.fails hquiet hhook (by simp [hdraining])
      | false =>
        refine h.proceeds (by simp [hdraining]) hhook hquiet (by simp) ?_ (by simp)
          fun hclosed => ?_
        · rintro (⟨drained, heq⟩ | heq)
          · obtain ⟨rfl, -⟩ := Cleanup.draining.inj heq
            exact h.settled false hdraining
          · cases heq
        · rcases h.unclosed hclosed with hbad | hbad | hbad <;> simp [hdraining] at hbad
    · cases hstep
  | callClose throws =>
    simp only [State.callback, Option.ite_none_right_eq_some, Option.some.injEq] at hstep
    obtain ⟨hdrained, rfl⟩ := hstep
    exact h.callClose hdrained hhook throws
  | closeEnds failed =>
    simp only [State.callback, Option.ite_none_right_eq_some, Option.some.injEq] at hstep
    obtain ⟨hclosing, rfl⟩ := hstep
    have hquiet := h.waited (by simp [hclosing]) (by simp [hclosing])
    cases failed with
    | true => exact h.fails hquiet hhook (by simp [hclosing])
    | false =>
      have hleave := h.leave (by simp [hclosing]) (by simp [hclosing])
      rwa [← hhook] at hleave
  | deadline =>
    simp only [State.callback, Option.ite_none_right_eq_some, Option.some.injEq] at hstep
    obtain ⟨harmed, rfl⟩ := hstep
    exact h.deadlineFires hhook harmed
  | _ => cases hstep

theorem State.step_cases {s t : State} {l : Label} (hstep : s.step l = some t) :
    (l = .boot ∧ t = s.boot) ∨ (∃ opened, l = .listen opened ∧ t = s.listen opened) ∨
      (l = .every ∧ t = s.every) ∨ (∃ code, l = .stop code ∧ t = s.stop code) ∨
      (l = .httpError ∧ t = s.stop 1) ∨
      (∃ throws hook, l = .hookEnds throws ∧ s.hook = some hook ∧ t = s.hookEnds throws hook) ∨
      (s.hook = none ∧ s.callback l = some t) := by
  cases l with
  | boot => exact .inl ⟨rfl, (Option.some.inj hstep).symm⟩
  | listen opened => exact .inr (.inl ⟨opened, rfl, (Option.some.inj hstep).symm⟩)
  | every => exact .inr (.inr (.inl ⟨rfl, (Option.some.inj hstep).symm⟩))
  | stop code => exact .inr (.inr (.inr (.inl ⟨code, rfl, (Option.some.inj hstep).symm⟩)))
  | httpError =>
    simp only [State.step, Option.ite_none_left_eq_some, Option.some.injEq] at hstep
    exact .inr (.inr (.inr (.inr (.inl ⟨rfl, hstep.2.symm⟩))))
  | hookEnds throws =>
    obtain ⟨hook, hhook, rfl⟩ := Option.map_eq_some_iff.mp hstep
    exact .inr (.inr (.inr (.inr (.inr (.inl ⟨throws, hook, rfl, hhook, rfl⟩)))))
  | _ =>
    simp only [State.step, Option.ite_none_right_eq_some] at hstep
    exact .inr (.inr (.inr (.inr (.inr (.inr hstep)))))

theorem Sound.step {s t : State} (h : Sound s) {l : Label} (hstep : s.step l = some t) :
    Sound t := by
  rcases State.step_cases hstep with ⟨-, rfl⟩ | ⟨opened, -, rfl⟩ | ⟨-, rfl⟩ | ⟨code, -, rfl⟩ |
    ⟨-, rfl⟩ | ⟨throws, hook, -, hhook, rfl⟩ | ⟨hhook, hcallback⟩
  · exact h.boot
  · exact h.listen opened
  · exact h.every
  · exact h.stop code
  · exact h.stop 1
  · exact h.hookEnds hhook throws
  · exact h.callback hhook hcallback

def Label.Stops : Label → Prop
  | .stop _ | .httpError => True
  | _ => False

/-- What makes the exit code non-zero, when it comes before the exit: a stop with a positive
code, a failed listener, a failed close of it, a throwing `quiesce`, a failed cleanup. -/
def Fails (e : Event State Label) : Prop :=
  (∃ code, e.label = .stop code ∧ 0 < code) ∨ e.label = .httpError ∨
    e.label = .httpClosed true ∨ (e.label = .hookEnds true ∧ e.before.hook = some .quiesce) ∨
    e.after.cleanup = .failing

/-- What one step does to the fields that the guarantees are about. -/
structure Stepped (s t : State) (l : Label) : Prop where
  stopping : t.stopping = true ↔ s.stopping = true ∨ l.Stops
  listening : t.server = .listening → s.server = .listening ∨ s.stopping = false
  running : t.startup = .running → s.startup = .running ∨ s.stopping = false
  active : s.active < t.active → s.stopping = false
  threw : s.startup = .threw ∨ s.startup = .settled true ∨ l = .startupEnds true →
    t.startup = .threw ∨ t.startup = .settled true
  code : 0 < s.code → 0 < t.code
  fails : Fails ⟨s, l, t⟩ → 0 < t.code
  deadline : s.deadline = .fired ∨ l = .deadline → t.deadline = .fired
  closes : t.closes ≠ s.closes → s.cleanup = .draining true true
  exits : ∀ code, t.exits = s.exits ++ [code] → s.stopping = true ∧
    (0 < code ∨ code = s.code ∧ s.startup.Over ∧ s.deadline ≠ .fired)

/-- A label that says nothing about a failure, a stop or the deadline. -/
def Label.Neutral : Label → Prop
  | .stop _ | .httpError | .httpClosed true | .hookEnds true | .startupEnds true | .deadline => False
  | _ => True

theorem not_fails {s t : State} {l : Label} (hl : l.Neutral) (hfailing : t.cleanup ≠ .failing) :
    ¬Fails ⟨s, l, t⟩ := by
  rintro (⟨code, rfl, -⟩ | rfl | rfl | ⟨rfl, -⟩ | hbad)
  · exact hl
  · exact hl
  · exact hl
  · exact hl
  · exact hfailing hbad

/-- A neutral step that changes nothing. The steps below change some fields of it. -/
theorem Stepped.same {s : State} {l : Label} (hl : l.Neutral) (hfailing : s.cleanup ≠ .failing) :
    Stepped s s l where
  stopping := by
    have hstops : ¬l.Stops := by cases l <;> simp_all [Label.Neutral, Label.Stops]
    simp [hstops]
  listening := .inl
  running := .inl
  active := fun hmore => absurd hmore (Nat.lt_irrefl _)
  threw := by
    rintro (hthrew | hsettled | rfl)
    · exact .inl hthrew
    · exact .inr hsettled
    · exact hl.elim
  code := id
  fails := fun hbad => absurd hbad (not_fails hl hfailing)
  deadline := by
    rintro (hfired | rfl)
    · exact hfired
    · exact hl.elim
  closes := fun hcloses => absurd rfl hcloses
  exits := fun code hexits => by simp at hexits

/-- The sequence leaves with its code when the deadline has not fired. -/
theorem Sound.leave_stepped {s : State} (h : Sound s) (hclosing : s.cleanup = .closing)
    (hhook : s.hook = none) : Stepped s s.leave (.closeEnds false) := by
  have hquiet := h.waited (by simp [hclosing]) (by simp [hclosing])
  obtain ⟨hstopping, -, -, harmed⟩ := h.begun (by simp [hclosing])
  have hsame : Stepped s s (.closeEnds false) := Stepped.same trivial (by simp [hclosing])
  unfold State.leave State.exit
  by_cases hended : s.ended = true
  · rw [if_pos hended]
    exact { hsame with fails := fun hbad => absurd hbad (not_fails trivial (by simp)) }
  · have harmed : s.deadline = .armed := by
      rcases harmed (by simpa using hended) with harmed | ⟨-, hforce⟩
      · exact harmed
      · rw [hhook] at hforce
        cases hforce
    rw [if_neg hended, if_neg (by exact hended)]
    exact { hsame with
      fails := fun hbad => absurd hbad (not_fails trivial (by simp))
      deadline := by simp [harmed]
      exits := fun code hexits => by
        have hcode : s.code = code := by simpa using hexits
        exact ⟨hstopping, .inr ⟨hcode.symm, hquiet.2, by simp [harmed]⟩⟩ }

/-- The catch block sets the code of a failure. -/
theorem Stepped.fails_of_same {s : State} {l : Label} (h : Stepped s s l) : Stepped s s.fails l :=
  { h with
    code := fun _ => by simp [State.fails]
    fails := fun _ => by simp [State.fails] }

theorem Sound.callback_stepped {s t : State} (h : Sound s) (hhook : s.hook = none) {l : Label}
    (hstep : s.callback l = some t) : Stepped s t l := by
  have hfailing : s.cleanup ≠ .failing := by
    rw [Ne, h.failing, hhook]
    simp
  cases l with
  | timer =>
    simp only [State.callback, Option.ite_none_right_eq_some, Option.some.injEq] at hstep
    obtain ⟨-, rfl⟩ := hstep
    unfold State.run
    by_cases hstopping : s.stopping = true
    · rw [if_pos hstopping]
      exact Stepped.same (l := .timer) trivial hfailing
    · rw [if_neg hstopping]
      exact { Stepped.same (l := .timer) trivial hfailing with active := fun _ => by simpa using hstopping }
  | taskEnds =>
    simp only [State.callback, Option.ite_none_right_eq_some, Option.some.injEq] at hstep
    obtain ⟨-, rfl⟩ := hstep
    exact { Stepped.same (l := .taskEnds) trivial hfailing with
      active := fun hmore => absurd hmore (Nat.not_lt.mpr (Nat.sub_le s.active 1)) }
  | start =>
    simp only [State.callback] at hstep
    split at hstep
    · rename_i late hqueued
      obtain rfl := Option.some.inj hstep
      exact { Stepped.same (l := .start) trivial hfailing with
        running := fun hrunning => .inr <| by
          by_contra hstopping
          simp [hstopping] at hrunning
        threw := by simp [hqueued]
        exits := fun code hexits => by simp at hexits }
    · cases hstep
  | startupEnds failed =>
    simp only [State.callback, Option.ite_none_right_eq_some, Option.some.injEq] at hstep
    obtain ⟨hrunning, rfl⟩ := hstep
    cases failed with
    | false =>
      exact { Stepped.same (l := .startupEnds false) trivial hfailing with
        running := fun hafter => by simp at hafter
        threw := by simp [hrunning]
        exits := fun code hexits => by simp at hexits }
    | true =>
      exact { Stepped.same (l := .start) trivial hfailing with
        stopping := by simp [Label.Stops]
        running := fun hafter => by simp at hafter
        threw := fun _ => .inl rfl
        fails := fun hbad => by
          simp only [Fails, reduceCtorEq, false_and, exists_false, false_or] at hbad
          exact absurd hbad hfailing
        deadline := by simp
        exits := fun code hexits => by simp at hexits }
  | startupCaught =>
    simp only [State.callback, Option.ite_none_right_eq_some, Option.some.injEq] at hstep
    obtain ⟨hthrew, rfl⟩ := hstep
    exact { Stepped.same (l := .startupCaught) trivial hfailing with
      running := fun hafter => by simp at hafter
      threw := fun _ => .inr rfl
      code := fun _ => Int.one_pos
      fails := fun _ => Int.one_pos
      exits := fun code hexits => by simp at hexits }
  | finish =>
    simp only [State.callback, Option.ite_none_right_eq_some, Option.some.injEq, Bool.and_eq_true,
      decide_eq_true_eq] at hstep
    obtain ⟨⟨-, hunbegun⟩, rfl⟩ := hstep
    have hunset := (h.unbegun hunbegun).1
    exact { Stepped.same (l := .finish) trivial hfailing with
      listening := fun hafter => by
        unfold State.finish at hafter
        by_contra hbefore
        simp_all
      fails := fun hbad => absurd hbad (not_fails trivial (by simp [State.finish]))
      deadline := by simp [hunset]
      exits := fun code hexits => by simp [State.finish] at hexits }
  | httpClosed failed =>
    simp only [State.callback, Option.ite_none_right_eq_some, Option.some.injEq] at hstep
    obtain ⟨-, rfl⟩ := hstep
    have hsame : Stepped s s (.httpClosed false) := Stepped.same trivial hfailing
    cases failed with
    | false => exact { hsame with listening := fun hafter => by simp at hafter }
    | true =>
      exact { hsame with
        listening := fun hafter => by simp at hafter
        threw := fun hthrew => hsame.threw (by simpa using hthrew)
        code := fun _ => Int.one_pos
        fails := fun _ => Int.one_pos
        deadline := fun hfired => hsame.deadline (by simpa using hfired) }
  | httpAndStartup drainThrows =>
    simp only [State.callback, Option.ite_none_right_eq_some, Option.some.injEq, Bool.and_eq_true,
      decide_eq_true_eq] at hstep
    obtain ⟨-, rfl⟩ := hstep
    have hsame : Stepped s s (.httpAndStartup drainThrows) := Stepped.same trivial hfailing
    unfold State.httpAndStartup
    split_ifs
    · exact { hsame with fails := fun hbad => absurd hbad (not_fails trivial (by simp)) }
    · exact hsame.fails_of_same
    · exact { hsame with fails := fun hbad => absurd hbad (not_fails trivial (by simp)) }
  | tasksSettled =>
    simp only [State.callback] at hstep
    split at hstep
    · simp only [Option.ite_none_right_eq_some, Option.some.injEq] at hstep
      obtain ⟨-, rfl⟩ := hstep
      exact { Stepped.same (l := .tasksSettled) trivial hfailing with
        fails := fun hbad => absurd hbad (not_fails trivial (by simp)) }
    · cases hstep
  | drainEnds failed =>
    simp only [State.callback] at hstep
    split at hstep
    · obtain rfl := Option.some.inj hstep
      have hsame : Stepped s s (.drainEnds failed) := Stepped.same trivial hfailing
      cases failed with
      | true => exact hsame.fails_of_same
      | false => exact { hsame with fails := fun hbad => absurd hbad (not_fails trivial (by simp)) }
    · cases hstep
  | callClose throws =>
    simp only [State.callback, Option.ite_none_right_eq_some, Option.some.injEq] at hstep
    obtain ⟨hdrained, rfl⟩ := hstep
    have hsame : Stepped s s (.callClose throws) := Stepped.same trivial hfailing
    unfold State.callClose
    split_ifs
    · exact { hsame with fails := fun hbad => absurd hbad (not_fails trivial (by simp)) }
    · exact { hsame.fails_of_same with closes := fun _ => hdrained }
    · exact { hsame with
        fails := fun hbad => absurd hbad (not_fails trivial (by simp))
        closes := fun _ => hdrained }
  | closeEnds failed =>
    simp only [State.callback, Option.ite_none_right_eq_some, Option.some.injEq] at hstep
    obtain ⟨hclosing, rfl⟩ := hstep
    cases failed with
    | true => exact Stepped.fails_of_same (Stepped.same trivial hfailing)
    | false => exact h.leave_stepped hclosing hhook
  | deadline =>
    simp only [State.callback, Option.ite_none_right_eq_some, Option.some.injEq] at hstep
    obtain ⟨-, rfl⟩ := hstep
    have hsame : Stepped s s .start := Stepped.same trivial hfailing
    exact { hsame with
      threw := fun hthrew => hsame.threw (by simpa using hthrew)
      fails := fun hbad => by
        simp only [Fails, reduceCtorEq, false_and, exists_false, false_or] at hbad
        exact absurd hbad hfailing
      deadline := fun _ => rfl }
  | _ => cases hstep

theorem Sound.stop_stepped {s : State} (h : Sound s) {given : ℤ} {l : Label} (hl : l.Stops)
    (hgiven : l = .stop given ∨ l = .httpError ∧ given = 1) : Stepped s (s.stop given) l := by
  have hcode : 0 < s.code → 0 < max s.code given :=
    fun hpositive => Int.lt_of_lt_of_le hpositive (Int.le_max_left ..)
  have hmax : 0 < given → 0 < max s.code given :=
    fun hpositive => Int.lt_of_lt_of_le hpositive (Int.le_max_right ..)
  have hfails (t : State) (ht : t.cleanup = s.cleanup) : Fails ⟨s, l, t⟩ → 0 < max s.code given := by
    intro hbad
    rcases hgiven with rfl | ⟨rfl, rfl⟩
    · simp only [Fails, Label.stop.injEq, reduceCtorEq, false_and, false_or, ht] at hbad
      rcases hbad with ⟨code, rfl, hpositive⟩ | hfailing
      · exact hmax hpositive
      · exact hcode (h.positive (.inr hfailing))
    · exact hmax (by omega)
  have hends : l ≠ .startupEnds true ∧ l ≠ .deadline := by
    rcases hgiven with rfl | ⟨rfl, -⟩ <;> simp
  unfold State.stop
  by_cases hshutdown : s.shutdown = true
  · rw [if_pos hshutdown]
    exact {
      stopping := by simp [h.stopping, hshutdown]
      listening := .inl
      running := .inl
      active := fun hmore => by simp at hmore
      threw := fun hthrew => by simpa [hends.1] using hthrew
      code := hcode
      fails := hfails _ rfl
      deadline := fun hfired => by simpa [hends.2] using hfired
      closes := fun hcloses => by simp at hcloses
      exits := fun code hexits => by simp at hexits }
  · rw [if_neg hshutdown]
    exact {
      stopping := by simp [hl]
      listening := .inl
      running := .inl
      active := fun hmore => by simp at hmore
      threw := fun hthrew => by simpa [hends.1] using hthrew
      code := hcode
      fails := hfails _ rfl
      deadline := fun hfired => by simpa [hends.2] using hfired
      closes := fun hcloses => by simp at hcloses
      exits := fun code hexits => by simp at hexits }

theorem Sound.hookEnds_stepped {s : State} (h : Sound s) {hook : Hook} (hhook : s.hook = some hook)
    (throws : Bool) : Stepped s (s.hookEnds throws hook) (.hookEnds throws) := by
  have hfailing := fun hbad => h.positive (.inr hbad)
  cases hook with
  | quiesce =>
    clear h
    unfold State.hookEnds
    cases throws <;> constructor <;> simp_all [Label.Stops, Fails]
  | force deadline =>
    cases deadline with
    | false =>
      have hcleanup := h.failing.mpr hhook
      have hdone := h.begun (by simp [hcleanup])
      clear h
      unfold State.hookEnds State.leave State.exit
      split_ifs <;> constructor <;> simp_all [Label.Stops, Fails]
    | true =>
      have hfired := h.atDeadline hhook
      have hbegun : s.cleanup ≠ .unbegun := fun hunbegun => by simp [(h.unbegun hunbegun).1] at hfired
      have hstopping := (h.begun hbegun).1
      clear h
      unfold State.hookEnds State.exit
      split_ifs <;> constructor <;> simp_all [Label.Stops, Fails]

theorem Sound.stepped {s t : State} (h : Sound s) {l : Label} (hstep : s.step l = some t) :
    Stepped s t l := by
  have hfailing := fun hbad => h.positive (.inr hbad)
  rcases State.step_cases hstep with ⟨rfl, rfl⟩ | ⟨opened, rfl, rfl⟩ | ⟨rfl, rfl⟩ |
    ⟨given, rfl, rfl⟩ | ⟨rfl, rfl⟩ | ⟨throws, hook, rfl, hhook, rfl⟩ | ⟨hhook, hcallback⟩
  · clear h
    unfold State.boot
    split_ifs <;> constructor <;> simp_all [Label.Stops, Fails]
  · clear h
    unfold State.listen
    split_ifs <;> constructor <;> simp_all [Label.Stops, Fails]
  · clear h
    unfold State.every State.run
    split_ifs <;> constructor <;> simp_all [Label.Stops, Fails]
  · exact h.stop_stepped trivial (.inl rfl)
  · exact h.stop_stepped trivial (.inr ⟨rfl, rfl⟩)
  · exact h.hookEnds_stepped hhook throws
  · exact h.callback_stepped hhook hcallback

/-- What the steps taken so far have left in the state. -/
structure Recorded (trace : List (Event State Label)) (s : State) : Prop where
  sound : Sound s
  stopped : s.stopping = true ↔ ∃ e ∈ trace, e.label.Stops
  threw : (∃ e ∈ trace, e.label = .startupEnds true) →
    s.startup = .threw ∨ s.startup = .settled true
  fails : (∃ e ∈ trace, Fails e) → 0 < s.code
  deadline : (∃ e ∈ trace, e.label = .deadline) → s.deadline = .fired

theorem Recorded.snoc {trace : List (Event State Label)} {s t : State} (h : Recorded trace s)
    {l : Label} (hstep : s.step l = some t) : Recorded (trace ++ [⟨s, l, t⟩]) t := by
  have hstepped := h.sound.stepped hstep
  have hsplit : ∀ P : Event State Label → Prop, (∃ e ∈ trace ++ [⟨s, l, t⟩], P e) ↔
      (∃ e ∈ trace, P e) ∨ P ⟨s, l, t⟩ := by
    intro P
    simp only [List.mem_append, List.mem_singleton]
    constructor
    · rintro ⟨e, he | rfl, hp⟩
      · exact .inl ⟨e, he, hp⟩
      · exact .inr hp
    · rintro (⟨e, he, hp⟩ | hp)
      · exact ⟨e, .inl he, hp⟩
      · exact ⟨_, .inr rfl, hp⟩
  refine ⟨h.sound.step hstep, ?_, fun hthrew => ?_, fun hfails => ?_, fun hfired => ?_⟩
  · rw [hsplit, ← h.stopped]
    exact hstepped.stopping
  · rcases (hsplit _).mp hthrew with hold | hnew
    · rcases h.threw hold with hthrew | hsettled
      · exact hstepped.threw (.inl hthrew)
      · exact hstepped.threw (.inr (.inl hsettled))
    · exact hstepped.threw (.inr (.inr hnew))
  · rcases (hsplit _).mp hfails with hold | hnew
    · exact hstepped.code (h.fails hold)
    · exact hstepped.fails hnew
  · rcases (hsplit _).mp hfired with hold | hnew
    · exact hstepped.deadline (.inl (h.deadline hold))
    · exact hstepped.deadline (.inr hnew)

theorem recorded {trace : List (Event State Label)} {s : State}
    (run : Exec lifecycle .initial trace s) : Recorded trace s := by
  refine run.history Recorded ⟨Sound.initial, ?_, ?_, ?_, ?_⟩ fun trace t l u _ h hstep =>
    h.snoc hstep
  · simp [State.initial]
  · simp
  · simp
  · simp

/-- For every order of calls, callbacks and settlements: one exit, not before a stop and not
missing at the end of the cleanup or after the deadline; one close, after all else has
settled; nothing accepted after a stop; and a failure is never an exit with code zero. -/
theorem shutdown {trace : List (Event State Label)} {s : State}
    (run : Exec lifecycle .initial trace s) :
    (s.exits.length ≤ 1 ∧ (s.exits ≠ [] → ∃ e ∈ trace, e.label.Stops)) ∧
    (s.cleanup = .done ∨ s.deadline = .fired ∧ s.hook ≠ some (.force true) →
      s.exits.length = 1) ∧
    (s.closes ≤ 1 ∧ ∀ e ∈ trace, e.after.closes ≠ e.before.closes →
      (e.before.server = .none ∨ e.before.server = .closed) ∧ e.before.startup.Over ∧
        e.before.active = 0 ∧ e.before.cleanup = .draining true true) ∧
    (∀ first e second, trace = first ++ e :: second → (∃ f ∈ first, f.label.Stops) →
      (e.after.server = .listening → e.before.server = .listening) ∧
        (e.after.startup = .running → e.before.startup = .running) ∧
        e.after.active ≤ e.before.active) ∧
    ∀ first e second code, trace = first ++ e :: second →
      e.after.exits = e.before.exits ++ [code] →
      (∃ f ∈ first, f.label = .startupEnds true) ∨ (∃ f ∈ first, Fails f) ∨
        (∃ f ∈ first, f.label = .deadline) → 0 < code := by
  have hsound := (recorded run).sound
  refine ⟨⟨?_, fun hexits => ?_⟩, fun hover => ?_, ⟨hsound.closes, fun e he hclose => ?_⟩,
    fun first e second htrace hstopped => ?_, fun first e second code htrace hexit hfailed => ?_⟩
  · by_cases hended : s.ended = true
    · exact Nat.le_of_eq (hsound.exited hended)
    · rw [hsound.unexited (by simpa using hended)]
      simp
  · have hended : s.ended = true := by
      by_contra hended
      exact hexits (hsound.unexited (by simpa using hended))
    have hbegun : s.cleanup ≠ .unbegun := fun hunbegun => by
      have := (hsound.unbegun hunbegun).2.1
      simp [hended] at this
    exact (recorded run).stopped.mp (hsound.begun hbegun).1
  · apply hsound.exited
    rcases hover with hdone | ⟨hfired, hhook⟩
    · exact hsound.done hdone
    · exact (hsound.deadline hfired).resolve_right hhook
  · obtain ⟨first, second, -, hfirst, hstep, -⟩ := run.split he
    have hbefore := (recorded hfirst).sound
    have hdrained := (hbefore.stepped hstep).closes hclose
    have hquiet := hbefore.waited (by simp [hdrained]) (by simp [hdrained])
    exact ⟨hquiet.1, hquiet.2, hbefore.settled true hdrained, hdrained⟩
  · subst htrace
    obtain ⟨u, hfirst, hrest⟩ := run.of_append
    obtain ⟨rfl, hstep, -⟩ := hrest.of_cons
    have hbefore := recorded hfirst
    have hstepped := hbefore.sound.stepped hstep
    have hstopping := hbefore.stopped.mpr hstopped
    refine ⟨fun hafter => (hstepped.listening hafter).resolve_right ?_,
      fun hafter => (hstepped.running hafter).resolve_right ?_, ?_⟩
    · simp [hstopping]
    · simp [hstopping]
    · by_contra hmore
      have := hstepped.active (Nat.lt_of_not_le hmore)
      simp [hstopping] at this
  · subst htrace
    obtain ⟨u, hfirst, hrest⟩ := run.of_append
    obtain ⟨rfl, hstep, -⟩ := hrest.of_cons
    have hbefore := recorded hfirst
    obtain ⟨-, hpositive | ⟨rfl, hover, hunfired⟩⟩ :=
      (hbefore.sound.stepped hstep).exits code hexit
    · exact hpositive
    · rcases hfailed with hthrew | hfails | hfired
      · rcases hbefore.threw hthrew with hthrew | hsettled
        · rw [hthrew] at hover
          exact hover.elim
        · exact hbefore.sound.positive (.inl hsettled)
      · exact hbefore.fails hfails
      · exact (hunfired (hbefore.deadline hfired)).elim

section Examples

/-- What follows a stop when nothing is left to wait for. -/
def cleanShutdown : List Label :=
  [.hookEnds false, .finish, .httpAndStartup false, .tasksSettled, .drainEnds false,
    .callClose false, .closeEnds false]

/-- A stop with the code -1 before the exit, and an exit with the code 0. -/
theorem negative_code :
    ∃ u rest s, Exec lifecycle .initial (⟨.initial, .stop (-1), u⟩ :: rest) s ∧
      u.exits = [] ∧ s.exits = [0] := by
  have hruns : (cleanShutdown.foldlM State.step (State.stop .initial (-1))).any
      (fun s => decide (s.exits = [0])) = true := by decide +kernel
  obtain ⟨s, hs, hexits⟩ := (Option.any_eq_true ..).mp hruns
  obtain ⟨rest, run⟩ := exec_of_foldlM (T := lifecycle) (fun _ _ _ h => h) cleanShutdown hs
  have hstop : lifecycle.step .initial (.stop (-1)) (State.stop .initial (-1)) := rfl
  exact ⟨State.stop .initial (-1), rest, s, (Exec.single hstop).append run, rfl,
    of_decide_eq_true hexits⟩

/-- A startup that throws after a listener was opened and a periodic task began, up to the end
of the close. -/
def failedStartup : List Label :=
  [.boot, .listen true, .every, .start, .startupEnds true, .startupCaught, .stop 0,
    .hookEnds false, .finish, .httpClosed false, .httpAndStartup false, .taskEnds, .tasksSettled,
    .drainEnds false, .callClose false]

/-- The stop names the code 0, and the exit has a positive one. -/
theorem shutdown_failed_startup :
    ∃ trace s code, Exec lifecycle .initial trace s ∧ s.cleanup = .done ∧ s.closes = 1 ∧
      s.exits = [code] ∧ 0 < code ∧ ∃ e ∈ trace, e.label.Stops := by
  have hruns : (failedStartup.foldlM State.step .initial).any (fun s => decide (s.exits = []) &&
      (s.step (.closeEnds false)).any fun t => decide (t.cleanup = .done ∧ t.closes = 1)) = true := by
    decide +kernel
  have hthrown : ∃ f ∈ eventsOf State.step .initial failedStartup,
      f.label = .startupEnds true := by
    decide +kernel
  obtain ⟨s, hs, hboth⟩ := (Option.any_eq_true ..).mp hruns
  obtain ⟨hnone, hlast⟩ := (Bool.and_eq_true _ _).mp hboth
  obtain ⟨t, ht, hends⟩ := (Option.any_eq_true ..).mp hlast
  obtain ⟨hdone, hclosed⟩ := of_decide_eq_true hends
  have hstep : lifecycle.step s (.closeEnds false) t := ht
  have run := Exec.snoc (exec_eventsOf (T := lifecycle) (fun _ _ _ h => h) failedStartup hs) hstep
  obtain ⟨⟨-, hstopped⟩, hexits, -, -, hcode⟩ := shutdown run
  obtain ⟨code, hexit⟩ := List.length_eq_one_iff.mp (hexits (.inl hdone))
  have hadded : t.exits = s.exits ++ [code] := by rw [hexit, of_decide_eq_true hnone]; rfl
  exact ⟨_, t, code, run, hdone, hclosed, hexit, hcode _ _ [] code rfl hadded (.inl hthrown),
    hstopped fun hnil => by simp [hnil] at hexit⟩

end Examples

end DreamSso.Lifecycle
