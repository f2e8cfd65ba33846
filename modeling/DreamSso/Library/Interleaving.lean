import DreamSso.Library.Transitions
import Mathlib.Data.List.Induction
import Mathlib.Logic.Function.Basic

/-!
Concurrent requests against one shared store. A request is a program that
awaits one command after another, each command is one atomic step of the store,
and any number of requests are interleaved with moves of the store's own. A
request that stops being scheduled has crashed. What a request does is followed
by a protocol: a phase that its own commands and replies determine, and the
commands each phase allows.
-/
namespace Interleaving

open Transitions

/-- A program over commands `C` with replies `R`. A command that gets no reply
has thrown. -/
inductive Prog (C : Type) (R : C → Type) (α : Type) : Type
  | done (a : α)
  | thrown
  | call (c : C) (k : Option (R c) → Prog C R α)

namespace Prog

variable {C : Type} {R : C → Type} {α β γ : Type}

def bind : Prog C R α → (α → Prog C R β) → Prog C R β
  | done a, f => f a
  | thrown, _ => thrown
  | call c k, f => call c fun r => (k r).bind f

instance : Monad (Prog C R) where
  pure := done
  bind := bind

/-- Continue with the reply of one command; a command that throws ends the program. -/
def await (c : C) : Prog C R (R c) :=
  call c fun
    | some r => done r
    | none => thrown

/-- Run a program to its end and go on either way. -/
def attempt : Prog C R α → Prog C R (Option α)
  | done a => done (some a)
  | thrown => done none
  | call c k => call c fun r => (k r).attempt

/-- Whether the program has ended. -/
def ended : Prog C R α → Bool
  | done _ => true
  | thrown => true
  | call _ _ => false

/-- The result of a program that has returned. -/
def result? : Prog C R α → Option α
  | done a => some a
  | thrown => none
  | call _ _ => none

@[simp] theorem pure_eq (a : α) : (pure a : Prog C R α) = done a := rfl

@[simp] theorem done_bind (a : α) (f : α → Prog C R β) : (done a >>= f) = f a := rfl

@[simp] theorem thrown_bind (f : α → Prog C R β) : ((thrown : Prog C R α) >>= f) = thrown := rfl

@[simp] theorem call_bind (c : C) (k : Option (R c) → Prog C R α) (f : α → Prog C R β) :
    (call c k >>= f) = call c fun r => k r >>= f := rfl

theorem bind_assoc {δ : Type} (p : Prog C R α) (f : α → Prog C R β) (g : β → Prog C R δ) :
    ((p >>= f) >>= g) = (p >>= fun a => f a >>= g) := by
  induction p with
  | done a => rfl
  | thrown => rfl
  | call c k ih =>
    simp only [call_bind]
    congr 1
    funext r
    exact ih r

/-- The commands a program issues one after the other, with their replies, when it runs to
this result. -/
inductive Plays : Prog C R α → List (Σ c, Option (R c)) → α → Prop
  | done (a : α) : Plays (.done a) [] a
  | call {c : C} {k : Option (R c) → Prog C R α} {r : Option (R c)}
      {rest : List (Σ c, Option (R c))} {a : α} (h : Plays (k r) rest a) :
      Plays (.call c k) (⟨c, r⟩ :: rest) a

theorem plays_done {a b : α} {steps : List (Σ c, Option (R c))}
    (h : (done a : Prog C R α).Plays steps b) : steps = [] ∧ b = a := by
  cases h
  exact ⟨rfl, rfl⟩

theorem plays_call {c : C} {k : Option (R c) → Prog C R α} {a : α}
    {steps : List (Σ c, Option (R c))} (h : (call c k).Plays steps a) :
    ∃ r rest, steps = ⟨c, r⟩ :: rest ∧ (k r).Plays rest a := by
  cases h with
  | call h => exact ⟨_, _, rfl, h⟩

theorem plays_bind {p : Prog C R α} {f : α → Prog C R β} {b : β}
    {steps : List (Σ c, Option (R c))} (h : (p >>= f).Plays steps b) :
    ∃ first second a, steps = first ++ second ∧ p.Plays first a ∧ (f a).Plays second b := by
  induction p generalizing steps with
  | done a => exact ⟨[], steps, a, rfl, .done a, h⟩
  | thrown => cases h
  | call c k ih =>
    obtain ⟨r, rest, rfl, hrest⟩ := plays_call h
    obtain ⟨first, second, a, rfl, hfirst, hsecond⟩ := ih r hrest
    exact ⟨⟨c, r⟩ :: first, second, a, rfl, .call hfirst, hsecond⟩

end Prog

section Protocols

variable {C : Type} {R : C → Type} {α β γ : Type}

/-- The phases a request goes through and the commands it may issue in each. -/
structure Protocol (C : Type) (R : C → Type) (γ : Type) where
  next : γ → (c : C) → Option (R c) → γ
  ok : γ → C → Prop

/-- From the given phase on the program keeps to the protocol, whatever its
commands reply, and ends in a phase in which its result is allowed. -/
def Protocol.Obeys (P : Protocol C R γ) (post : γ → Option α → Prop) : γ → Prog C R α → Prop
  | g, .done a => post g (some a)
  | g, .thrown => post g none
  | g, .call c k => P.ok g c ∧ ∀ r, P.Obeys post (P.next g c r) (k r)

namespace Protocol

variable (P : Protocol C R γ)

@[simp] theorem obeys_done (post : γ → Option α → Prop) (g : γ) (a : α) :
    P.Obeys post g (.done a) ↔ post g (some a) := Iff.rfl

@[simp] theorem obeys_thrown (post : γ → Option α → Prop) (g : γ) :
    P.Obeys post g (.thrown : Prog C R α) ↔ post g none := Iff.rfl

theorem obeys_call (post : γ → Option α → Prop) (g : γ) (c : C)
    (k : Option (R c) → Prog C R α) :
    P.Obeys post g (.call c k) ↔ P.ok g c ∧ ∀ r, P.Obeys post (P.next g c r) (k r) := Iff.rfl

variable {P}

theorem Obeys.mono {post post' : γ → Option α → Prop} (himp : ∀ g a, post g a → post' g a)
    {p : Prog C R α} {g : γ} (h : P.Obeys post g p) : P.Obeys post' g p := by
  induction p generalizing g with
  | done a => exact himp g _ h
  | thrown => exact himp g _ h
  | call c k ih => exact ⟨h.1, fun r => ih r (h.2 r)⟩

/-- What has to hold where the first of two programs ends. -/
def andThen (P : Protocol C R γ) (post : γ → Option β → Prop) (f : α → Prog C R β) :
    γ → Option α → Prop
  | g, some a => P.Obeys post g (f a)
  | g, none => post g none

theorem obeys_bind {post : γ → Option β → Prop} {f : α → Prog C R β} {p : Prog C R α} {g : γ} :
    P.Obeys post g (p >>= f) ↔ P.Obeys (P.andThen post f) g p := by
  induction p generalizing g with
  | done a => rfl
  | thrown => rfl
  | call c k ih =>
    rw [Prog.call_bind, obeys_call, obeys_call]
    exact and_congr_right fun _ => forall_congr' fun r => ih r

theorem obeys_attempt {post : γ → Option (Option α) → Prop} {p : Prog C R α} {g : γ} :
    P.Obeys post g p.attempt ↔ P.Obeys (fun g a => post g (some a)) g p := by
  induction p generalizing g with
  | done a => rfl
  | thrown => rfl
  | call c k ih =>
    rw [Prog.attempt, obeys_call, obeys_call]
    exact and_congr_right fun _ => forall_congr' fun r => ih r

theorem obeys_await {c : C} {post : γ → Option (R c) → Prop} {g : γ} :
    P.Obeys post g (Prog.await c) ↔ P.ok g c ∧ ∀ r, post (P.next g c r) r := by
  rw [Prog.await, obeys_call]
  refine and_congr_right fun _ => forall_congr' fun r => ?_
  cases r <;> rfl

/-- One awaited command and what follows its reply. -/
theorem obeys_await_bind {c : C} {post : γ → Option β → Prop} {f : R c → Prog C R β} {g : γ} :
    P.Obeys post g (Prog.await c >>= f) ↔ P.ok g c ∧ post (P.next g c none) none ∧
      ∀ r, P.Obeys post (P.next g c (some r)) (f r) := by
  rw [obeys_bind, obeys_await]
  refine and_congr_right fun _ => ?_
  constructor
  · intro h
    exact ⟨h none, fun r => h (some r)⟩
  · rintro ⟨hnone, hsome⟩ (_ | r)
    · exact hnone
    · exact hsome r

/-- One command whose failure is caught. -/
theorem obeys_attempt_bind {c : C} {post : γ → Option β → Prop}
    {f : Option (R c) → Prog C R β} {g : γ} :
    P.Obeys post g ((Prog.await c).attempt >>= f) ↔
      P.ok g c ∧ ∀ r, P.Obeys post (P.next g c r) (f r) := by
  rw [obeys_bind, obeys_attempt, obeys_await]
  exact Iff.rfl

end Protocol

/-- Every command the program may issue is one of these. -/
def Prog.Only (only : C → Prop) : Prog C R α → Prop
  | .done _ => True
  | .thrown => True
  | .call c k => only c ∧ ∀ r, (k r).Only only

section Only

variable {only only' : C → Prop}

@[simp] theorem only_done (a : α) : (.done a : Prog C R α).Only only := trivial

@[simp] theorem only_thrown : (.thrown : Prog C R α).Only only := trivial

theorem only_call (c : C) (k : Option (R c) → Prog C R α) :
    (Prog.call c k).Only only ↔ only c ∧ ∀ r, (k r).Only only := Iff.rfl

theorem Prog.Only.mono (himp : ∀ c, only c → only' c) {p : Prog C R α} (h : p.Only only) :
    p.Only only' := by
  induction p with
  | done a => trivial
  | thrown => trivial
  | call c k ih => exact ⟨himp c h.1, fun r => ih r (h.2 r)⟩

theorem Prog.Only.bind {p : Prog C R α} {f : α → Prog C R β} (h : p.Only only)
    (hf : ∀ a, (f a).Only only) : (p >>= f).Only only := by
  induction p with
  | done a => exact hf a
  | thrown => trivial
  | call c k ih => exact ⟨h.1, fun r => ih r (h.2 r)⟩

@[simp] theorem only_attempt {p : Prog C R α} : p.attempt.Only only ↔ p.Only only := by
  induction p with
  | done a => exact Iff.rfl
  | thrown => exact Iff.rfl
  | call c k ih =>
    rw [Prog.attempt, only_call, only_call]
    exact and_congr_right fun _ => forall_congr' fun r => ih r

@[simp] theorem only_await {c : C} : (Prog.await c : Prog C R (R c)).Only only ↔ only c := by
  rw [Prog.await, only_call]
  constructor
  · exact And.left
  · intro h
    refine ⟨h, fun r => ?_⟩
    cases r <;> trivial

theorem only_await_bind {c : C} {f : R c → Prog C R β} (hc : only c)
    (hf : ∀ r, (f r).Only only) : (Prog.await c >>= f).Only only :=
  Prog.Only.bind (only_await.mpr hc) hf

end Only

/-- Every command is one of these, and one that throws ends the program. -/
def Prog.Straight (only : C → Prop) : Prog C R α → Prop
  | .done _ => True
  | .thrown => True
  | .call c k => only c ∧ k none = .thrown ∧ ∀ r, (k (some r)).Straight only

section Straight

variable {only : C → Prop}

@[simp] theorem straight_done (a : α) : (.done a : Prog C R α).Straight only := trivial

@[simp] theorem straight_thrown : (.thrown : Prog C R α).Straight only := trivial

theorem straight_await {c : C} (hc : only c) : (Prog.await c : Prog C R (R c)).Straight only :=
  ⟨hc, rfl, fun _ => trivial⟩

theorem Prog.Straight.bind {p : Prog C R α} {f : α → Prog C R β} (h : p.Straight only)
    (hf : ∀ a, (f a).Straight only) : (p >>= f).Straight only := by
  induction p with
  | done a => exact hf a
  | thrown => trivial
  | call c k ih =>
    obtain ⟨hc, hthrown, hsome⟩ := h
    refine ⟨hc, ?_, fun r => ih (some r) (hsome r)⟩
    show (k none >>= f) = .thrown
    rw [hthrown, Prog.thrown_bind]

theorem straight_await_bind {c : C} {f : R c → Prog C R β} (hc : only c)
    (hf : ∀ r, (f r).Straight only) : (Prog.await c >>= f).Straight only :=
  (straight_await hc).bind hf

theorem Prog.Straight.toOnly {p : Prog C R α} (h : p.Straight only) : p.Only only := by
  induction p with
  | done a => trivial
  | thrown => trivial
  | call c k ih =>
    obtain ⟨hc, hthrown, hsome⟩ := h
    refine ⟨hc, fun r => ?_⟩
    cases r with
    | none =>
      rw [hthrown]
      trivial
    | some r => exact ih (some r) (hsome r)

/-- Commands that keep a phase when they are answered; without an answer the
program ends where `post` allows it. -/
theorem Protocol.Obeys.straight_bind {P : Protocol C R γ} {g : γ} {post : γ → Option β → Prop}
    {p : Prog C R α} {f : α → Prog C R β} (h : p.Straight only)
    (hok : ∀ c, only c → P.ok g c ∧ ∀ r, P.next g c (some r) = g)
    (hnone : ∀ c, only c → post (P.next g c none) none) (hthrown : post g none)
    (hf : ∀ a, P.Obeys post g (f a)) : P.Obeys post g (p >>= f) := by
  induction p with
  | done a => exact hf a
  | thrown => exact hthrown
  | call c k ih =>
    obtain ⟨hc, hend, hsome⟩ := h
    refine ⟨(hok c hc).1, fun r => ?_⟩
    cases r with
    | none =>
      show P.Obeys post (P.next g c none) (k none >>= f)
      rw [hend, Prog.thrown_bind]
      exact hnone c hc
    | some r =>
      rw [(hok c hc).2]
      exact ih (some r) (hsome r)

end Straight

/-- A program whose commands are allowed in a phase and keep it obeys the
protocol there if every result does. -/
theorem Protocol.Obeys.of_only {P : Protocol C R γ} {g : γ} {post : γ → Option α → Prop}
    {p : Prog C R α} {only : C → Prop} (h : p.Only only)
    (hok : ∀ c, only c → P.ok g c ∧ ∀ r, P.next g c r = g) (hpost : ∀ a, post g a) :
    P.Obeys post g p := by
  induction p with
  | done a => exact hpost _
  | thrown => exact hpost _
  | call c k ih =>
    refine ⟨(hok c h.1).1, fun r => ?_⟩
    rw [(hok c h.1).2 r]
    exact ih r (h.2 r)

/-- The same for a first part and whatever follows it. -/
theorem Protocol.Obeys.only_bind {P : Protocol C R γ} {g : γ} {post : γ → Option β → Prop}
    {p : Prog C R α} {f : α → Prog C R β} {only : C → Prop} (h : p.Only only)
    (hok : ∀ c, only c → P.ok g c ∧ ∀ r, P.next g c r = g) (hthrown : post g none)
    (hf : ∀ a, P.Obeys post g (f a)) : P.Obeys post g (p >>= f) := by
  rw [Protocol.obeys_bind]
  refine Protocol.Obeys.of_only h hok fun a => ?_
  cases a with
  | none => exact hthrown
  | some a => exact hf a

end Protocols

section Runs

variable {ι C : Type} {R : C → Type} {σ α ω ε γ : Type}

/-- How a store answers commands and how it moves by itself. What a command
takes from outside the store is part of the step. -/
structure Server (C : Type) (R : C → Type) (σ ω ε : Type) where
  perform : ω → (c : C) → σ → Option (R c) × σ
  drift : ε → σ → Option σ

/-- A command is executed and answered, refused, or executed without an answer. -/
inductive Outcome
  | answered
  | refused
  | lost
  deriving DecidableEq

/-- A store whose commands may also fail. -/
def Server.faulty (S : Server C R σ ω ε) : Server C R σ (Outcome × ω) ε where
  perform w c s :=
    match w.1 with
    | .answered => S.perform w.2 c s
    | .refused => (none, s)
    | .lost => (none, (S.perform w.2 c s).2)
  drift := S.drift

/-- A command that fails has been executed or not. -/
theorem Server.faulty_store {S : Server C R σ ω ε} (w : Outcome × ω) (c : C) (s : σ) :
    (S.faulty.perform w c s).2 = s ∨ (S.faulty.perform w c s).2 = (S.perform w.2 c s).2 := by
  obtain ⟨outcome, w⟩ := w
  cases outcome with
  | answered => exact .inr rfl
  | refused => exact .inl rfl
  | lost => exact .inr rfl

/-- One that is answered has been executed. -/
theorem Server.faulty_reply {S : Server C R σ ω ε} {w : Outcome × ω} {c : C} {s : σ} {r : R c}
    (h : (S.faulty.perform w c s).1 = some r) : (S.perform w.2 c s).1 = some r := by
  obtain ⟨outcome, w⟩ := w
  cases outcome with
  | answered => exact h
  | refused => cases h
  | lost => cases h

structure Entry (ι C : Type) (R : C → Type) where
  who : ι
  command : C
  reply : Option (R command)

/-- The store, every command executed so far and what is left of each request. -/
structure Config (ι C : Type) (R : C → Type) (σ α : Type) where
  store : σ
  log : List (Entry ι C R)
  requests : ι → Prog C R α

inductive Move (ι ω ε : Type)
  | act (i : ι) (w : ω)
  | drift (e : ε)

variable [DecidableEq ι]

def Config.resume (cfg : Config ι C R σ α) (i : ι) (c : C) (k : Option (R c) → Prog C R α)
    (answer : Option (R c) × σ) : Config ι C R σ α where
  store := answer.2
  log := cfg.log ++ [⟨i, c, answer.1⟩]
  requests := Function.update cfg.requests i (k answer.1)

@[simp] theorem Config.resume_self (cfg : Config ι C R σ α) (i : ι) (c : C)
    (k : Option (R c) → Prog C R α) (answer : Option (R c) × σ) :
    (cfg.resume i c k answer).requests i = k answer.1 := Function.update_self ..

theorem Config.resume_other (cfg : Config ι C R σ α) {i j : ι} (hj : j ≠ i) (c : C)
    (k : Option (R c) → Prog C R α) (answer : Option (R c) × σ) :
    (cfg.resume i c k answer).requests j = cfg.requests j := Function.update_of_ne hj _ _

def Server.step (S : Server C R σ ω ε) (cfg : Config ι C R σ α) :
    Move ι ω ε → Option (Config ι C R σ α)
  | .act i w =>
    match cfg.requests i with
    | .call c k => some (cfg.resume i c k (S.perform w c cfg.store))
    | .done _ => none
    | .thrown => none
  | .drift e => (S.drift e cfg.store).map fun s => { cfg with store := s }

/-- Runs in which every request starts with its own program and nothing has been
executed yet. -/
def Server.system (S : Server C R σ ω ε) (initial : σ → Prop) (programs : ι → Prog C R α) :
    System (Config ι C R σ α) (Move ι ω ε) where
  initial cfg := initial cfg.store ∧ cfg.log = [] ∧ cfg.requests = programs
  step cfg m cfg' := S.step cfg m = some cfg'

theorem Server.step_act {S : Server C R σ ω ε} {cfg cfg' : Config ι C R σ α} {i : ι} {w : ω}
    (h : S.step cfg (.act i w) = some cfg') :
    ∃ c k, cfg.requests i = .call c k ∧ cfg' = cfg.resume i c k (S.perform w c cfg.store) := by
  unfold Server.step at h
  cases hprog : cfg.requests i with
  | done a => simp [hprog] at h
  | thrown => simp [hprog] at h
  | call c k =>
    simp only [hprog, Option.some.injEq] at h
    exact ⟨c, k, rfl, h.symm⟩

theorem Server.step_drift {S : Server C R σ ω ε} {cfg cfg' : Config ι C R σ α} {e : ε}
    (h : S.step cfg (.drift e) = some cfg') :
    ∃ s, S.drift e cfg.store = some s ∧ cfg' = { cfg with store := s } := by
  obtain ⟨s, hs, hcfg⟩ := Option.map_eq_some_iff.mp h
  exact ⟨s, hs, hcfg.symm⟩

/-- Moves computed one after another are a run. -/
theorem Server.exec_of_moves {S : Server C R σ ω ε} {start cfg : Config ι C R σ α}
    {moves : List (Move ι ω ε)} (h : moves.foldlM S.step start = some cfg)
    (initial : σ → Prop) (programs : ι → Prog C R α) :
    ∃ trace, Exec (S.system initial programs) start trace cfg :=
  exec_of_foldlM (fun _ _ _ hstep => hstep) moves h

/-- The phase a request has reached through its own entries of the log. -/
def Protocol.view (P : Protocol C R γ) (start : γ) (i : ι) (log : List (Entry ι C R)) : γ :=
  (log.filter fun e => decide (e.who = i)).foldl (fun g e => P.next g e.command e.reply) start

@[simp] theorem Protocol.view_nil (P : Protocol C R γ) (start : γ) (i : ι) :
    P.view start i [] = start := rfl

theorem Protocol.view_self (P : Protocol C R γ) (start : γ) (i : ι) (log : List (Entry ι C R))
    (c : C) (r : Option (R c)) :
    P.view start i (log ++ [⟨i, c, r⟩]) = P.next (P.view start i log) c r := by
  simp [Protocol.view, List.filter_append]

theorem Protocol.view_other (P : Protocol C R γ) (start : γ) {i j : ι}
    (log : List (Entry ι C R)) (c : C) (r : Option (R c)) (h : i ≠ j) :
    P.view start j (log ++ [⟨i, c, r⟩]) = P.view start j log := by
  simp [Protocol.view, List.filter_append, h]

/-- The request has been in one of these phases. -/
def Protocol.Passed (P : Protocol C R γ) (start : γ) (Q : γ → Prop) (i : ι)
    (log : List (Entry ι C R)) : Prop :=
  ∃ earlier later, log = earlier ++ later ∧ Q (P.view start i earlier)

theorem Protocol.not_passed_nil (P : Protocol C R γ) {start : γ} {Q : γ → Prop}
    (hstart : ¬ Q start) (i : ι) : ¬ P.Passed start Q i [] := by
  rintro ⟨earlier, later, heq, hQ⟩
  obtain ⟨rfl, -⟩ := List.append_eq_nil_iff.mp heq.symm
  exact hstart hQ

theorem Protocol.passed_append (P : Protocol C R γ) {start : γ} {Q : γ → Prop} {i : ι}
    {log : List (Entry ι C R)} {e : Entry ι C R} (h : P.Passed start Q i (log ++ [e])) :
    P.Passed start Q i log ∨ Q (P.view start i (log ++ [e])) := by
  obtain ⟨earlier, later, heq, hQ⟩ := h
  rcases List.eq_nil_or_concat later with rfl | ⟨init, last, rfl⟩
  · rw [List.append_nil] at heq
    exact .inr (heq ▸ hQ)
  · rw [List.concat_eq_append, ← List.append_assoc] at heq
    exact .inl ⟨earlier, init, (List.append_inj' heq rfl).1, hQ⟩

/-- A step passes nothing new unless it leads into one of the phases from outside. -/
theorem Protocol.passed_of_append {P : ι → Protocol C R γ} {start : ι → γ} {Q : γ → Prop}
    {i j : ι} {log : List (Entry ι C R)} {c : C} {r : Option (R c)}
    (hback : Q ((P i).next ((P i).view (start i) i log) c r) → Q ((P i).view (start i) i log))
    (h : (P j).Passed (start j) Q j (log ++ [⟨i, c, r⟩])) : (P j).Passed (start j) Q j log := by
  rcases (P j).passed_append h with hold | hnew
  · exact hold
  · by_cases hij : i = j
    · subst hij
      rw [Protocol.view_self] at hnew
      exact ⟨log, [], (List.append_nil _).symm, hback hnew⟩
    · rw [Protocol.view_other _ _ _ _ _ hij] at hnew
      exact ⟨log, [], (List.append_nil _).symm, hnew⟩

/-- And at most one request more. -/
theorem Protocol.passed_of_append_other {P : ι → Protocol C R γ} {start : ι → γ} {Q : γ → Prop}
    {i j : ι} (hij : i ≠ j) {log : List (Entry ι C R)} {c : C} {r : Option (R c)}
    (h : (P j).Passed (start j) Q j (log ++ [⟨i, c, r⟩])) : (P j).Passed (start j) Q j log := by
  rcases (P j).passed_append h with hold | hnew
  · exact hold
  · rw [Protocol.view_other _ _ _ _ _ hij] at hnew
    exact ⟨log, [], (List.append_nil _).symm, hnew⟩

/-- A set of phases is entered by one of the request's own commands. -/
theorem Protocol.view_entered (P : Protocol C R γ) {Q : γ → Prop} {start : γ}
    (hstart : ¬ Q start) {i : ι} {log : List (Entry ι C R)} (h : Q (P.view start i log)) :
    ∃ e ∈ log, e.who = i ∧ ∃ g, ¬ Q g ∧ Q (P.next g e.command e.reply) := by
  induction log using List.reverseRecOn with
  | nil => exact absurd h hstart
  | append_singleton log e ih =>
    obtain ⟨who, c, r⟩ := e
    by_cases hwho : who = i
    · subst hwho
      rw [Protocol.view_self] at h
      by_cases hbefore : Q (P.view start who log)
      · obtain ⟨e, he, hrest⟩ := ih hbefore
        exact ⟨e, List.mem_append_left _ he, hrest⟩
      · exact ⟨_, List.mem_append_right _ (List.mem_singleton_self _), rfl, _, hbefore, h⟩
    · rw [Protocol.view_other _ _ _ _ _ hwho] at h
      obtain ⟨e, he, hrest⟩ := ih h
      exact ⟨e, List.mem_append_left _ he, hrest⟩

/-- A request that keeps to its protocol at the start keeps to it throughout. -/
theorem Server.obeys_step {S : Server C R σ ω ε} {P : ι → Protocol C R γ} {start : ι → γ}
    {post : ι → γ → Option α → Prop} {cfg cfg' : Config ι C R σ α} {m : Move ι ω ε}
    (hstep : S.step cfg m = some cfg')
    (h : ∀ i, (P i).Obeys (post i) ((P i).view (start i) i cfg.log) (cfg.requests i)) (i : ι) :
    (P i).Obeys (post i) ((P i).view (start i) i cfg'.log) (cfg'.requests i) := by
  cases m with
  | drift e =>
    obtain ⟨s, -, rfl⟩ := Server.step_drift hstep
    exact h i
  | act j w =>
    obtain ⟨c, k, hprog, rfl⟩ := Server.step_act hstep
    by_cases hij : i = j
    · subst hij
      have hi := h i
      rw [hprog] at hi
      rw [Config.resume_self, Config.resume, Protocol.view_self]
      exact hi.2 _
    · rw [Config.resume_other _ hij, Config.resume, Protocol.view_other _ _ _ _ _ (Ne.symm hij)]
      exact h i

end Runs

end Interleaving
