import DreamSso.Library.Transitions
import Mathlib.Data.Set.Card

/-!
Attempts counted in windows of fixed length. The first attempt opens a window,
each attempt of the window takes a slot before it is evaluated, and the window
closes when its time is over or when it is cleared. If a window is cleared only
while no slot of it is taken, and time closes it only when every slot taken has
been evaluated, then no period that begins with an opening sees more evaluations
than a window has slots.
-/
namespace AttemptWindows

open Transitions

variable {ι : Type} {W : ℤ} {cap : ℕ}

inductive Mark
  | opened
  | evaluated
  deriving DecidableEq

/-- The open window with the time it was opened and the slots taken in it, what has
happened and when, and who has a slot but has not been evaluated. -/
@[ext] structure Tally (ι : Type) where
  clock : ℤ
  window : Option (ℤ × ℕ)
  history : List (Mark × ℤ)
  reserved : Set ι

/-- The slots taken in the open window. -/
def Tally.slots (s : Tally ι) : ℕ := (s.window.map Prod.snd).getD 0

/-- Who has a slot after an attempt that takes one, or does not need it. -/
def reserve (takes : Bool) (i : ι) (reserved : Set ι) : Set ι :=
  if takes then insert i reserved else reserved

inductive Step (W : ℤ) (cap : ℕ) (s : Tally ι) : Tally ι → Prop
  | idle : Step W cap s s
  | start (i : ι) (takes : Bool) (hclosed : s.window = none) : Step W cap s { s with
      window := some (s.clock, takes.toNat)
      history := s.history ++ [(.opened, s.clock)]
      reserved := reserve takes i s.reserved }
  | join (i : ι) (takes : Bool) (t : ℤ) (u : ℕ) (hopen : s.window = some (t, u)) (hu : u < cap) :
      Step W cap s { s with
        window := some (t, u + takes.toNat)
        reserved := reserve takes i s.reserved }
  | evaluate (i : ι) (hi : i ∈ s.reserved) : Step W cap s { s with
      history := s.history ++ [(.evaluated, s.clock)]
      reserved := s.reserved \ {i} }
  | clear (t : ℤ) (hopen : s.window = some (t, 0)) : Step W cap s { s with window := none }
  | pass (d : ℕ) (hlasts : ∀ t u, s.window = some (t, u) → s.clock + d < t + W) :
      Step W cap s { s with clock := s.clock + d }
  | lapse (d : ℕ) (t : ℤ) (u : ℕ) (hopen : s.window = some (t, u)) (hover : t + W ≤ s.clock + d)
      (hquiet : s.reserved = ∅) : Step W cap s { s with
        clock := s.clock + d
        window := none }

/-- An evaluation in the period that begins at the given time. -/
def within (W t : ℤ) (m : Mark × ℤ) : Bool := decide (m.1 = .evaluated) && decide (m.2 < t + W)

/-- While a period is not over, its evaluations and the slots still to be evaluated
fit in the open window. -/
structure Inv (W : ℤ) (cap : ℕ) (s : Tally ι) : Prop where
  past : ∀ m ∈ s.history, m.2 ≤ s.clock
  closed : s.window = none → s.reserved = ∅
  lasting : ∀ t u, s.window = some (t, u) → s.clock < t + W ∧ u ≤ cap
  latest : ∀ t u, s.window = some (t, u) →
    (Mark.opened, t) ∈ s.history ∧ ∀ t', (Mark.opened, t') ∈ s.history → t' ≤ t
  bounded : ∀ first t later, s.history = first ++ (.opened, t) :: later →
    later.countP (within W t) ≤ cap
  counted : ∀ first t later, s.history = first ++ (.opened, t) :: later → s.clock < t + W →
    ((later.countP (within W t) : ℕ) : ℕ∞) + s.reserved.encard ≤ s.slots

theorem encard_reserve_le (takes : Bool) (i : ι) (reserved : Set ι) :
    (reserve takes i reserved).encard ≤ reserved.encard + (takes.toNat : ℕ∞) := by
  cases takes with
  | true => exact Set.encard_insert_le reserved i
  | false => exact le_self_add

theorem Tally.slots_of_window {s : Tally ι} {t : ℤ} {u : ℕ} (h : s.window = some (t, u)) :
    s.slots = u := by rw [Tally.slots, h, Option.map_some, Option.getD_some]

theorem Tally.slots_of_closed {s : Tally ι} (h : s.window = none) : s.slots = 0 := by
  rw [Tally.slots, h, Option.map_none, Option.getD_none]

variable {s s' : Tally ι}

theorem Inv.start (h : Inv W cap s) (hW : 0 < W) (hcap : 0 < cap) (i : ι) (takes : Bool)
    (hclosed : s.window = none) : Inv W cap { s with
      window := some (s.clock, takes.toNat)
      history := s.history ++ [(.opened, s.clock)]
      reserved := reserve takes i s.reserved } where
  past m hm := by
    rcases List.mem_append.mp hm with hold | hnew
    · exact h.past m hold
    · rw [List.mem_singleton.mp hnew]
  closed hnone := by cases hnone
  lasting t u hwin := by
    cases hwin
    have hone := takes.toNat_le
    refine ⟨?_, ?_⟩
    · show s.clock < s.clock + W
      omega
    · omega
  latest t u hwin := by
    cases hwin
    refine ⟨List.mem_append_right _ (List.mem_singleton_self _), fun t' ht' => ?_⟩
    rcases List.mem_append.mp ht' with hold | hnew
    · exact h.past _ hold
    · cases List.mem_singleton.mp hnew
      exact le_refl _
  bounded first t later heq := by
    rcases split_append heq with ⟨rest, hrest, rfl⟩ | ⟨-, -, rfl⟩
    · rw [List.countP_append]
      exact h.bounded first t rest hrest
    · exact Nat.zero_le _
  counted first t later heq hclock := by
    have hnobody : (reserve takes i s.reserved).encard ≤ (takes.toNat : ℕ∞) := by
      have hle := encard_reserve_le takes i s.reserved
      rw [h.closed hclosed, Set.encard_empty, zero_add] at hle
      rw [h.closed hclosed]
      exact hle
    have hnone : later.countP (within W t) = 0 := by
      rcases split_append heq with ⟨rest, hrest, rfl⟩ | ⟨-, -, rfl⟩
      · have hcount := h.counted first t rest hrest hclock
        rw [Tally.slots_of_closed hclosed, Nat.cast_zero] at hcount
        rw [List.countP_append]
        exact Nat.cast_eq_zero.mp (le_antisymm (le_self_add.trans hcount) zero_le)
      · rfl
    rw [hnone, Nat.cast_zero, zero_add]
    exact hnobody

theorem Inv.join (h : Inv W cap s) (i : ι) (takes : Bool) {t : ℤ} {u : ℕ}
    (hopen : s.window = some (t, u)) (hu : u < cap) : Inv W cap { s with
      window := some (t, u + takes.toNat)
      reserved := reserve takes i s.reserved } where
  past := h.past
  closed hnone := by cases hnone
  lasting t' u' hwin := by
    cases hwin
    have hone := takes.toNat_le
    exact ⟨(h.lasting t u hopen).1, by omega⟩
  latest t' u' hwin := by
    cases hwin
    exact h.latest t u hopen
  bounded := h.bounded
  counted first t' later heq hclock := by
    have hcount := h.counted first t' later heq hclock
    rw [Tally.slots_of_window hopen] at hcount
    calc ((later.countP (within W t') : ℕ) : ℕ∞) + (reserve takes i s.reserved).encard
        ≤ (later.countP (within W t') : ℕ) + (s.reserved.encard + (takes.toNat : ℕ∞)) := by
          gcongr
          exact encard_reserve_le takes i s.reserved
      _ = (later.countP (within W t') : ℕ) + s.reserved.encard + (takes.toNat : ℕ∞) :=
          (add_assoc _ _ _).symm
      _ ≤ (u : ℕ∞) + (takes.toNat : ℕ∞) := by gcongr
      _ = ((u + takes.toNat : ℕ) : ℕ∞) := (Nat.cast_add u takes.toNat).symm

theorem Inv.evaluate (h : Inv W cap s) {i : ι} (hi : i ∈ s.reserved) : Inv W cap { s with
      history := s.history ++ [(.evaluated, s.clock)]
      reserved := s.reserved \ {i} } := by
  have hcounted : ∀ first t later, s.history ++ [(.evaluated, s.clock)] =
      first ++ (.opened, t) :: later → s.clock < t + W →
      ((later.countP (within W t) : ℕ) : ℕ∞) + (s.reserved \ {i}).encard ≤ s.slots := by
    intro first t later heq hclock
    rcases split_append heq with ⟨rest, hrest, rfl⟩ | ⟨-, hmark, -⟩
    · have hone : [(Mark.evaluated, s.clock)].countP (within W t) ≤ 1 := List.countP_le_length
      calc (((rest ++ [(Mark.evaluated, s.clock)]).countP (within W t) : ℕ) : ℕ∞) +
            (s.reserved \ {i}).encard
          ≤ ((rest.countP (within W t) + 1 : ℕ) : ℕ∞) + (s.reserved \ {i}).encard := by
            rw [List.countP_append]
            gcongr
        _ = (rest.countP (within W t) : ℕ) + ((s.reserved \ {i}).encard + 1) := by
            rw [Nat.cast_add, Nat.cast_one, add_assoc, add_comm 1]
        _ = (rest.countP (within W t) : ℕ) + s.reserved.encard := by
            rw [Set.encard_sdiff_singleton_add_one hi]
        _ ≤ s.slots := h.counted first t rest hrest hclock
    · cases hmark
  refine ⟨?_, ?_, h.lasting, ?_, ?_, hcounted⟩
  · intro m hm
    rcases List.mem_append.mp hm with hold | hnew
    · exact h.past m hold
    · rw [List.mem_singleton.mp hnew]
  · intro hclosed
    rw [h.closed hclosed] at hi
    exact hi.elim
  · intro t u hopen
    refine ⟨List.mem_append_left _ (h.latest t u hopen).1, fun t' ht' => ?_⟩
    rcases List.mem_append.mp ht' with hold | hnew
    · exact (h.latest t u hopen).2 t' hold
    · cases List.mem_singleton.mp hnew
  · intro first t later heq
    by_cases hclock : s.clock < t + W
    · -- the period is not over: the slots of the open window bound it
      have hslots : s.slots ≤ cap := by
        cases hwin : s.window with
        | none =>
          rw [Tally.slots_of_closed hwin]
          exact Nat.zero_le _
        | some w =>
          rw [Tally.slots_of_window hwin]
          exact (h.lasting w.1 w.2 hwin).2
      exact (Nat.cast_le.mp (le_self_add.trans (hcounted first t later heq hclock))).trans hslots
    · rcases split_append heq with ⟨rest, hrest, rfl⟩ | ⟨-, hmark, -⟩
      · have hafter : within W t (Mark.evaluated, s.clock) = false := by
          rw [within, decide_eq_false hclock, Bool.and_false]
        rw [List.countP_append, List.countP_singleton, hafter]
        exact h.bounded first t rest hrest
      · cases hmark

theorem Inv.clear (h : Inv W cap s) {t : ℤ} (hopen : s.window = some (t, 0)) :
    Inv W cap { s with window := none } := by
  have hnone : ∀ first t' later, s.history = first ++ (.opened, t') :: later → s.clock < t' + W →
      ((later.countP (within W t') : ℕ) : ℕ∞) + s.reserved.encard ≤ 0 := by
    intro first t' later heq hclock
    have hcount := h.counted first t' later heq hclock
    rw [Tally.slots_of_window hopen, Nat.cast_zero] at hcount
    exact hcount
  obtain ⟨first, later, heq⟩ := List.append_of_mem (h.latest t 0 hopen).1
  have hnobody : s.reserved = ∅ := by
    have hle := hnone first t later heq (h.lasting t 0 hopen).1
    exact Set.encard_eq_zero.mp (le_antisymm (le_add_self.trans hle) zero_le)
  exact ⟨h.past, fun _ => hnobody, (fun _ _ hwin => by cases hwin), (fun _ _ hwin => by cases hwin),
    h.bounded, hnone⟩

theorem Inv.pass (h : Inv W cap s) (d : ℕ)
    (hlasts : ∀ t u, s.window = some (t, u) → s.clock + d < t + W) :
    Inv W cap { s with clock := s.clock + d } where
  past m hm := by
    have := h.past m hm
    show m.2 ≤ s.clock + d
    omega
  closed := h.closed
  lasting t u hopen := ⟨hlasts t u hopen, (h.lasting t u hopen).2⟩
  latest := h.latest
  bounded := h.bounded
  counted first t later heq hclock := by
    have hbefore : s.clock < t + W := by
      have hafter : s.clock + d < t + W := hclock
      omega
    exact h.counted first t later heq hbefore

theorem Inv.lapse (h : Inv W cap s) (d : ℕ) {t : ℤ} {u : ℕ} (hopen : s.window = some (t, u))
    (hover : t + W ≤ s.clock + d) (hquiet : s.reserved = ∅) : Inv W cap { s with
      clock := s.clock + d
      window := none } where
  past m hm := by
    have := h.past m hm
    show m.2 ≤ s.clock + d
    omega
  closed _ := hquiet
  lasting t' u' hwin := by cases hwin
  latest t' u' hwin := by cases hwin
  bounded := h.bounded
  counted first t' later heq hclock := by
    -- every period that has begun is over with the window opened last
    have hle := (h.latest t u hopen).2 t' (heq ▸ List.mem_append_right _ List.mem_cons_self)
    have hafter : s.clock + d < t' + W := hclock
    omega

/-- Every step keeps the invariant. -/
theorem Inv.step (h : Inv W cap s) (hW : 0 < W) (hcap : 0 < cap) (hstep : Step W cap s s') :
    Inv W cap s' := by
  cases hstep with
  | idle => exact h
  | start i takes hclosed => exact h.start hW hcap i takes hclosed
  | join i takes t u hopen hu => exact h.join i takes hopen hu
  | evaluate i hi => exact h.evaluate hi
  | clear t hopen => exact h.clear hopen
  | pass d hlasts => exact h.pass d hlasts
  | lapse d t u hopen hover hquiet => exact h.lapse d hopen hover hquiet

/-- Before the first attempt. -/
theorem Inv.initial {clock : ℤ} : Inv W cap (⟨clock, none, [], ∅⟩ : Tally ι) where
  past m hm := by cases hm
  closed _ := rfl
  lasting t u hwin := by cases hwin
  latest t u hwin := by cases hwin
  bounded first t later heq := by
    have := congrArg List.length heq
    simp at this
  counted first t later heq := by
    have := congrArg List.length heq
    simp at this

end AttemptWindows
