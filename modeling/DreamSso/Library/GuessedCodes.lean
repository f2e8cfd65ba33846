import Mathlib.Data.Set.Card
import Mathlib.Logic.Function.Basic

/-!
A place that holds one secret code at a time, with a counter of wrong guesses.
Codes are numbered as they are generated. A guess is compared with the code in
memory and settled by a later write: a wrong one stores the counter it read plus
one, a right one empties the place. If no guess is compared and no code generated
while another guess has still to be settled, each code is guessed wrongly at most
as often as the cap allows and accepted at most once, while it is in place.
-/
namespace GuessedCodes

/-- What a request has done with a guess. -/
inductive Stage
  | before
  | compared (serial attempts : ℕ) (matched : Bool)
  | failed (serial : ℕ)
  | accepted (serial : ℕ)
  | ended
  deriving DecidableEq

namespace Stage

def pending : Stage → Bool
  | compared _ _ _ => true
  | _ => false

def serial? : Stage → Option ℕ
  | compared n _ _ => some n
  | failed n => some n
  | accepted n => some n
  | _ => none

end Stage

/-- The number and the counter of the code in place, and how many were generated. -/
structure Slot where
  current : Option (ℕ × ℕ)
  minted : ℕ

def Slot.mint (s : Slot) : Slot := ⟨some (s.minted, 0), s.minted + 1⟩

def Slot.empty (s : Slot) : Slot := ⟨none, s.minted⟩

def Slot.setAttempts (s : Slot) (attempts : ℕ) : Slot :=
  ⟨s.current.map fun c => (c.1, attempts), s.minted⟩

variable {ι : Type*} [DecidableEq ι]

/-- The steps, each with the condition under which nothing is lost. -/
inductive Step (cap : ℕ) (s : Slot) (v : ι → Stage) : Slot → (ι → Stage) → Prop
  | idle : Step cap s v s v
  | mint (hquiet : ∀ j, (v j).pending = false) : Step cap s v s.mint v
  | dismiss (i : ι) (hi : v i = .before) : Step cap s v s (Function.update v i .ended)
  | compare (i : ι) (n a : ℕ) (matched : Bool) (hi : v i = .before)
      (hcurrent : s.current = some (n, a)) (ha : a < cap) (hquiet : ∀ j, (v j).pending = false) :
      Step cap s v s (Function.update v i (.compared n a matched))
  | accept (i : ι) (n a : ℕ) (hi : v i = .compared n a true) :
      Step cap s v s.empty (Function.update v i (.accepted n))
  | fail (i : ι) (n a : ℕ) (hi : v i = .compared n a false) :
      Step cap s v (s.setAttempts (a + 1)) (Function.update v i (.failed n))

/-- The requests whose guess of a code was wrong. -/
def wrong (v : ι → Stage) (n : ℕ) : Set ι := {i | v i = .failed n}

/-- A pending guess is alone and its code is in place as it was read. -/
structure Inv (cap : ℕ) (s : Slot) (v : ι → Stage) : Prop where
  numbered : ∀ n a, s.current = some (n, a) → n < s.minted ∧ a ≤ cap
  known : ∀ i n, (v i).serial? = some n → n < s.minted
  inPlace : ∀ i n a matched, v i = .compared n a matched → s.current = some (n, a) ∧ a < cap
  alone : ∀ i j, (v i).pending = true → (v j).pending = true → i = j
  counted : ∀ n a, s.current = some (n, a) → (wrong v n).encard ≤ a
  capped : ∀ n, (wrong v n).encard ≤ cap
  gone : ∀ i n, v i = .accepted n → ∀ a, s.current ≠ some (n, a)
  once : ∀ i j n, v i = .accepted n → v j = .accepted n → i = j

section Update

variable {v : ι → Stage} {i j : ι} {p : Stage} {n : ℕ}

/-- After a request's phase has changed, another one is found where it was. -/
theorem update_eq {q : Stage} (h : Function.update v i p j = q) :
    (j = i ∧ p = q) ∨ (j ≠ i ∧ v j = q) := by
  by_cases hij : j = i
  · subst hij
    rw [Function.update_self] at h
    exact .inl ⟨rfl, h⟩
  · rw [Function.update_of_ne hij] at h
    exact .inr ⟨hij, h⟩

theorem of_update {q : Stage} (hp : p ≠ q) (h : Function.update v i p j = q) : v j = q := by
  rcases update_eq h with ⟨-, hpq⟩ | ⟨-, hv⟩
  · exact absurd hpq hp
  · exact hv

theorem wrong_update (hp : p ≠ .failed n) : wrong (Function.update v i p) n ⊆ wrong v n := by
  exact fun j hj => of_update hp hj

theorem wrong_update_failed : wrong (Function.update v i p) n ⊆ insert i (wrong v n) := by
  intro j hj
  rcases update_eq hj with ⟨hij, -⟩ | ⟨-, hv⟩
  · exact .inl hij
  · exact .inr hv

end Update

variable {cap : ℕ} {s s' : Slot} {v v' : ι → Stage}

omit [DecidableEq ι] in
theorem wrong_before (n : ℕ) : wrong (fun _ : ι => .before) n = ∅ := by
  refine Set.eq_empty_of_forall_notMem fun i hi => ?_
  cases hi

omit [DecidableEq ι] in
theorem not_pending_compared (hquiet : ∀ j, (v j).pending = false) (i : ι) (n a : ℕ)
    (matched : Bool) : v i ≠ .compared n a matched := by
  intro h
  have := hquiet i
  rw [h] at this
  cases this

omit [DecidableEq ι] in
/-- Nobody has guessed yet. -/
theorem Inv.start (hnumbered : ∀ n a, s.current = some (n, a) → n < s.minted ∧ a ≤ cap) :
    Inv cap s (fun _ : ι => .before) where
  numbered := hnumbered
  known i n hi := by cases hi
  inPlace i n a matched hi := by cases hi
  alone i j hi := by cases hi
  counted n a _ := by
    rw [wrong_before, Set.encard_empty]
    exact zero_le
  capped n := by
    rw [wrong_before, Set.encard_empty]
    exact zero_le
  gone i n hi := by cases hi
  once i j n hi := by cases hi

omit [DecidableEq ι] in
theorem Inv.mint (h : Inv cap s v) (hquiet : ∀ j, (v j).pending = false) : Inv cap s.mint v where
  numbered n a hcur := by
    cases hcur
    exact ⟨Nat.lt_succ_self _, Nat.zero_le _⟩
  known i n hi := Nat.lt_succ_of_lt (h.known i n hi)
  inPlace i n a matched hi := absurd hi (not_pending_compared hquiet i n a matched)
  alone := h.alone
  counted n a hcur := by
    cases hcur
    -- nobody has guessed the new code yet
    have hnone : wrong v s.minted = ∅ := by
      refine Set.eq_empty_of_forall_notMem fun i hi => ?_
      have hlt := h.known i s.minted (congrArg Stage.serial? hi)
      omega
    rw [hnone, Set.encard_empty]
    exact zero_le
  capped := h.capped
  gone i n hi a hcur := by
    cases hcur
    have hlt := h.known i s.minted (congrArg Stage.serial? hi)
    omega
  once := h.once

/-- A request that enters a phase without a code. -/
theorem Inv.dismiss (h : Inv cap s v) (i : ι) : Inv cap s (Function.update v i .ended) where
  numbered := h.numbered
  known j n hj := by
    by_cases hij : j = i
    · subst hij
      rw [Function.update_self] at hj
      cases hj
    · rw [Function.update_of_ne hij] at hj
      exact h.known j n hj
  inPlace j n a matched hj := by
    rcases update_eq hj with ⟨-, hp⟩ | ⟨-, hv⟩
    · cases hp
    · exact h.inPlace j n a matched hv
  alone j k hj hk := by
    have hback : ∀ l, (Function.update v i .ended l).pending = true → (v l).pending = true := by
      intro l hl
      by_cases hil : l = i
      · subst hil
        rw [Function.update_self] at hl
        cases hl
      · rw [Function.update_of_ne hil] at hl
        exact hl
    exact h.alone j k (hback j hj) (hback k hk)
  counted n a hcur :=
    (Set.encard_le_encard (wrong_update fun hp => by cases hp)).trans (h.counted n a hcur)
  capped n := (Set.encard_le_encard (wrong_update fun hp => by cases hp)).trans (h.capped n)
  gone j n hj := h.gone j n (of_update Stage.noConfusion hj)
  once j k n hj hk := h.once j k n (of_update Stage.noConfusion hj) (of_update Stage.noConfusion hk)

theorem Inv.compare (h : Inv cap s v) (i : ι) {n a : ℕ} {matched : Bool}
    (hcurrent : s.current = some (n, a)) (ha : a < cap) (hquiet : ∀ j, (v j).pending = false) :
    Inv cap s (Function.update v i (.compared n a matched)) where
  numbered := h.numbered
  known j m hj := by
    by_cases hij : j = i
    · subst hij
      rw [Function.update_self] at hj
      cases hj
      exact (h.numbered n a hcurrent).1
    · rw [Function.update_of_ne hij] at hj
      exact h.known j m hj
  inPlace j m b matched' hj := by
    rcases update_eq hj with ⟨-, hp⟩ | ⟨-, hv⟩
    · cases hp
      exact ⟨hcurrent, ha⟩
    · exact absurd hv (not_pending_compared hquiet j m b matched')
  alone j k hj hk := by
    have honly : ∀ l, (Function.update v i (.compared n a matched) l).pending = true → l = i := by
      intro l hl
      by_contra hil
      rw [Function.update_of_ne hil, hquiet l] at hl
      cases hl
    rw [honly j hj, honly k hk]
  counted m b hcur :=
    (Set.encard_le_encard (wrong_update fun hp => by cases hp)).trans (h.counted m b hcur)
  capped m := (Set.encard_le_encard (wrong_update fun hp => by cases hp)).trans (h.capped m)
  gone j m hj := h.gone j m (of_update Stage.noConfusion hj)
  once j k m hj hk := h.once j k m (of_update Stage.noConfusion hj) (of_update Stage.noConfusion hk)

/-- Past the one pending guess nobody else is pending. -/
theorem Inv.settled (h : Inv cap s v) {i : ι} {n a : ℕ} {matched : Bool} {p : Stage}
    (hi : v i = .compared n a matched) (hp : p.pending = false) (j : ι) :
    (Function.update v i p j).pending = false := by
  by_cases hij : j = i
  · subst hij
    rw [Function.update_self]
    exact hp
  · rw [Function.update_of_ne hij]
    refine eq_false_of_ne_true fun hj => hij (h.alone j i hj ?_)
    rw [hi]
    rfl

theorem Inv.accept (h : Inv cap s v) {i : ι} {n a : ℕ} (hi : v i = .compared n a true) :
    Inv cap s.empty (Function.update v i (.accepted n)) where
  numbered m b hcur := by cases hcur
  known j m hj := by
    by_cases hij : j = i
    · subst hij
      rw [Function.update_self] at hj
      cases hj
      exact h.known j n (congrArg Stage.serial? hi)
    · rw [Function.update_of_ne hij] at hj
      exact h.known j m hj
  inPlace j m b matched hj :=
    absurd hj (not_pending_compared (h.settled hi rfl) j m b matched)
  alone j k hj _ := by
    rw [h.settled hi rfl j] at hj
    cases hj
  counted m b hcur := by cases hcur
  capped m := (Set.encard_le_encard (wrong_update fun hp => by cases hp)).trans (h.capped m)
  gone j m _ b hcur := by cases hcur
  once j k m hj hk := by
    -- the code was in place until now, so nobody had accepted it before
    have hfirst : ∀ l, v l ≠ .accepted n := fun l hl => h.gone l n hl a (h.inPlace i n a true hi).1
    rcases update_eq hj with ⟨hji, hp⟩ | ⟨-, hv⟩
    · cases hp
      rcases update_eq hk with ⟨hki, -⟩ | ⟨-, hw⟩
      · rw [hji, hki]
      · exact absurd hw (hfirst k)
    · rcases update_eq hk with ⟨-, hp⟩ | ⟨-, hw⟩
      · cases hp
        exact absurd hv (hfirst j)
      · exact h.once j k m hv hw

theorem Inv.fail (h : Inv cap s v) {i : ι} {n a : ℕ} (hi : v i = .compared n a false) :
    Inv cap (s.setAttempts (a + 1)) (Function.update v i (.failed n)) := by
  obtain ⟨hcurrent, ha⟩ := h.inPlace i n a false hi
  have hslot : ∀ m b, (s.setAttempts (a + 1)).current = some (m, b) → m = n ∧ b = a + 1 := by
    intro m b hcur
    rw [Slot.setAttempts, hcurrent] at hcur
    cases hcur
    exact ⟨rfl, rfl⟩
  have hone : (wrong (Function.update v i (.failed n)) n).encard ≤ ((a + 1 : ℕ) : ℕ∞) :=
    calc (wrong (Function.update v i (.failed n)) n).encard
        ≤ (insert i (wrong v n)).encard := Set.encard_le_encard wrong_update_failed
      _ ≤ (wrong v n).encard + 1 := Set.encard_insert_le _ _
      _ ≤ (a : ℕ∞) + 1 := add_le_add_left (h.counted n a hcurrent) 1
      _ = ((a + 1 : ℕ) : ℕ∞) := (Nat.cast_succ a).symm
  refine ⟨?_, ?_, ?_, ?_, ?_, ?_, ?_, ?_⟩
  · intro m b hcur
    obtain ⟨rfl, rfl⟩ := hslot m b hcur
    exact ⟨(h.numbered m a hcurrent).1, ha⟩
  · intro j m hj
    by_cases hij : j = i
    · subst hij
      rw [Function.update_self] at hj
      cases hj
      exact h.known j n (congrArg Stage.serial? hi)
    · rw [Function.update_of_ne hij] at hj
      exact h.known j m hj
  · intro j m b matched hj
    exact absurd hj (not_pending_compared (h.settled hi rfl) j m b matched)
  · intro j k hj _
    rw [h.settled hi rfl j] at hj
    cases hj
  · intro m b hcur
    obtain ⟨rfl, rfl⟩ := hslot m b hcur
    exact hone
  · intro m
    by_cases hm : m = n
    · subst hm
      exact hone.trans (Nat.cast_le.mpr ha)
    · exact (Set.encard_le_encard (wrong_update fun hp => hm (Stage.failed.inj hp).symm)).trans
        (h.capped m)
  · intro j m hj b hcur
    obtain ⟨rfl, rfl⟩ := hslot m b hcur
    exact h.gone j m (of_update Stage.noConfusion hj) a hcurrent
  · intro j k m hj hk
    exact h.once j k m (of_update Stage.noConfusion hj) (of_update Stage.noConfusion hk)

/-- Every step keeps the invariant. -/
theorem Inv.step (h : Inv cap s v) (hstep : Step cap s v s' v') : Inv cap s' v' := by
  cases hstep with
  | idle => exact h
  | mint hquiet => exact h.mint hquiet
  | dismiss i _ => exact h.dismiss i
  | compare i n a matched _ hcurrent ha hquiet => exact h.compare i hcurrent ha hquiet
  | accept i n a hi => exact h.accept hi
  | fail i n a hi => exact h.fail hi

omit [DecidableEq ι] in
/-- The guesses compared with a code and not matching it, settled or not. -/
theorem Inv.comparisons (h : Inv cap s v) (n : ℕ) :
    {i | v i = .failed n ∨ ∃ a, v i = .compared n a false}.encard ≤ cap := by
  by_cases hpending : ∃ i a, v i = .compared n a false
  · obtain ⟨i, a, hi⟩ := hpending
    obtain ⟨hcurrent, ha⟩ := h.inPlace i n a false hi
    have hsub : {i | v i = .failed n ∨ ∃ a, v i = .compared n a false} ⊆ insert i (wrong v n) := by
      rintro j (hj | ⟨b, hj⟩)
      · exact .inr hj
      · refine .inl (h.alone j i ?_ ?_)
        · rw [hj]
          rfl
        · rw [hi]
          rfl
    calc {i | v i = .failed n ∨ ∃ a, v i = .compared n a false}.encard
        ≤ (insert i (wrong v n)).encard := Set.encard_le_encard hsub
      _ ≤ (wrong v n).encard + 1 := Set.encard_insert_le _ _
      _ ≤ (a : ℕ∞) + 1 := add_le_add_left (h.counted n a hcurrent) 1
      _ = ((a + 1 : ℕ) : ℕ∞) := (Nat.cast_succ a).symm
      _ ≤ cap := Nat.cast_le.mpr ha
  · refine (Set.encard_le_encard ?_).trans (h.capped n)
    rintro j (hj | ⟨b, hj⟩)
    · exact hj
    · exact absurd ⟨j, b, hj⟩ hpending

end GuessedCodes
