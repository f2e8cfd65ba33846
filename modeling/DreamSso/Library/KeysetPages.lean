import Mathlib.Order.Lattice
import Mathlib.Data.List.Basic
import Mathlib.Data.List.Nodup
import Mathlib.Data.List.Infix

/-!
Keyset pagination of a list in descending order of its keys. A page ends with a cursor
made from its last element, and the next page holds what is below the cursor. The cursor
may be lower than the key it is made from; then what lies between is never listed.
-/
namespace KeysetPages

variable {α κ : Type*} [LinearOrder κ] (key cursor : α → κ) (limit : ℕ)

def Descending (l : List α) : Prop := l.Pairwise fun a b => key b < key a

def below (c : κ) (l : List α) : List α := l.filter fun a => key a < c

/-- The cursor of a page that is not the last one. -/
def next? (l : List α) : Option κ :=
  if limit < l.length then l[limit - 1]?.map cursor else none

/-- The pages from the one that lists from the top of `l` to the last, `none` when there
are more than the given number. -/
def follow : ℕ → List α → Option (List α)
  | 0, _ => none
  | n + 1, l =>
    match next? cursor limit l with
    | none => some (l.take limit)
    | some c => (follow n (below key c l)).map fun rest => l.take limit ++ rest

/-- Behind each full page the next element is below the cursor. -/
def Aligned (l : List α) : Prop :=
  ∀ k, 0 < k → ∀ last next, l[k * limit - 1]? = some last → l[k * limit]? = some next →
    key next < cursor last

variable {key cursor limit} {l : List α}

theorem Descending.below (h : Descending key l) (c : κ) : Descending key (below key c l) :=
  h.filter _

theorem Descending.drop (h : Descending key l) (n : ℕ) : Descending key (l.drop n) :=
  List.Pairwise.sublist (List.drop_sublist n l) h

/-- There is one descending list of given elements. -/
theorem Descending.ext {l' : List α} (h : Descending key l) (h' : Descending key l')
    (hmem : ∀ a, a ∈ l ↔ a ∈ l') : l = l' := by
  have hnodup : ∀ {m : List α}, Descending key m → m.Nodup := by
    intro m hm
    refine hm.imp fun {a b} hlt heq => ?_
    rw [heq] at hlt
    exact lt_irrefl _ hlt
  refine ((List.perm_ext_iff_of_nodup (hnodup h) (hnodup h')).mpr hmem).eq_of_pairwise ?_ h h'
  exact fun a b _ _ hab hba => (lt_asymm hab hba).elim

/-- The page itself is not below its cursor. -/
theorem below_of_page (hcursor : ∀ a, cursor a ≤ key a) (hlimit : 0 < limit)
    (h : Descending key l) {last : α} (hlast : l[limit - 1]? = some last) :
    below key (cursor last) l = below key (cursor last) (l.drop limit) := by
  have hpage : below key (cursor last) (l.take limit) = [] := by
    rw [below, List.filter_eq_nil_iff]
    intro a ha
    rw [decide_eq_true_eq, not_lt]
    obtain ⟨n, hn, rfl⟩ := List.getElem_of_mem ha
    rw [List.length_take] at hn
    rw [List.getElem_take]
    obtain ⟨hlt, rfl⟩ := List.getElem?_eq_some_iff.mp hlast
    refine (hcursor _).trans ?_
    rcases Nat.lt_or_ge n (limit - 1) with hbefore | hend
    · exact (List.pairwise_iff_getElem.mp h n (limit - 1) (by omega) hlt hbefore).le
    · have hsame : n = limit - 1 := by omega
      subst hsame
      exact le_refl _
  conv_lhs => rw [← List.take_append_drop limit l]
  rw [below, List.filter_append, ← below, ← below, hpage, List.nil_append]

theorem follow_succ {fuel : ℕ} {r : List α} (h : follow key cursor limit (fuel + 1) l = some r) :
    (l.length ≤ limit ∧ r = l) ∨ ∃ last rest, limit < l.length ∧ l[limit - 1]? = some last ∧
      follow key cursor limit fuel (below key (cursor last) l) = some rest ∧
        r = l.take limit ++ rest := by
  unfold follow at h
  cases hnext : next? cursor limit l with
  | none =>
    rw [hnext] at h
    obtain rfl := Option.some.inj h
    unfold next? at hnext
    split_ifs at hnext with hmore
    · have := List.getElem?_eq_none_iff.mp (Option.map_eq_none_iff.mp hnext)
      omega
    · exact .inl ⟨by omega, List.take_of_length_le (by omega)⟩
  | some c =>
    rw [hnext] at h
    obtain ⟨rest, hrest, rfl⟩ := Option.map_eq_some_iff.mp h
    unfold next? at hnext
    split_ifs at hnext with hmore
    obtain ⟨last, hlast, rfl⟩ := Option.map_eq_some_iff.mp hnext
    exact .inr ⟨last, rest, hmore, hlast, hrest, rfl⟩

/-- Following the cursors comes to an end. -/
theorem follow_ends (hcursor : ∀ a, cursor a ≤ key a) (hlimit : 0 < limit) {fuel : ℕ}
    (h : Descending key l) (hfuel : l.length < fuel) :
    ∃ r, follow key cursor limit fuel l = some r := by
  induction fuel generalizing l with
  | zero => omega
  | succ fuel ih =>
    unfold follow
    cases hnext : next? cursor limit l with
    | none => exact ⟨l.take limit, rfl⟩
    | some c =>
      unfold next? at hnext
      split_ifs at hnext with hmore
      obtain ⟨last, hlast, rfl⟩ := Option.map_eq_some_iff.mp hnext
      have hshort : (below key (cursor last) l).length < fuel := by
        have : (below key (cursor last) (l.drop limit)).length ≤ (l.drop limit).length :=
          List.length_filter_le ..
        rw [below_of_page hcursor hlimit h hlast]
        rw [List.length_drop] at this
        omega
      obtain ⟨rest, hrest⟩ := ih (h.below (cursor last)) hshort
      exact ⟨l.take limit ++ rest, by simp [hrest]⟩

/-- What is listed is listed in order and once. -/
theorem follow_sublist (hcursor : ∀ a, cursor a ≤ key a) (hlimit : 0 < limit) {fuel : ℕ}
    (h : Descending key l) {r : List α} (hfollow : follow key cursor limit fuel l = some r) :
    r.Sublist l := by
  induction fuel generalizing l r with
  | zero => cases hfollow
  | succ fuel ih =>
    rcases follow_succ hfollow with ⟨-, rfl⟩ | ⟨last, rest, -, hlast, hrest, rfl⟩
    · exact List.Sublist.refl _
    · conv_rhs => rw [← List.take_append_drop limit l]
      refine List.Sublist.append (List.Sublist.refl _) ((ih (h.below _) hrest).trans ?_)
      rw [below_of_page hcursor hlimit h hlast]
      exact List.filter_sublist

theorem Aligned.drop (h : Aligned key cursor limit l) (hlimit : 0 < limit) :
    Aligned key cursor limit (l.drop limit) := by
  intro k hk last next hlast hnext
  have hbehind : limit + (k * limit - 1) = (k + 1) * limit - 1 := by
    have := Nat.mul_le_mul hk hlimit
    rw [Nat.succ_mul]
    omega
  rw [List.getElem?_drop, hbehind] at hlast
  rw [List.getElem?_drop, show limit + k * limit = (k + 1) * limit by rw [Nat.succ_mul]; omega]
    at hnext
  exact h (k + 1) (Nat.succ_pos k) last next hlast hnext

theorem Aligned.of_drop (hlimit : 0 < limit) (h : Aligned key cursor limit (l.drop limit))
    (hfirst : ∀ last next, l[limit - 1]? = some last → l[limit]? = some next →
      key next < cursor last) : Aligned key cursor limit l := by
  intro k hk last next hlast hnext
  cases k with
  | zero => omega
  | succ k =>
    cases k with
    | zero =>
      rw [Nat.zero_add, Nat.one_mul] at hlast hnext
      exact hfirst last next hlast hnext
    | succ k =>
      have hpositive : 0 < (k + 1) * limit := Nat.mul_pos (Nat.succ_pos k) hlimit
      have hlast' : limit + ((k + 1) * limit - 1) = (k + 1 + 1) * limit - 1 := by
        rw [Nat.succ_mul (k + 1)]
        omega
      refine h (k + 1) (Nat.succ_pos k) last next ?_ ?_
      · rw [List.getElem?_drop, hlast']
        exact hlast
      · rw [List.getElem?_drop, Nat.add_comm, ← Nat.succ_mul]
        exact hnext

/-- Following the cursors lists everything exactly when no cursor falls behind. -/
theorem follow_eq_iff (hcursor : ∀ a, cursor a ≤ key a) (hlimit : 0 < limit) {fuel : ℕ}
    (h : Descending key l) {r : List α} (hfollow : follow key cursor limit fuel l = some r) :
    r = l ↔ Aligned key cursor limit l := by
  induction fuel generalizing l r with
  | zero => cases hfollow
  | succ fuel ih =>
    rcases follow_succ hfollow with ⟨hshort, rfl⟩ | ⟨last, rest, hmore, hlast, hrest, rfl⟩
    · refine iff_of_true rfl fun k hk last next _ hnext => ?_
      have := (List.getElem?_eq_some_iff.mp hnext).1
      have := Nat.mul_le_mul_right limit hk
      omega
    · have hpage := below_of_page hcursor hlimit h hlast
      have hdrop := h.drop limit
      obtain ⟨next, behind, hbehind⟩ : ∃ next behind, l.drop limit = next :: behind := by
        cases hd : l.drop limit with
        | nil =>
          rw [List.drop_eq_nil_iff] at hd
          omega
        | cons next behind => exact ⟨next, behind, rfl⟩
      have hnext : l[limit]? = some next := by
        have := @List.getElem?_drop _ l limit 0
        rw [hbehind] at this
        simpa using this.symm
      by_cases hfirst : key next < cursor last
      · -- the cursor is above all that is left
        have hall : below key (cursor last) l = l.drop limit := by
          rw [hpage, below, List.filter_eq_self]
          intro a ha
          rw [hbehind] at ha hdrop
          rw [decide_eq_true_eq]
          rcases List.mem_cons.mp ha with rfl | ha
          · exact hfirst
          · exact (List.rel_of_pairwise_cons hdrop ha).trans hfirst
        rw [hall] at hrest
        have hrec := ih hdrop hrest
        have hsame : l.take limit ++ rest = l ↔ rest = l.drop limit := by
          constructor
          · intro heq
            have hlength : (l.take limit).length = limit := by
              rw [List.length_take]
              omega
            have := congrArg (List.drop limit) heq
            rwa [List.drop_left' hlength] at this
          · intro heq
            rw [heq, List.take_append_drop]
        rw [hsame, hrec]
        refine ⟨fun haligned => haligned.of_drop hlimit fun last' next' hlast' hnext' => ?_,
          fun haligned => haligned.drop hlimit⟩
        rw [hlast] at hlast'
        rw [hnext] at hnext'
        obtain rfl := Option.some.inj hlast'
        obtain rfl := Option.some.inj hnext'
        exact hfirst
      · refine iff_of_false (fun hsame => ?_) fun haligned => ?_
        · -- the next element is missing
          have hsub := follow_sublist hcursor hlimit (h.below _) hrest
          rw [hpage, below, hbehind, List.filter_cons_of_neg (by simpa using hfirst)] at hsub
          have hlength := hsub.length_le
          have hfilter : (behind.filter fun a => decide (key a < cursor last)).length ≤
              behind.length := List.length_filter_le ..
          have htotal := congrArg List.length hsame
          have hcons := congrArg List.length hbehind
          rw [List.length_append, List.length_take] at htotal
          rw [List.length_drop, List.length_cons] at hcons
          omega
        · refine hfirst (haligned 1 Nat.one_pos last next ?_ ?_)
          · rwa [Nat.one_mul]
          · rwa [Nat.one_mul]

end KeysetPages
