import DreamSso.Library.Transitions
import Mathlib.Data.Int.Notation
import Mathlib.Data.List.GetD
import Mathlib.Data.List.Lemmas
import Mathlib.Tactic.Common

/-!
The limiter for registration emails to one address: a hash with the first and the last
send of a window and a count. A slot is reserved before a send and released when the
send failed; senders overlap, and redis runs each script alone.
-/
namespace DreamSso.SendLimiter

open Transitions

def RL_MAX_SENDS : ℤ := 5
def RL_WINDOW_SECONDS : ℤ := 86400
def RL_BACKOFFS : List ℤ := [0, 60, 120, 180, 240]

def backoff (sends : ℤ) : ℤ := RL_BACKOFFS.getD (min sends (RL_MAX_SENDS - 1)).toNat 0

/-- The fields of the hash; a key that does not exist has none. -/
structure Limiter where
  first : Option ℤ
  count : Option ℤ
  last : Option ℤ
  expiresAt : Option ℤ
  deriving DecidableEq

inductive Reservation
  | granted (nextBackoff : ℤ)
  | denied (retryAfter : ℤ) (canRetry : Bool)
  deriving DecidableEq

def Limiter.isOpen (l : Limiter) (now : ℤ) : Bool :=
  decide (0 < l.count.getD 0) && decide (now - l.first.getD 0 < RL_WINDOW_SECONDS)

/-- `RESERVE_LUA`. -/
def Limiter.reserveLua (l : Limiter) (now : ℤ) : Reservation × Limiter :=
  let first := l.first.getD 0
  let count := l.count.getD 0
  let last := l.last.getD 0
  if l.isOpen now then
    if RL_MAX_SENDS ≤ count then (.denied (first + RL_WINDOW_SECONDS - now) false, l)
    else if now - last < backoff count then (.denied (backoff count - (now - last)) true, l)
    else (.granted (backoff (count + 1)), { l with count := some (count + 1), last := some now })
  else (.granted (backoff 1), ⟨some now, some 1, some now, some (now + RL_WINDOW_SECONDS)⟩)

/-- `RELEASE_LUA`. -/
def Limiter.release (l : Limiter) : Limiter :=
  { l with count := some (max 0 (l.count.getD 0 - 1)), last := none }

def reserveRegistrationSend (l : Limiter) (now : ℤ) : Reservation × Limiter :=
  match l.reserveLua now with
  | (.denied retryAfter canRetry, l') => (.denied (max 1 retryAfter) canRetry, l')
  | granted => granted

/-- A granted send that is not released. Windows are numbered as the script restarts them. -/
structure Send where
  time : ℤ
  window : ℕ
  deriving DecidableEq

structure State where
  clock : ℤ
  limiter : Limiter
  window : ℕ
  sent : List Send
  deriving DecidableEq

def State.reserve (s : State) (now : ℤ) : State :=
  match reserveRegistrationSend s.limiter now with
  | (.granted _, l) =>
      let window := if s.limiter.isOpen now then s.window else s.window + 1
      ⟨now, l, window, s.sent ++ [⟨now, window⟩]⟩
  | (.denied _ _, l) => { s with clock := now, limiter := l }

/-- The send at this place among those not released has failed. -/
def State.release (s : State) (now : ℤ) (n : ℕ) : State :=
  { s with clock := now, limiter := s.limiter.release, sent := s.sent.eraseIdx n }

inductive Label
  | reserve (now : ℤ)
  | release (now : ℤ) (n : ℕ)
  | expire (now : ℤ)
  deriving DecidableEq

def State.step (s : State) : Label → Option State
  | .reserve now => if s.clock ≤ now then some (s.reserve now) else none
  | .release now n => if s.clock ≤ now ∧ n < s.sent.length then some (s.release now n) else none
  | .expire now =>
      if s.clock ≤ now ∧ s.limiter.expiresAt.any (fun t => decide (t ≤ now)) = true then
        some { s with clock := now, limiter := ⟨none, none, none, none⟩ }
      else none

/-- Any calls on one address, from the first. -/
def limiter : System State Label where
  initial s := s.limiter = ⟨none, none, none, none⟩ ∧ s.sent = [] ∧ s.window = 0
  step s l s' := s.step l = some s'

/-- A window is restarted when the sends before it are a day old, and only the last send
that is not released is released. -/
def Orderly (s : State) : Label → Prop
  | .reserve now => s.limiter.isOpen now = false →
      ∀ send ∈ s.sent, send.time + RL_WINDOW_SECONDS ≤ now
  | .release _ n => n + 1 = s.sent.length
  | .expire _ => True

/-- The sends of a window that are not released, in order. -/
def State.inWindow (s : State) (w : ℕ) : List Send := s.sent.filter fun send => send.window = w

/-- The times are those of an escalating backoff. -/
def Spaced (times : List ℤ) : Prop :=
  ∀ k t u, times[k]? = some t → times[k + 1]? = some u → t + backoff (k + 1 : ℕ) ≤ u

/-- At most five sends in a day, and the backoff between two of one window. -/
def Limited (s : State) : Prop :=
  (∀ t, (s.sent.filter fun send =>
    decide (t ≤ send.time) && decide (send.time < t + RL_WINDOW_SECONDS)).length ≤ 5) ∧
  ∀ w, Spaced ((s.inWindow w).map Send.time)

section Lists

theorem Spaced.snoc {times : List ℤ} {now : ℤ} (h : Spaced times)
    (hlast : ∀ u, times.getLast? = some u → u + backoff times.length ≤ now) :
    Spaced (times ++ [now]) := by
  intro k t u ht hu
  have hk : k + 1 < (times ++ [now]).length := (List.getElem?_eq_some_iff.mp hu).1
  rw [List.length_append, List.length_singleton] at hk
  rw [List.getElem?_append_left (by omega)] at ht
  by_cases hend : k + 1 = times.length
  · rw [hend, List.getElem?_concat_length] at hu
    obtain rfl := Option.some.inj hu
    have := hlast t (by rw [List.getLast?_eq_getElem?, ← hend]; exact ht)
    rwa [← hend] at this
  · rw [List.getElem?_append_left (by omega)] at hu
    exact h k t u ht hu

theorem Spaced.init {times : List ℤ} {t : ℤ} (h : Spaced (times ++ [t])) : Spaced times := by
  intro k u v hu hv
  have hk := (List.getElem?_eq_some_iff.mp hv).1
  refine h k u v ?_ ?_
  · rwa [List.getElem?_append_left (by omega)]
  · rwa [List.getElem?_append_left hk]

theorem Spaced.last {times : List ℤ} {t u : ℤ} (h : Spaced (times ++ [t]))
    (hu : times.getLast? = some u) : u + backoff times.length ≤ t := by
  rw [List.getLast?_eq_getElem?] at hu
  have hlt := (List.getElem?_eq_some_iff.mp hu).1
  have hnext : times.length - 1 + 1 = times.length := by omega
  have := h (times.length - 1) u t ?_ ?_
  · rwa [hnext] at this
  · rwa [List.getElem?_append_left hlt]
  · rw [hnext, List.getElem?_concat_length]

end Lists

/-- What a reservation finds: a full window, a send too soon, a slot, or no window. -/
theorem reservation_cases (l : Limiter) (now : ℤ) :
    (l.isOpen now = true ∧ RL_MAX_SENDS ≤ l.count.getD 0 ∧ reserveRegistrationSend l now =
      (.denied (max 1 (l.first.getD 0 + RL_WINDOW_SECONDS - now)) false, l)) ∨
    (l.isOpen now = true ∧ l.count.getD 0 < RL_MAX_SENDS ∧
      now - l.last.getD 0 < backoff (l.count.getD 0) ∧ reserveRegistrationSend l now =
        (.denied (max 1 (backoff (l.count.getD 0) - (now - l.last.getD 0))) true, l)) ∨
    (l.isOpen now = true ∧ l.count.getD 0 < RL_MAX_SENDS ∧
      backoff (l.count.getD 0) ≤ now - l.last.getD 0 ∧ reserveRegistrationSend l now =
        (.granted (backoff (l.count.getD 0 + 1)),
          { l with count := some (l.count.getD 0 + 1), last := some now })) ∨
    (l.isOpen now = false ∧ reserveRegistrationSend l now = (.granted (backoff 1),
      ⟨some now, some 1, some now, some (now + RL_WINDOW_SECONDS)⟩)) := by
  unfold reserveRegistrationSend Limiter.reserveLua
  dsimp only
  by_cases hopen : l.isOpen now = true
  · rw [if_pos hopen]
    by_cases hfull : RL_MAX_SENDS ≤ l.count.getD 0
    · rw [if_pos hfull]
      exact .inl ⟨hopen, hfull, rfl⟩
    · rw [if_neg hfull]
      by_cases hsoon : now - l.last.getD 0 < backoff (l.count.getD 0)
      · rw [if_pos hsoon]
        exact .inr (.inl ⟨hopen, by omega, hsoon, rfl⟩)
      · rw [if_neg hsoon]
        exact .inr (.inr (.inl ⟨hopen, by omega, by omega, rfl⟩))
  · rw [if_neg hopen]
    exact .inr (.inr (.inr ⟨by simpa using hopen, rfl⟩))

/-- The sends of the window that counts are counted, each window is spaced, and two windows
are a day apart. -/
structure Kept (s : State) : Prop where
  past : ∀ send ∈ s.sent, send.time ≤ s.clock ∧ send.window ≤ s.window
  sorted : s.sent.Pairwise fun a b => a.window ≤ b.window
  apart : ∀ a ∈ s.sent, ∀ b ∈ s.sent, a.window < b.window → a.time + RL_WINDOW_SECONDS ≤ b.time
  counted : 0 < s.limiter.count.getD 0 → ((s.inWindow s.window).length : ℤ) =
    s.limiter.count.getD 0
  five : ∀ w, (s.inWindow w).length ≤ 5
  spaced : ∀ w, Spaced ((s.inWindow w).map Send.time)
  stamped : 0 < s.limiter.count.getD 0 → ∀ send, (s.inWindow s.window).getLast? = some send →
    (∀ last, s.limiter.last = some last → send.time ≤ last) ∧
      (s.limiter.last = none → send.time + backoff (s.limiter.count.getD 0) ≤ s.clock)

theorem Kept.initial {s : State} (h : limiter.initial s) : Kept s := by
  obtain ⟨hlimiter, hsent, -⟩ := h
  refine ⟨?_, ?_, ?_, ?_, ?_, ?_, ?_⟩ <;> simp [hlimiter, hsent, State.inWindow, Spaced]

/-- In a day there are the sends of one window. -/
theorem Kept.limited {s : State} (h : Kept s) : Limited s := by
  refine ⟨fun t => ?_, h.spaced⟩
  cases hday : s.sent.filter fun send =>
    decide (t ≤ send.time) && decide (send.time < t + RL_WINDOW_SECONDS) with
  | nil => simp
  | cons send rest =>
    have hsend : send ∈ s.sent.filter fun send =>
      decide (t ≤ send.time) && decide (send.time < t + RL_WINDOW_SECONDS) := by simp [hday]
    rw [List.mem_filter, Bool.and_eq_true, decide_eq_true_eq, decide_eq_true_eq] at hsend
    rw [← hday, ← List.countP_eq_length_filter]
    refine Nat.le_trans ?_ (h.five send.window)
    rw [State.inWindow, ← List.countP_eq_length_filter]
    refine List.countP_mono_left fun other hother hin => ?_
    rw [Bool.and_eq_true, decide_eq_true_eq, decide_eq_true_eq] at hin
    rw [decide_eq_true_eq]
    have hbefore := h.apart other hother send hsend.1
    have hbehind := h.apart send hsend.1 other hother
    omega

theorem inWindow_append {s : State} {sent : List Send} {send : Send} (hsent : s.sent = sent ++ [send])
    (w : ℕ) : s.inWindow w = (sent.filter fun send => send.window = w) ++
      if send.window = w then [send] else [] := by
  rw [State.inWindow, hsent, List.filter_append, List.filter_singleton]
  simp

/-- One more send in the window that counts, or the first of the next. -/
theorem Kept.grant {s : State} (h : Kept s) {now : ℤ} (hclock : s.clock ≤ now) {l : Limiter}
    {w : ℕ} (hwindow : s.window ≤ w)
    (hapart : ∀ a ∈ s.sent, a.window < w → a.time + RL_WINDOW_SECONDS ≤ now)
    (hcount : l.count = some (((s.inWindow w).length : ℤ) + 1)) (hstamp : l.last = some now)
    (hfive : (s.inWindow w).length < 5)
    (hlast : ∀ send, (s.inWindow w).getLast? = some send →
      send.time + backoff (s.inWindow w).length ≤ now) :
    Kept ⟨now, l, w, s.sent ++ [⟨now, w⟩]⟩ := by
  have hlist : ∀ v, State.inWindow ⟨now, l, w, s.sent ++ [⟨now, w⟩]⟩ v =
      s.inWindow v ++ if w = v then [⟨now, w⟩] else [] := by
    intro v
    rw [inWindow_append (s := ⟨now, l, w, s.sent ++ [⟨now, w⟩]⟩) rfl v]
    rfl
  have hsame := hlist w
  rw [if_pos rfl] at hsame
  have hother : ∀ v, w ≠ v → State.inWindow ⟨now, l, w, s.sent ++ [⟨now, w⟩]⟩ v = s.inWindow v := by
    intro v hv
    rw [hlist, if_neg hv, List.append_nil]
  refine ⟨?_, ?_, ?_, fun _ => ?_, fun v => ?_, fun v => ?_, fun _ send hsend => ?_⟩
  · intro send hsend
    rcases List.mem_append.mp hsend with hold | hnew
    · have := h.past send hold
      exact ⟨by dsimp only; omega, by dsimp only; omega⟩
    · rw [List.mem_singleton.mp hnew]
      exact ⟨Int.le_refl _, Nat.le_refl _⟩
  · refine List.pairwise_append.mpr ⟨h.sorted, List.pairwise_singleton .., fun a ha b hb => ?_⟩
    rw [List.mem_singleton.mp hb]
    exact Nat.le_trans (h.past a ha).2 hwindow
  · intro a ha b hb hlt
    rcases List.mem_append.mp ha with ha | ha
    · rcases List.mem_append.mp hb with hb | hb
      · exact h.apart a ha b hb hlt
      · rw [List.mem_singleton.mp hb] at hlt ⊢
        exact hapart a ha hlt
    · rw [List.mem_singleton.mp ha] at hlt
      rcases List.mem_append.mp hb with hb | hb
      · have := (h.past b hb).2
        dsimp only at hlt
        omega
      · rw [List.mem_singleton.mp hb] at hlt
        exact (Nat.lt_irrefl _ hlt).elim
  · rw [hsame, hcount]
    simp
  · by_cases hv : w = v
    · subst hv
      rw [hsame, List.length_append, List.length_singleton]
      omega
    · rw [hother v hv]
      exact h.five v
  · by_cases hv : w = v
    · subst hv
      rw [hsame, List.map_append, List.map_singleton]
      refine (h.spaced w).snoc fun u hu => ?_
      rw [List.getLast?_map, Option.map_eq_some_iff] at hu
      obtain ⟨send, hsend, rfl⟩ := hu
      rw [List.length_map]
      exact hlast send hsend
    · rw [hother v hv]
      exact h.spaced v
  · rw [hsame, List.getLast?_concat] at hsend
    obtain rfl := Option.some.inj hsend
    refine ⟨fun last hstamped => ?_, fun hnone => ?_⟩
    · rw [hstamp] at hstamped
      exact Int.le_of_eq (Option.some.inj hstamped)
    · rw [hstamp] at hnone
      cases hnone

/-- Calls that leave the sends and the count alone. -/
theorem Kept.later {s : State} (h : Kept s) {now : ℤ} (hclock : s.clock ≤ now) :
    Kept { s with clock := now } := by
  refine ⟨fun send hsend => ?_, h.sorted, h.apart, h.counted, h.five, h.spaced,
    fun hcount send hsend => ?_⟩
  · have := h.past send hsend
    exact ⟨by dsimp only; omega, this.2⟩
  · obtain ⟨hstamped, hfree⟩ := h.stamped hcount send hsend
    refine ⟨hstamped, fun hnone => ?_⟩
    have := hfree hnone
    dsimp only
    omega

theorem Limiter.counts_of_open {l : Limiter} {now : ℤ} (h : l.isOpen now = true) :
    0 < l.count.getD 0 := by
  unfold Limiter.isOpen at h
  rw [Bool.and_eq_true, decide_eq_true_eq] at h
  exact h.1

theorem Kept.reserve {s : State} (h : Kept s) {now : ℤ} (hclock : s.clock ≤ now)
    (horderly : Orderly s (.reserve now)) : Kept (s.reserve now) := by
  unfold State.reserve
  rcases reservation_cases s.limiter now with ⟨-, -, hreply⟩ | ⟨-, -, -, hreply⟩ |
    ⟨hopen, hfree, hold, hreply⟩ | ⟨hclosed, hreply⟩
  · rw [hreply]
    exact h.later hclock
  · rw [hreply]
    exact h.later hclock
  · rw [hreply]
    simp only [if_pos hopen]
    have hcount := Limiter.counts_of_open hopen
    have hlength := h.counted hcount
    have hfive : (s.inWindow s.window).length < 5 := by
      unfold RL_MAX_SENDS at hfree
      omega
    refine h.grant hclock (Nat.le_refl _) (fun a ha hlt => ?_) (by rw [hlength]) rfl hfive
      fun send hsend => ?_
    · -- a send of the window that counts lies between
      obtain ⟨b, hb⟩ : ∃ b, b ∈ s.inWindow s.window :=
        List.exists_mem_of_length_pos (by omega)
      rw [State.inWindow, List.mem_filter, decide_eq_true_eq] at hb
      have := h.apart a ha b hb.1 (by omega)
      have := (h.past b hb.1).1
      omega
    · obtain ⟨hstamped, hfree⟩ := h.stamped hcount send hsend
      rw [hlength]
      cases hlast : s.limiter.last with
      | some last =>
        have := hstamped last hlast
        rw [hlast] at hold
        simp only [Option.getD_some] at hold
        omega
      | none =>
        have := hfree hlast
        omega
  · rw [hreply]
    simp only [hclosed, Bool.false_eq_true, if_false]
    have hnone : s.inWindow (s.window + 1) = [] := by
      rw [State.inWindow, List.filter_eq_nil_iff]
      intro send hsend
      have := (h.past send hsend).2
      simp only [decide_eq_true_eq]
      omega
    refine h.grant hclock (Nat.le_succ _) (fun a ha _ => horderly hclosed a ha) ?_ rfl ?_ ?_
    · rw [hnone]
      rfl
    · rw [hnone]
      decide
    · rw [hnone]
      simp

theorem Kept.expire {s : State} (h : Kept s) {now : ℤ} (hclock : s.clock ≤ now) :
    Kept { s with clock := now, limiter := ⟨none, none, none, none⟩ } := by
  refine ⟨fun send hsend => ?_, h.sorted, h.apart, fun hcount => ?_, h.five, h.spaced,
    fun hcount => ?_⟩
  · have := h.past send hsend
    exact ⟨by dsimp only; omega, this.2⟩
  · simp at hcount
  · simp at hcount

/-- The last send goes, and with it the stamp: the one before it is old enough. -/
theorem Kept.release {s : State} (h : Kept s) {now : ℤ} (hclock : s.clock ≤ now) {n : ℕ}
    (horderly : Orderly s (.release now n)) : Kept (s.release now n) := by
  have hlen : n + 1 = s.sent.length := horderly
  obtain ⟨init, send, hsent⟩ : ∃ init send, s.sent = init ++ [send] := by
    rcases List.eq_nil_or_concat s.sent with hnil | ⟨init, send, hsent⟩
    · rw [hnil] at hlen
      simp at hlen
    · exact ⟨init, send, by rw [hsent, List.concat_eq_append]⟩
  have herase : s.sent.eraseIdx n = init := by
    rw [hsent, List.length_append, List.length_singleton] at hlen
    rw [hsent, List.eraseIdx_append_of_length_le (by omega), show n - init.length = 0 by omega]
    simp
  have hlist := fun w => inWindow_append hsent w
  have hrest : ∀ w, State.inWindow (s.release now n) w =
      init.filter fun send => send.window = w := by
    intro w
    rw [State.inWindow, State.release, herase]
  have hmem : ∀ a ∈ (s.release now n).sent, a ∈ s.sent := by
    intro a ha
    rw [State.release, herase] at ha
    rw [hsent]
    exact List.mem_append_left _ ha
  have hsend : send ∈ s.sent := by
    rw [hsent]
    exact List.mem_append_right _ (List.mem_singleton_self _)
  have hcount : 0 < (s.release now n).limiter.count.getD 0 →
      (s.release now n).limiter.count.getD 0 = s.limiter.count.getD 0 - 1 := by
    intro hpositive
    simp only [State.release, Limiter.release, Option.getD_some] at hpositive ⊢
    omega
  -- the send that goes is one of the window that counts, or that window counts none
  have hcurrent : 0 < s.limiter.count.getD 0 → send.window = s.window := by
    intro hpositive
    have hlength := h.counted hpositive
    obtain ⟨b, hb⟩ : ∃ b, b ∈ s.inWindow s.window := List.exists_mem_of_length_pos (by omega)
    rw [State.inWindow, List.mem_filter, decide_eq_true_eq, hsent, List.mem_append,
      List.mem_singleton] at hb
    rcases hb with ⟨hb | rfl, hwindow⟩
    · have hsorted := h.sorted
      rw [hsent, List.pairwise_append] at hsorted
      have := hsorted.2.2 b hb send (List.mem_singleton_self _)
      have := (h.past send hsend).2
      omega
    · exact hwindow
  refine ⟨fun a ha => ?_, ?_, fun a ha b hb => h.apart a (hmem a ha) b (hmem b hb),
    fun hpositive => ?_, fun w => ?_, fun w => ?_, fun hpositive a ha => ?_⟩
  · have := h.past a (hmem a ha)
    refine ⟨?_, this.2⟩
    change a.time ≤ now
    omega
  · rw [State.release, herase]
    have hsorted := h.sorted
    rw [hsent, List.pairwise_append] at hsorted
    exact hsorted.1
  · have hbefore : 0 < s.limiter.count.getD 0 := by
      have := hcount hpositive
      omega
    have hlength := h.counted hbefore
    rw [hlist, if_pos (hcurrent hbefore), List.length_append, List.length_singleton] at hlength
    rw [hcount hpositive]
    change ((State.inWindow (s.release now n) s.window).length : ℤ) = _
    rw [hrest]
    omega
  · have := h.five w
    rw [hlist, List.length_append] at this
    rw [hrest]
    omega
  · have hspaced := h.spaced w
    rw [hlist] at hspaced
    rw [hrest]
    split_ifs at hspaced with hw
    · rw [List.map_append, List.map_singleton] at hspaced
      exact hspaced.init
    · rwa [List.append_nil] at hspaced
  · refine ⟨fun last hlast => (by cases hlast), fun _ => ?_⟩
    have hbefore : 0 < s.limiter.count.getD 0 := by
      have := hcount hpositive
      omega
    have hlength := h.counted hbefore
    have hspaced := h.spaced s.window
    rw [hlist, if_pos (hcurrent hbefore)] at hspaced hlength
    rw [List.map_append, List.map_singleton] at hspaced
    change (State.inWindow (s.release now n) s.window).getLast? = some a at ha
    rw [hrest] at ha
    have := hspaced.last (by rw [List.getLast?_map, ha]; rfl)
    rw [List.length_map] at this
    rw [List.length_append, List.length_singleton] at hlength
    rw [hcount hpositive, ← hlength]
    have := (h.past send hsend).1
    change _ ≤ now
    rw [show ((((init.filter fun send => send.window = s.window).length + 1 : ℕ) : ℤ)) - 1 =
      ((init.filter fun send => send.window = s.window).length : ℕ) by omega]
    omega

theorem Kept.step {s t : State} (h : Kept s) {l : Label} (horderly : Orderly s l)
    (hstep : s.step l = some t) : Kept t := by
  cases l with
  | reserve now =>
    simp only [State.step, Option.ite_none_right_eq_some, Option.some.injEq] at hstep
    obtain ⟨hclock, rfl⟩ := hstep
    exact h.reserve hclock horderly
  | release now n =>
    simp only [State.step, Option.ite_none_right_eq_some, Option.some.injEq] at hstep
    obtain ⟨⟨hclock, -⟩, rfl⟩ := hstep
    exact h.release hclock horderly
  | expire now =>
    simp only [State.step, Option.ite_none_right_eq_some, Option.some.injEq] at hstep
    obtain ⟨⟨hclock, -⟩, rfl⟩ := hstep
    exact h.expire hclock

/-- What a caller is told to wait for is enough, when the key is as it was or has expired. -/
theorem granted_after {l : Limiter} {now later retryAfter : ℤ}
    (hdenied : (reserveRegistrationSend l now).1 = .denied retryAfter true)
    (hlater : now + retryAfter ≤ later) :
    ∃ nextBackoff, (reserveRegistrationSend l later).1 = .granted nextBackoff := by
  rcases reservation_cases l now with ⟨-, -, hreply⟩ | ⟨-, hfree, hsoon, hreply⟩ |
    ⟨-, -, -, hreply⟩ | ⟨-, hreply⟩
  · rw [hreply] at hdenied
    cases hdenied
  · rw [hreply] at hdenied
    obtain ⟨hretry, -⟩ := Reservation.denied.inj hdenied
    rcases reservation_cases l later with ⟨-, hfull, -⟩ | ⟨-, -, hstill, -⟩ |
      ⟨-, -, -, hgranted⟩ | ⟨-, hgranted⟩
    · omega
    · omega
    · exact ⟨_, by rw [hgranted]⟩
    · exact ⟨_, by rw [hgranted]⟩
  · rw [hreply] at hdenied
    cases hdenied
  · rw [hreply] at hdenied
    cases hdenied

/-- In every orderly run the sends that are not released keep within the limits; and a denied
call that may be retried is granted after the time it was told. -/
theorem send_limits {start s : State} {trace : List (Event State Label)}
    (hinit : limiter.initial start) (run : Exec limiter start trace s)
    (horderly : ∀ e ∈ trace, Orderly e.before e.label) :
    Limited s ∧ ∀ now retryAfter,
      (reserveRegistrationSend s.limiter now).1 = .denied retryAfter true →
      ∀ later, now + retryAfter ≤ later →
        (∃ nextBackoff, (reserveRegistrationSend s.limiter later).1 = .granted nextBackoff) ∧
        ∃ nextBackoff, (reserveRegistrationSend ⟨none, none, none, none⟩ later).1 =
          .granted nextBackoff := by
  have hkept := run.preserves_where (I := Kept) (G := Orderly)
    (fun _ _ _ h horderly hstep => h.step horderly hstep) horderly (Kept.initial hinit)
  exact ⟨hkept.limited, fun now retryAfter hdenied later hlater =>
    ⟨granted_after hdenied hlater, ⟨_, rfl⟩⟩⟩

section Examples

def unused : State := ⟨0, ⟨none, none, none, none⟩, 0, []⟩

/-- The first of two sends fails after the second was granted. -/
def olderReleased : List Label := [.reserve 1000, .reserve 1060, .release 1060 0, .reserve 1061]

/-- Four sends late in a window and three when it has lapsed. -/
def twoWindows : List Label :=
  [.reserve 1000, .reserve 86000, .reserve 86120, .reserve 86300, .reserve 86540, .reserve 87400,
    .reserve 87460, .reserve 87580]

/-- Two sends a second apart with one send before the second, and seven within a day. -/
theorem sends_beyond_limits :
    (∃ start trace s, limiter.initial start ∧ Exec limiter start trace s ∧
      s.sent = [⟨1060, 1⟩, ⟨1061, 1⟩] ∧ ¬ Limited s) ∧
    ∃ start trace s, limiter.initial start ∧ Exec limiter start trace s ∧
      (s.sent.filter fun send => decide (86000 ≤ send.time) &&
        decide (send.time < 86000 + RL_WINDOW_SECONDS)).length = 7 ∧ ¬ Limited s := by
  constructor
  · have hruns : (olderReleased.foldlM State.step unused).any
        (fun s => decide (s.sent = [⟨1060, 1⟩, ⟨1061, 1⟩])) = true := by decide +kernel
    obtain ⟨s, hs, hsent⟩ := (Option.any_eq_true ..).mp hruns
    replace hsent := of_decide_eq_true hsent
    obtain ⟨trace, run⟩ := exec_of_foldlM (T := limiter) (fun _ _ _ h => h) olderReleased hs
    refine ⟨unused, trace, s, ⟨rfl, rfl, rfl⟩, run, hsent, fun hlimited => ?_⟩
    have hspaced := hlimited.2 1
    rw [State.inWindow, hsent] at hspaced
    have := hspaced 0 1060 1061 rfl rfl
    revert this
    decide +kernel
  · have hruns : (twoWindows.foldlM State.step unused).any (fun s => decide
        ((s.sent.filter fun send => decide (86000 ≤ send.time) &&
          decide (send.time < 86000 + RL_WINDOW_SECONDS)).length = 7)) = true := by decide +kernel
    obtain ⟨s, hs, hseven⟩ := (Option.any_eq_true ..).mp hruns
    replace hseven := of_decide_eq_true hseven
    obtain ⟨trace, run⟩ := exec_of_foldlM (T := limiter) (fun _ _ _ h => h) twoWindows hs
    refine ⟨unused, trace, s, ⟨rfl, rfl, rfl⟩, run, hseven, fun hlimited => ?_⟩
    have := hlimited.1 86000
    rw [hseven] at this
    omega

instance (s : State) (l : Label) : Decidable (Orderly s l) := by
  cases l <;> unfold Orderly <;> infer_instance

/-- A failed second send and its retry, then a send of the next day. -/
def retried : List Label :=
  [.reserve 1000, .reserve 1060, .release 1070 1, .reserve 1075, .expire 90000, .reserve 90001]

theorem send_limits_retried :
    ∃ start trace s, limiter.initial start ∧ Exec limiter start trace s ∧
      s.sent = [⟨1000, 1⟩, ⟨1075, 1⟩, ⟨90001, 2⟩] ∧ Limited s := by
  have hruns : (retried.foldlM (fun s l => if Orderly s l then s.step l else none) unused).any
      (fun s => decide (s.sent = [⟨1000, 1⟩, ⟨1075, 1⟩, ⟨90001, 2⟩])) = true := by decide +kernel
  obtain ⟨s, hs, hsent⟩ := (Option.any_eq_true ..).mp hruns
  obtain ⟨trace, run, horderly⟩ := exec_of_foldlM_where (T := limiter) (G := Orderly)
    (fun _ _ _ h => (Option.ite_none_right_eq_some.mp h).symm) retried hs
  have hinit : limiter.initial unused := ⟨rfl, rfl, rfl⟩
  exact ⟨unused, trace, s, hinit, run, of_decide_eq_true hsent,
    (send_limits hinit run horderly).1⟩

end Examples

end DreamSso.SendLimiter
