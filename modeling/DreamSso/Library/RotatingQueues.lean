import Mathlib.Data.List.Nodup
import Mathlib.Data.List.TakeDrop

/-!
Queues of distinct keys that are served from the front. What is served may come back at
the end, and what arrives goes to the end unless it already waits. A key that keeps
arriving keeps being served, as long as the queue itself keeps moving.
-/
namespace RotatingQueues

variable {α : Type} [DecidableEq α]

/-- The key joins at the end unless it waits already. -/
def enqueue (queue : List α) (key : α) : List α := if key ∈ queue then queue else queue ++ [key]

def enqueueAll (queue keys : List α) : List α := keys.foldl enqueue queue

theorem enqueue_extends (queue : List α) (key : α) : queue <+: enqueue queue key := by
  rw [enqueue]
  split_ifs
  · exact List.prefix_refl _
  · exact List.prefix_append _ _

theorem enqueueAll_extends (queue keys : List α) : queue <+: enqueueAll queue keys := by
  induction keys generalizing queue with
  | nil => exact List.prefix_refl _
  | cons key keys ih => exact (enqueue_extends queue key).trans (ih (enqueue queue key))

theorem mem_enqueue_self (queue : List α) (key : α) : key ∈ enqueue queue key := by
  rw [enqueue]
  split_ifs with h
  · exact h
  · exact List.mem_append_right _ (List.mem_singleton_self _)

theorem mem_enqueueAll {queue keys : List α} {key : α} (h : key ∈ keys) :
    key ∈ enqueueAll queue keys := by
  induction keys generalizing queue with
  | nil => cases h
  | cons first keys ih =>
    by_cases hfirst : key = first
    · subst hfirst
      exact (enqueueAll_extends _ keys).subset (mem_enqueue_self queue key)
    · exact ih ((List.mem_cons.mp h).resolve_left hfirst)

theorem enqueue_nodup {queue : List α} (h : queue.Nodup) (key : α) : (enqueue queue key).Nodup := by
  rw [enqueue]
  split_ifs with hmem
  · exact h
  · exact List.nodup_append.mpr ⟨h, List.nodup_singleton _, fun a ha b hb hab =>
      hmem (List.mem_singleton.mp hb ▸ hab ▸ ha)⟩

theorem enqueueAll_nodup {queue : List α} (h : queue.Nodup) (keys : List α) :
    (enqueueAll queue keys).Nodup := by
  induction keys generalizing queue with
  | nil => exact h
  | cons key keys ih => exact ih (enqueue_nodup h key)

/-- The rounds of a queue: keys arrive, some from the front are served, and the others stay
in front of whatever comes back. -/
structure Rounds (queue arrivals served : ℕ → List α) : Prop where
  front : ∀ k, served k <+: enqueueAll (queue k) (arrivals k)
  rest : ∀ k, (enqueueAll (queue k) (arrivals k)).drop (served k).length <+: queue (k + 1)

variable {queue arrivals served : ℕ → List α} {key : α} {place k : ℕ}

/-- A waiting key is served in this round or moves up by the number of those that are. -/
theorem Rounds.moves (h : Rounds queue arrivals served)
    (hplace : (enqueueAll (queue k) (arrivals k))[place]? = some key) :
    key ∈ served k ∨ (served k).length ≤ place ∧
      (enqueueAll (queue (k + 1)) (arrivals (k + 1)))[place - (served k).length]? = some key := by
  by_cases hfront : place < (served k).length
  · left
    obtain ⟨others, hothers⟩ := h.front k
    rw [← hothers, List.getElem?_append_left hfront] at hplace
    exact List.mem_of_getElem? hplace
  · right
    have hle : (served k).length ≤ place := by omega
    refine ⟨hle, ?_⟩
    have hdrop : ((enqueueAll (queue k) (arrivals k)).drop
        (served k).length)[place - (served k).length]? = some key := by
      rw [List.getElem?_drop, Nat.add_sub_cancel' hle]
      exact hplace
    obtain ⟨others, hothers⟩ := (h.rest k).trans (enqueueAll_extends _ (arrivals (k + 1)))
    obtain ⟨hlength, -⟩ := List.getElem?_eq_some_iff.mp hdrop
    rw [← hothers, List.getElem?_append_left hlength]
    exact hdrop

/-- Until it is served it never falls back. -/
theorem Rounds.waits (h : Rounds queue arrivals served)
    (hplace : (enqueueAll (queue k) (arrivals k))[place]? = some key) (n : ℕ) :
    (∃ m, k ≤ m ∧ key ∈ served m) ∨
      ∃ later, later ≤ place ∧ (enqueueAll (queue (k + n)) (arrivals (k + n)))[later]? = some key := by
  induction n with
  | zero => exact .inr ⟨place, Nat.le_refl place, hplace⟩
  | succ n ih =>
    obtain hserved | ⟨later, hlater, hthere⟩ := ih
    · exact .inl hserved
    · obtain hserved | ⟨hle, hnext⟩ := h.moves hthere
      · exact .inl ⟨k + n, by omega, hserved⟩
      · exact .inr ⟨_, by omega, hnext⟩

/-- Rounds that serve somebody keep coming as long as somebody waits. -/
def Moving (queue arrivals served : ℕ → List α) : Prop :=
  ∀ k, ∃ m, k ≤ m ∧ (enqueueAll (queue m) (arrivals m) ≠ [] → served m ≠ [])

theorem Rounds.served_of_waiting (h : Rounds queue arrivals served)
    (hmoving : Moving queue arrivals served) (place : ℕ) : ∀ k,
      (enqueueAll (queue k) (arrivals k))[place]? = some key → ∃ m, k ≤ m ∧ key ∈ served m := by
  induction place using Nat.strongRecOn with
  | _ place ih =>
    intro k hplace
    obtain ⟨m, hkm, hm⟩ := hmoving k
    obtain hserved | ⟨later, hlater, hthere⟩ := h.waits hplace (m - k)
    · exact hserved
    · rw [Nat.add_sub_cancel' hkm] at hthere
      obtain hserved | ⟨hle, hnext⟩ := h.moves hthere
      · exact ⟨m, hkm, hserved⟩
      · have hwaiting : enqueueAll (queue m) (arrivals m) ≠ [] :=
          List.ne_nil_of_mem (List.mem_of_getElem? hthere)
        have hpositive := List.length_pos_iff.mpr (hm hwaiting)
        obtain ⟨n, hn, hserved⟩ := ih (later - (served m).length) (by omega) (m + 1) hnext
        exact ⟨n, by omega, hserved⟩

/-- A key that arrives is served in this round or a later one. -/
theorem Rounds.served_of_arrival (h : Rounds queue arrivals served)
    (hmoving : Moving queue arrivals served) (harrives : key ∈ arrivals k) :
    ∃ m, k ≤ m ∧ key ∈ served m := by
  obtain ⟨place, hplace⟩ :=
    List.mem_iff_getElem?.mp (@mem_enqueueAll α _ (queue k) (arrivals k) key harrives)
  exact h.served_of_waiting hmoving place k hplace

end RotatingQueues
