import DreamSso.Library.Interleaving

/-!
Programs that run by themselves: from their first command to their last nothing
else happens to the store. A program over one part of a store runs on the whole
store as it runs on the part.
-/
namespace Interleaving

variable {C D : Type} {R : C → Type} {S : D → Type} {σ τ α β ω ε υ ζ : Type}

/-- The result of a program and the store it leaves. -/
def Prog.alone (T : Server C R σ ω ε) (w : ω) : Prog C R α → σ → Option α × σ
  | .done a, s => (some a, s)
  | .thrown, s => (none, s)
  | .call c k, s => (k (T.perform w c s).1).alone T w (T.perform w c s).2

section Alone

variable (T : Server C R σ ω ε) (w : ω)

@[simp] theorem alone_done (a : α) (s : σ) : (Prog.done a : Prog C R α).alone T w s = (some a, s) :=
  rfl

@[simp] theorem alone_pure (a : α) (s : σ) : (pure a : Prog C R α).alone T w s = (some a, s) := rfl

/-- What follows a program that has returned, or the store of one that has thrown. -/
def followed (f : α → Prog C R β) : Option α × σ → Option β × σ
  | (some a, s) => (f a).alone T w s
  | (none, s) => (none, s)

theorem alone_bind (p : Prog C R α) (f : α → Prog C R β) (s : σ) :
    (p >>= f).alone T w s = followed T w f (p.alone T w s) := by
  induction p generalizing s with
  | done a => rfl
  | thrown => rfl
  | call c k ih => exact ih _ _

theorem alone_await (c : C) (s : σ) : (Prog.await c : Prog C R (R c)).alone T w s =
    T.perform w c s := by
  rw [Prog.await, Prog.alone]
  cases h : T.perform w c s with
  | mk r s' =>
    cases r with
    | none => rfl
    | some r => rfl

theorem alone_await_bind (c : C) (f : R c → Prog C R β) (s : σ) :
    (Prog.await c >>= f).alone T w s = followed T w f (T.perform w c s) := by
  rw [alone_bind, alone_await]

end Alone

/-- A program over one part of a store as a program over the whole. -/
def Prog.within (f : C → D) (g : ∀ c, S (f c) → R c) : Prog C R α → Prog D S α
  | .done a => .done a
  | .thrown => .thrown
  | .call c k => .call (f c) fun r => (k (r.map (g c))).within f g

section Within

variable {f : C → D} {g : ∀ c, S (f c) → R c} {T : Server C R σ ω ε} {U : Server D S τ υ ζ}
  {part : τ → σ} {set : τ → σ → τ} {w : ω} {v : υ}

/-- A program that keeps to a protocol of the part keeps to one of the whole that agrees with
it. -/
theorem Protocol.obeys_within {γ : Type} {P : Protocol C R γ} {Q : Protocol D S γ}
    {post : γ → Option α → Prop} (hok : ∀ phase c, P.ok phase c → Q.ok phase (f c))
    (hnext : ∀ phase c r, Q.next phase (f c) r = P.next phase c (r.map (g c))) {p : Prog C R α}
    {phase : γ} (h : P.Obeys post phase p) : Q.Obeys post phase (p.within f g) := by
  induction p generalizing phase with
  | done a => exact h
  | thrown => exact h
  | call c k ih =>
    refine ⟨hok phase c h.1, fun r => ?_⟩
    rw [hnext]
    exact ih _ (h.2 _)

/-- The commands of the part are executed on the part. -/
structure Embeds (f : C → D) (g : ∀ c, S (f c) → R c) (T : Server C R σ ω ε) (U : Server D S τ υ ζ)
    (part : τ → σ) (set : τ → σ → τ) (w : ω) (v : υ) : Prop where
  perform : ∀ c t, ((U.perform v (f c) t).1.map (g c), (U.perform v (f c) t).2) =
    ((T.perform w c (part t)).1, set t (T.perform w c (part t)).2)
  part_set : ∀ t s, part (set t s) = s
  set_set : ∀ t s s', set (set t s) s' = set t s'
  set_part : ∀ t, set t (part t) = t

theorem alone_within (h : Embeds f g T U part set w v) (p : Prog C R α) (t : τ) :
    (p.within f g).alone U v t =
      ((p.alone T w (part t)).1, set t (p.alone T w (part t)).2) := by
  induction p generalizing t with
  | done a => simp [Prog.within, Prog.alone, h.set_part]
  | thrown => simp [Prog.within, Prog.alone, h.set_part]
  | call c k ih =>
    have hperform := Prod.mk.inj (h.perform c t)
    rw [Prog.within, Prog.alone, Prog.alone, ih, hperform.1, hperform.2, h.part_set, h.set_set]

end Within

end Interleaving
