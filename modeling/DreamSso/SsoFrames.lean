import DreamSso.TokenRoute

/-!
What each command can change. A plain command reads tables or asks the
surroundings; only the commands that name a key can change its entry, and time
never runs backwards.
-/
namespace DreamSso

open Interleaving ExpiringStore

/-- The command reads a table or asks the surroundings. -/
def Command.plain : Command → Bool
  | .clientRow _ | .identityByUsername _ | .identityByEmail _ | .identityRow _ _ => true
  | .countPasskeys _ | .countAuthenticators _ | .passkeyIds _ | .passkeyRow _ => true
  | .sessionRow _ | .accessState _ _ | .orgRoleRow _ | .roleEffects _ => true
  | .permissionOverrides _ | .targetRow _ | .emailTaken _ _ | .usernameTaken _ _ => true
  | .verifyAuthentication _ _ _ | .ask _ | .dateNow => true
  | _ => false

/-- The command may change the entry of the key. -/
def Command.writesKey (k : Key) : Command → Bool
  | .set k' _ _ => decide (k' = k)
  | .setKeepTtl k' _ => decide (k' = k)
  | .del keys => decide (k ∈ keys)
  | .getdel k' => decide (k' = k)
  | .incr sub => decide (.stepupFail sub = k)
  | .expire k' _ => decide (k' = k)
  | _ => false

/-- The command reads the entry of the key or may change it. -/
def Command.touchesKey (k : Key) : Command → Bool
  | .get k' => decide (k' = k)
  | c => c.writesKey k

theorem Command.touchesKey_of_plain {c : Command} (h : c.plain = true) (k : Key) :
    c.touchesKey k = false := by
  cases c <;> first | exact absurd h Bool.false_ne_true | rfl

theorem Command.writesKey_of_not_touches {c : Command} {k : Key} (h : c.touchesKey k = false) :
    c.writesKey k = false := by
  cases c <;> first | rfl | exact h

namespace Sso

variable {P : Primitives} {out : Outside} {s s' : Sso}

theorem perform_plain {c : Command} (h : c.plain = true) : (perform P out c s).2 = s := by
  cases c <;> first | exact absurd h Bool.false_ne_true | rfl

theorem perform_clock (c : Command) : (perform P out c s).2.clock = s.clock := by
  cases c with
  | updateProfile sub changes =>
    simp only [perform, updateProfile]
    split_ifs <;> rfl
  | insertSession session =>
    simp only [perform]
    split <;> rfl
  | persistSession sid tokenHash =>
    simp only [perform]
    split_ifs <;> rfl
  | enqueueLogout clientId sub sid =>
    simp only [perform, enqueueLogout]
    split <;> rfl
  | _ => rfl

theorem perform_redis {c : Command} {k : Key} (h : c.writesKey k = false) :
    (perform P out c s).2.redis k = s.redis k := by
  cases c with
  | set k' v ttl => exact setEx_ne _ _ _ fun hk => (of_decide_eq_false h) hk.symm
  | setKeepTtl k' v => exact setKeepTtl_ne _ _ _ fun hk => (of_decide_eq_false h) hk.symm
  | del keys => exact del_of_notMem _ (of_decide_eq_false h)
  | getdel k' =>
    refine del_of_notMem _ fun hk => of_decide_eq_false h ?_
    exact (List.mem_singleton.mp hk).symm
  | incr sub => exact setKeepTtl_ne _ _ _ fun hk => (of_decide_eq_false h) hk.symm
  | expire k' ttl => exact expire_ne _ _ _ fun hk => (of_decide_eq_false h) hk.symm
  | updateProfile sub changes =>
    simp only [perform, updateProfile]
    split_ifs <;> rfl
  | insertSession session =>
    simp only [perform]
    split <;> rfl
  | persistSession sid tokenHash =>
    simp only [perform]
    split_ifs <;> rfl
  | enqueueLogout clientId sub sid =>
    simp only [perform, enqueueLogout]
    split <;> rfl
  | _ => rfl

theorem perform_draws {c : Command} (h : c ≠ .randomBytes) :
    (perform P out c s).2.draws = s.draws := by
  cases c with
  | randomBytes => exact absurd rfl h
  | updateProfile sub changes =>
    simp only [perform, updateProfile]
    split_ifs <;> rfl
  | insertSession session =>
    simp only [perform]
    split <;> rfl
  | persistSession sid tokenHash =>
    simp only [perform]
    split_ifs <;> rfl
  | enqueueLogout clientId sub sid =>
    simp only [perform, enqueueLogout]
    split <;> rfl
  | _ => rfl

/-- The entry after a write that keeps its time to live. -/
theorem perform_setKeepTtl (k : Key) (v : k.Value) :
    (perform P out (.setKeepTtl k v) s).2.redis k =
      some ⟨v, (visible? s.redis s.clock k).bind Stored.deadline⟩ := Function.update_self ..

theorem perform_set (k : Key) (v : k.Value) (ttl : ℕ) :
    (perform P out (.set k v ttl) s).2.redis k = some ⟨v, some (s.clock + milliseconds ttl)⟩ :=
  Function.update_self ..

theorem perform_del {k : Key} {keys : List Key} (h : k ∈ keys) :
    (perform P out (.del keys) s).2.redis k = none := del_of_mem _ h

theorem faulty_redis (w : Interleaving.Outcome × Outside) {c : Command} {k : Key}
    (h : c.writesKey k = false) :
    ((ssoServer P).faulty.perform w c s).2.redis k = s.redis k := by
  rcases Server.faulty_store w c s with hnot | hdone
  · rw [hnot]
  · rw [hdone]
    exact perform_redis h

theorem drift_redis {e : Drift} (h : drift e s = some s') : s'.redis = s.redis := by
  cases e with
  | tick ms =>
    cases h
    rfl
  | settle index succeeds =>
    simp only [drift] at h
    split at h
    · cases h
    · cases h
      cases succeeds <;> rfl

theorem drift_draws {e : Drift} (h : drift e s = some s') : s'.draws = s.draws := by
  cases e with
  | tick ms =>
    cases h
    rfl
  | settle index succeeds =>
    simp only [drift] at h
    split at h
    · cases h
    · cases h
      cases succeeds <;> rfl

theorem drift_clock {e : Drift} (h : drift e s = some s') : s.clock ≤ s'.clock := by
  cases e with
  | tick ms =>
    cases h
    show s.clock ≤ s.clock + (ms : ℤ)
    omega
  | settle index succeeds =>
    simp only [drift] at h
    split at h
    · cases h
    · cases h
      cases succeeds <;> exact le_rfl

end Sso

end DreamSso
