import DreamSso.SigningKeySafety

/-!
Runs of any number of calls on the signing keys, in any number of processes. A statement may
fail and a transaction may commit without an answer; a call that is not scheduled any more
has crashed. The phase of a call is what it has read last.
-/
namespace DreamSso.SigningKeys

open Interleaving JsStrings KeyedTables Transitions

section Phases

variable {ρ : Type}

/-- What a call knows: the start of the read it is about to make, the key set it read, the
one it answers with, the signer it found, or that it has reconciled a key. -/
inductive KeyPhase
  | idle
  | looked (started : ℕ)
  | read (started : ℕ) (value : List JsString)
  | served (value : List JsString)
  | informed (kid : JsString)
  | reconciled

def KeyPhase.found (rows : List KeyRow) : KeyPhase :=
  match current? rows with
  | some x => .informed x.1
  | none => .idle

def KeyPhase.next : KeyPhase → (c : KeyCommand ρ) → Option c.Reply → KeyPhase
  | _, .select, some reply => .found reply.1
  | _, .lookup _, some (.hit value) => .served value
  | _, .lookup _, some (.miss started) => .looked started
  | .looked started, .selectJwks, some value => .read started value
  | .read _ value, .publish _ _ _, some true => .served value
  | _, .reconcileKey _, some _ => .reconciled
  | .reconciled, .changed _, some _ => .reconciled
  | _, _, _ => .idle

/-- A key set is cached as it was read. -/
def KeyPhase.Allows : KeyPhase → KeyCommand ρ → Prop
  | .read started value, .publish _ value' started' => value' = value ∧ started' = started
  | _, .publish _ _ _ => False
  | _, _ => True

def keyProtocol (ρ : Type) : Protocol (KeyCommand ρ) KeyCommand.Reply KeyPhase where
  next := KeyPhase.next
  ok := KeyPhase.Allows

/-- A call answers with what it has read. -/
def keyPost : KeyPhase → Option KeyAnswer → Prop
  | g, some (.signer kid) => g = .informed kid
  | g, some (.status s) => g = .informed s.kid
  | g, some .reconciled => g = .reconciled
  | g, some (.jwks value) => g = .served value
  | _, none => True

theorem next_select (g : KeyPhase) (r : List KeyRow × ℕ) :
    g.next (.select : KeyCommand ρ) (some r) = .found r.1 := by cases g <;> rfl

theorem next_hit (g : KeyPhase) (process : ρ) (value : List JsString) :
    g.next (.lookup process) (some (.hit value)) = .served value := by cases g <;> rfl

theorem next_miss (g : KeyPhase) (process : ρ) (started : ℕ) :
    g.next (.lookup process) (some (.miss started)) = .looked started := by cases g <;> rfl

theorem next_reconcileKey (g : KeyPhase) (kid : JsString) (modified : Bool) :
    g.next (.reconcileKey kid : KeyCommand ρ) (some modified) = .reconciled := by cases g <;> rfl

/-- The call keeps to the protocol from a phase on. -/
def Keeps (g : KeyPhase) (p : KeyProg ρ KeyAnswer) : Prop :=
  (keyProtocol ρ).Obeys keyPost g p

theorem keeps_await {c : KeyCommand ρ} {f : c.Reply → KeyProg ρ KeyAnswer} {g : KeyPhase}
    (hok : g.Allows c) (h : ∀ r, Keeps (g.next c (some r)) (f r)) : Keeps g (await c >>= f) :=
  Protocol.obeys_await_bind.mpr ⟨hok, trivial, h⟩

theorem keeps_orThrow {β : Type} {o : Option β} {f : β → KeyProg ρ KeyAnswer} {g : KeyPhase}
    (h : ∀ b, o = some b → Keeps g (f b)) : Keeps g (orThrow o >>= f) := by
  cases o with
  | none => trivial
  | some b => exact h b rfl

theorem keeps_rows {f : List KeyRow × ℕ → KeyProg ρ KeyAnswer} {g : KeyPhase}
    (hok : g.Allows (.select : KeyCommand ρ))
    (h : ∀ found observed, Keeps (.found found) (f (found, observed))) :
    Keeps g (rows >>= f) := by
  rw [rows, Prog.bind_assoc]
  refine keeps_await hok fun r => ?_
  rw [Prog.bind_assoc]
  refine keeps_orThrow fun found hfound => ?_
  rw [need_eq_some hfound]
  exact h r.1 r.2

theorem found_allows {rows : List KeyRow} {c : KeyCommand ρ}
    (hc : ∀ process value started, c ≠ .publish process value started) :
    (KeyPhase.found rows).Allows c := by
  cases c with
  | publish process value started => exact absurd rfl (hc process value started)
  | _ => unfold KeyPhase.found; split <;> trivial

/-- A failure to reconcile does not end the call. -/
theorem keeps_reconcile {process : ρ} {kid : JsString}
    {f : Option Unit → KeyProg ρ KeyAnswer} {g : KeyPhase}
    (hok : g.Allows (.reconcileKey kid : KeyCommand ρ)) (h : ∀ o g', Keeps g' (f o)) :
    Keeps g ((reconcile process kid).attempt >>= f) := by
  rw [Keeps, Protocol.obeys_bind, Protocol.obeys_attempt, reconcile]
  refine Protocol.obeys_await_bind.mpr ⟨hok, h none _, fun modified => ?_⟩
  show (keyProtocol ρ).Obeys _ (g.next (.reconcileKey kid) (some modified)) _
  rw [next_reconcileKey]
  cases modified with
  | true =>
    refine Protocol.obeys_await.mpr ⟨trivial, fun r => ?_⟩
    cases r with
    | none => exact h none _
    | some r => exact h (some r) _
  | false => exact h (some ()) _

theorem keeps_bootstrapped {process : ρ} {f : List KeyRow × ℕ → KeyProg ρ KeyAnswer} {g : KeyPhase}
    (hok : g.Allows (.select : KeyCommand ρ))
    (h : ∀ found observed, Keeps (.found found) (f (found, observed))) :
    Keeps g (bootstrapped process >>= f) := by
  rw [bootstrapped, Prog.bind_assoc]
  refine keeps_rows hok fun found observed => ?_
  simp only
  split
  · exact h found observed
  · rw [Prog.bind_assoc]
    refine keeps_await (found_allows nofun) fun _ => ?_
    have hidle : ∀ r, (KeyPhase.found found).next (.firstKey : KeyCommand ρ) r = .idle := by
      intro r
      unfold KeyPhase.found
      split <;> rfl
    rw [hidle, Prog.bind_assoc]
    refine keeps_await trivial fun _ => ?_
    exact keeps_rows trivial h

theorem keeps_reconciled {process : ρ} {strictReconcile : Bool} {found : List KeyRow}
    {observed : ℕ} {f : List KeyRow → KeyProg ρ KeyAnswer}
    (h : ∀ found, Keeps (.found found) (f found)) :
    Keeps (.found found) (reconciled process strictReconcile found observed >>= f) := by
  have hreread : ∀ g, Keeps g ((rows >>= fun r => pure r.1) >>= f : KeyProg ρ KeyAnswer) := by
    intro g
    rw [Prog.bind_assoc]
    exact keeps_rows (by cases g <;> trivial) fun found _ => h found
  unfold reconciled
  split
  · exact h found
  · next x hx =>
    by_cases hdue : due x observed = true
    · rw [if_pos hdue, Prog.bind_assoc]
      refine keeps_reconcile (found_allows nofun) fun o g' => ?_
      cases o with
      | some _ => exact hreread g'
      | none =>
        simp only
        by_cases hstrict : strictReconcile = true
        · rw [if_pos hstrict]
          trivial
        · rw [if_neg hstrict]
          exact hreread g'
    · rw [if_neg hdue]
      exact h found

theorem keeps_current {process : ρ} {strictReconcile : Bool} {f : KeyRow → KeyProg ρ KeyAnswer}
    {g : KeyPhase} (hok : g.Allows (.select : KeyCommand ρ))
    (h : ∀ x, Keeps (.informed x.1) (f x)) :
    Keeps g (current process strictReconcile >>= f) := by
  rw [current, Prog.bind_assoc]
  refine keeps_bootstrapped hok fun found observed => ?_
  rw [Prog.bind_assoc]
  refine keeps_reconciled fun found => ?_
  refine keeps_orThrow fun x hx => ?_
  rw [show KeyPhase.found found = .informed x.1 by rw [KeyPhase.found, hx]]
  exact h x

theorem keeps_status {process : ρ} {g : KeyPhase} (hok : g.Allows (.select : KeyCommand ρ)) :
    Keeps g (status process >>= fun s => pure (.status s)) := by
  rw [status, Prog.bind_assoc]
  refine keeps_current hok fun x => ?_
  rw [Prog.bind_assoc]
  refine keeps_rows trivial fun found observed => ?_
  rw [Prog.bind_assoc]
  refine keeps_orThrow fun x hx => ?_
  rw [show KeyPhase.found found = .informed x.1 by rw [KeyPhase.found, hx]]
  exact rfl

theorem keeps_program (call : KeyCall ρ) : Keeps .idle call.program := by
  cases call with
  | current process => exact keeps_current trivial fun x => rfl
  | status process => exact keeps_status trivial
  | schedule process =>
    show Keeps .idle (schedule process >>= _)
    rw [schedule, Prog.bind_assoc]
    refine keeps_await trivial fun kid => ?_
    rw [Prog.bind_assoc]
    refine keeps_await trivial fun _ => ?_
    show Keeps .idle _
    rw [Prog.bind_assoc, reconcile, Prog.bind_assoc]
    refine keeps_await trivial fun modified => ?_
    cases modified with
    | true =>
      refine keeps_await trivial fun _ => ?_
      exact keeps_status trivial
    | false => exact keeps_status trivial
  | reconcile process kid =>
    show Keeps .idle (reconcile process kid >>= _)
    rw [reconcile, Prog.bind_assoc]
    refine keeps_await trivial fun modified => ?_
    cases modified with
    | true => exact keeps_await trivial fun _ => rfl
    | false => exact rfl
  | getJwks process =>
    show Keeps .idle (getJwks process >>= _)
    rw [getJwks, Prog.bind_assoc]
    refine keeps_await trivial fun found => ?_
    cases found with
    | hit value => exact rfl
    | miss started =>
      simp only
      rw [Prog.bind_assoc]
      refine keeps_await trivial fun value => ?_
      rw [Prog.bind_assoc]
      refine keeps_await ⟨rfl, rfl⟩ fun published => ?_
      cases published with
      | true => exact rfl
      | false => trivial

end Phases

section Facts

variable {ι ρ : Type} {s : KeyService ρ} {t : KeyTable}
  {hist : List (KeyService ρ × Entry ι (KeyCommand ρ) KeyCommand.Reply)}
  {e : Entry ι (KeyCommand ρ) KeyCommand.Reply} {value : List JsString} {started : ℕ}

/-- The key set was read from the table after this time. -/
def FromRead (hist : List (KeyService ρ × Entry ι (KeyCommand ρ) KeyCommand.Reply)) (started : ℕ)
    (value : List JsString) : Prop :=
  ∃ x ∈ hist, started ≤ x.1.clock ∧ value = x.1.keys.jwks x.1.clock

/-- The key set has the signer, and every key retired for less than a day. -/
def Serves (s : KeyService ρ) (value : List JsString) : Prop :=
  ∀ k r, s.keys.find? k = some r → r.status ≠ .next → r.Published s.clock → k ∈ value

structure KeyFacts (hist : List (KeyService ρ × Entry ι (KeyCommand ρ) KeyCommand.Reply))
    (s : KeyService ρ) : Prop where
  released : s.released ≤ s.clock
  past : ∀ x ∈ hist, x.1.clock ≤ s.clock
  onward : ∀ x ∈ hist, Onward x.1.keys s.keys
  since : ∀ x ∈ hist, s.released < x.1.clock → x.1.keys = s.keys
  sound : Sound hist s.released s.keys
  caches : ∀ process c, s.jwksCache process = some c → FromRead hist c.at_ c.value ∧ c.value ≠ []

theorem FromRead.later (h : FromRead hist started value)
    (x : KeyService ρ × Entry ι (KeyCommand ρ) KeyCommand.Reply) :
    FromRead (hist ++ [x]) started value := by
  obtain ⟨y, hy, hrest⟩ := h
  exact ⟨y, List.mem_append_left _ hy, hrest⟩

theorem forall_mem_recorded {q : KeyService ρ → Prop} (h : ∀ x ∈ hist, q x.1) (hs : q s) :
    ∀ x ∈ hist ++ [(s, e)], q x.1 := by
  intro x hx
  rcases List.mem_append.mp hx with hx | hx
  · exact h x hx
  · rw [List.mem_singleton.mp hx]
    exact hs

/-- A command has been executed on this store. -/
theorem KeyFacts.record (h : KeyFacts hist s) : KeyFacts (hist ++ [(s, e)]) s where
  released := h.released
  past := forall_mem_recorded (q := fun x => x.clock ≤ s.clock) h.past le_rfl
  onward := forall_mem_recorded (q := fun x => Onward x.keys s.keys) h.onward (.refl _)
  since := forall_mem_recorded (q := fun x => s.released < x.clock → x.keys = s.keys) h.since
    fun _ => rfl
  sound := h.sound.record
  caches process c hc := ⟨(h.caches process c hc).1.later _, (h.caches process c hc).2⟩

/-- The lock is released with a table that goes on from the one before. -/
theorem KeyFacts.release (h : KeyFacts hist s) (honward : Onward s.keys t)
    (hsound : Sound hist s.clock t) :
    KeyFacts hist { s with keys := t, released := s.clock } where
  released := le_rfl
  past := h.past
  onward x hx := (h.onward x hx).trans honward
  since x hx hlt := absurd (h.past x hx) (not_le.mpr hlt)
  sound := hsound
  caches := h.caches

theorem KeyFacts.tick (h : KeyFacts hist s) (elapsed : ℕ) :
    KeyFacts hist { s with clock := s.clock + elapsed } where
  released := h.released.trans (Nat.le_add_right ..)
  past x hx := (h.past x hx).trans (Nat.le_add_right ..)
  onward := h.onward
  since := h.since
  sound := h.sound
  caches := h.caches

/-- A key set that was read less than a minute ago is complete: what signs or has signed was
in the table when it was read. -/
theorem KeyFacts.serves (h : KeyFacts hist s) (hread : FromRead hist started value)
    (hne : value ≠ []) (hfresh : s.clock < started + JWKS_CACHE) : Serves s value := by
  intro k r hr hstatus hpublished
  obtain ⟨x, hx, hstarted, rfl⟩ := hread
  have hrow := h.sound.rows k r hr
  have hknown : Known k x.1 := by
    by_cases hrotation : r.rotation_id = none
    · obtain ⟨first, hfirst⟩ := List.exists_mem_of_ne_nil _ hne
      obtain ⟨r', hr', -⟩ := mem_jwks.mp hfirst
      exact hrow.first hrotation x hx ⟨first, r', hr'⟩
    · obtain ⟨p, hp, a, ha, v, -, hdue, hv⟩ := hrow.waited hrotation hstatus
      have hwindow := (KeyTable.checked hr).2.1 p hp a ha
      have hclock := h.released
      refine hrow.published p hp x hx ?_
      unfold milliseconds at hdue
      unfold SIGNING_KEY_PREPUBLICATION_SECONDS SECOND at hwindow
      unfold JWKS_CACHE SECOND at hfresh
      omega
  obtain ⟨r', hr'⟩ := hknown
  refine mem_jwks.mpr ⟨r', hr', fun hretired => ?_⟩
  obtain ⟨r'', hr'', hkept, -⟩ := h.onward x hx k r' hr'
  rw [hr] at hr''
  obtain rfl := Option.some.inj hr''
  have hsame := hkept hretired
  obtain ⟨at_, hat, hlt⟩ := hpublished (hsame ▸ hretired)
  exact ⟨at_, hsame ▸ hat, (h.past x hx).trans_lt hlt⟩

/-- The key set a process would answer with from its cache. -/
theorem KeyFacts.lookup (h : KeyFacts hist s) {process : ρ} (hhit : s.lookup process = .hit value) :
    Serves s value := by
  unfold KeyService.lookup at hhit
  split at hhit
  · next c hc =>
    split_ifs at hhit with hfresh
    obtain ⟨hread, hne⟩ := h.caches process c hc
    rw [← JwksLookup.hit.inj hhit]
    exact h.serves hread hne hfresh
  · cases hhit

theorem transaction_cases {α : Type} (s : KeyService ρ) (w : Interleaving.Outcome × Given)
    (work : KeyTable → Option (α × KeyTable)) :
    (s.transaction w work).2 = s ∨ (s.transaction w work).2 = { s with released := s.clock } ∨
      ∃ a t, w.2.Within s ∧ work s.keys = some (a, t) ∧
        (s.transaction w work).2 = { s with keys := t, released := s.clock } := by
  unfold KeyService.transaction
  split_ifs with hwithin
  · split
    · exact .inl rfl
    · exact .inr (.inl rfl)
    · next a t _ hwork => exact .inr (.inr ⟨a, t, hwithin, hwork, rfl⟩)
    · next a t _ hwork => exact .inr (.inr ⟨a, t, hwithin, hwork, rfl⟩)
  · exact .inl rfl

theorem transaction_answered {α : Type} {w : Interleaving.Outcome × Given}
    {work : KeyTable → Option (α × KeyTable)} {a : α} (h : (s.transaction w work).1 = some a) :
    ∃ t, work s.keys = some (a, t) := by
  unfold KeyService.transaction at h
  split_ifs at h
  split at h
  · cases h
  · cases h
  · next a' t _ hwork => exact ⟨t, Option.some.inj h ▸ hwork⟩
  · cases h

theorem KeyFacts.transaction {α : Type} {w : Interleaving.Outcome × Given}
    {work : KeyTable → Option (α × KeyTable)} (h : KeyFacts hist s)
    (hwork : ∀ a t, w.2.Within s → work s.keys = some (a, t) →
      Onward s.keys t ∧ Sound hist s.clock t) : KeyFacts hist (s.transaction w work).2 := by
  obtain hsame | hsame | ⟨a, t, hwithin, hdone, hstore⟩ := transaction_cases s w work
  · rw [hsame]
    exact h
  · rw [hsame]
    exact h.release (.refl _) (h.sound.mono h.released)
  · rw [hstore]
    obtain ⟨honward, hsound⟩ := hwork a t hwithin hdone
    exact h.release honward hsound

variable [DecidableEq ρ]

theorem KeyFacts.setCache (h : KeyFacts hist s) {process : ρ} {v : Option JwksCache}
    (hv : ∀ c, v = some c → FromRead hist c.at_ c.value ∧ c.value ≠ []) :
    KeyFacts hist (s.setCache process v) where
  released := h.released
  past := h.past
  onward := h.onward
  since := h.since
  sound := h.sound
  caches other c hc := by
    have hupdate : Function.update s.jwksCache process v other = some c := hc
    by_cases hother : other = process
    · rw [hother, Function.update_self] at hupdate
      exact hv c hupdate
    · rw [Function.update_of_ne hother] at hupdate
      exact h.caches other c hupdate

end Facts

section Steps

variable {ι ρ : Type} {s : KeyService ρ} {t : KeyTable} {g : Given} {kid : JsString}
  {hist : List (KeyService ρ × Entry ι (KeyCommand ρ) KeyCommand.Reply)}

theorem KeyFacts.firstKey (h : KeyFacts hist s) (hwork : firstKey g s.keys = some ((), t)) :
    Onward s.keys t ∧ Sound hist s.clock t := by
  rcases firstKey_cases hwork with rfl | hbegun
  · exact ⟨.refl _, h.sound.mono h.released⟩
  · exact ⟨hbegun.onward, .begun h.onward hbegun⟩

theorem KeyFacts.scheduleKey (h : KeyFacts hist s)
    (hwork : scheduleKey g s.keys = some (kid, t)) :
    Onward s.keys t ∧ Sound hist s.clock t := by
  obtain ⟨t₁, hfirst, hsecond⟩ := scheduleKey_cases hwork
  have hkept : Onward s.keys t₁ ∧ Sound hist s.clock t₁ := by
    rcases hfirst with rfl | hbegun
    · exact ⟨.refl _, h.sound.mono h.released⟩
    · exact ⟨hbegun.onward, .begun h.onward hbegun⟩
  rcases hsecond with ⟨rfl, -⟩ | ⟨-, hadded⟩
  · exact hkept
  · exact ⟨hkept.1.trans hadded.onward, hkept.2.added hadded⟩

theorem KeyFacts.reconcileKey (h : KeyFacts hist s) (hmem : ∃ x ∈ hist, x.1 = s)
    (hwithin : g.Within s) {modified : Bool}
    (hwork : reconcileKey g kid s.keys = some (modified, t)) :
    Onward s.keys t ∧ Sound hist s.clock t := by
  obtain ⟨-, hreleased, hfirst, hsecond, hlast⟩ := hwithin
  have hsound := h.sound.mono h.released
  obtain ⟨-, rfl | hmarked | hrotated⟩ := reconcileKey_cases hwork
  · exact ⟨.refl _, hsound⟩
  · refine ⟨hmarked.onward, hsound.marked (fun x hx hlt => ?_) ?_ hmarked⟩
    -- The transaction reads a key that an earlier one has committed.
    · obtain ⟨-, r, hr, -⟩ := hmarked
      refine ⟨r, ?_⟩
      rw [h.since x hx (by omega)]
      exact hr
    · obtain ⟨x, hx, rfl⟩ := hmem
      exact ⟨x, hx, hreleased.trans hfirst, rfl⟩
  · exact ⟨hrotated.onward, hsound.rotated hfirst hsecond hlast hrotated⟩

variable [DecidableEq ρ] {w : Interleaving.Outcome × Given} {i : ι}

theorem perform_lookup (process : ρ) :
    perform w (.lookup process) s = (some (s.lookup process), s) := rfl

theorem perform_publish (process : ρ) (value : List JsString) (started : ℕ) :
    perform w (.publish process value started) s = s.publish process value started := rfl

theorem publish_cases {process : ρ} {value : List JsString} {started : ℕ} :
    s.publish process value started = (some false, s) ∨
      (value ≠ [] ∧ ¬started + READ_LIMIT < s.clock ∧
        s.publish process value started =
          (some true, s.setCache process (some ⟨value, started⟩))) := by
  by_cases hrefused : started + READ_LIMIT < s.clock ∨ value = []
  · exact .inl (if_pos hrefused)
  · obtain ⟨hslow, hempty⟩ := not_or.mp hrefused
    exact .inr ⟨hempty, hslow, if_neg hrefused⟩

theorem perform_clock (c : KeyCommand ρ) : (perform w c s).2.clock = s.clock := by
  have hwork : ∀ {α : Type} {work : KeyTable → Option (α × KeyTable)},
      (s.transaction w work).2.clock = s.clock := by
    intro α work
    obtain hsame | hsame | ⟨a, t, -, -, hsame⟩ := transaction_cases s w work
    all_goals rw [hsame]
  cases c with
  | publish process value started =>
    rw [perform_publish]
    obtain hrefused | ⟨-, -, hpublished⟩ := publish_cases (s := s)
    · rw [hrefused]
    · rw [hpublished]
      rfl
  | firstKey => exact hwork
  | scheduleKey => exact hwork
  | reconcileKey kid => exact hwork
  | _ => rfl

/-- The last command of a call so far, with the store it was executed on. -/
def Last (hist : List (KeyService ρ × Entry ι (KeyCommand ρ) KeyCommand.Reply)) (i : ι)
    (x : KeyService ρ × Entry ι (KeyCommand ρ) KeyCommand.Reply) : Prop :=
  ∃ before after, hist = before ++ x :: after ∧ x.2.who = i ∧ ∀ y ∈ after, y.2.who ≠ i

/-- What a phase of a call says of the run so far. -/
def InPhase (hist : List (KeyService ρ × Entry ι (KeyCommand ρ) KeyCommand.Reply)) (clock : ℕ)
    (i : ι) : KeyPhase → Prop
  | .idle => True
  | .looked started => started ≤ clock
  | .read started value => FromRead hist started value
  | .served value => ∃ x, Last hist i x ∧ Serves x.1 value
  | .informed kid => ∃ x, Last hist i x ∧
      ∃ r, x.1.keys.find? kid = some r ∧ r.status = .current
  | .reconciled => True

omit [DecidableEq ρ] in
theorem fresh_of_timely {started : ℕ} (h : ¬started + READ_LIMIT < s.clock) :
    s.clock < started + JWKS_CACHE := by
  unfold READ_LIMIT SECOND at h
  unfold JWKS_CACHE SECOND
  omega

omit [DecidableEq ρ] in
theorem Last.self (e : Entry ι (KeyCommand ρ) KeyCommand.Reply) :
    Last (hist ++ [(s, e)]) e.who (s, e) := ⟨hist, [], rfl, rfl, nofun⟩

omit [DecidableEq ρ] in
theorem Last.later {x : KeyService ρ × Entry ι (KeyCommand ρ) KeyCommand.Reply}
    (h : Last hist i x)
    {more : List (KeyService ρ × Entry ι (KeyCommand ρ) KeyCommand.Reply)}
    (hmore : ∀ y ∈ more, y.2.who ≠ i) : Last (hist ++ more) i x := by
  obtain ⟨before, after, rfl, hwho, hafter⟩ := h
  refine ⟨before, after ++ more, by rw [List.append_assoc, List.cons_append], hwho, ?_⟩
  exact List.forall_mem_append.mpr ⟨hafter, hmore⟩

omit [DecidableEq ρ] in
theorem InPhase.later {clock clock' : ℕ} {g : KeyPhase} (h : InPhase hist clock i g)
    (hclock : clock ≤ clock')
    {more : List (KeyService ρ × Entry ι (KeyCommand ρ) KeyCommand.Reply)}
    (hmore : ∀ y ∈ more, y.2.who ≠ i) : InPhase (hist ++ more) clock' i g := by
  cases g with
  | idle => trivial
  | looked started =>
    unfold InPhase at h ⊢
    omega
  | read started value =>
    obtain ⟨x, hx, hrest⟩ := h
    exact ⟨x, List.mem_append_left _ hx, hrest⟩
  | served value =>
    obtain ⟨x, hx, hrest⟩ := h
    exact ⟨x, hx.later hmore, hrest⟩
  | informed kid =>
    obtain ⟨x, hx, hrest⟩ := h
    exact ⟨x, hx.later hmore, hrest⟩
  | reconciled => trivial

/-- A command of a call that keeps to the protocol. -/
theorem KeyFacts.act (h : KeyFacts hist s) {g : KeyPhase} {c : KeyCommand ρ} (hok : g.Allows c)
    (hphase : InPhase hist s.clock i g) :
    KeyFacts (hist ++ [(s, ⟨i, c, (perform w c s).1⟩)]) (perform w c s).2 := by
  cases c with
  | select => exact h.record
  | lookup process => exact h.record
  | selectJwks => exact h.record
  | firstKey => exact h.record.transaction fun _ t _ hwork => h.record.firstKey hwork
  | scheduleKey => exact h.record.transaction fun kid t _ hwork => h.record.scheduleKey hwork
  | reconcileKey kid =>
    refine h.record.transaction fun modified t hwithin hwork =>
      h.record.reconcileKey ?_ hwithin hwork
    exact ⟨_, List.mem_append_right _ (List.mem_singleton_self _), rfl⟩
  | changed process =>
    refine h.record.setCache fun c hc => ?_
    cases hc
  | publish process value started =>
    rw [perform_publish]
    cases g with
    | read started' value' =>
      obtain ⟨rfl, rfl⟩ := hok
      obtain hrefused | ⟨hne, -, hpublished⟩ := publish_cases (s := s)
      · rw [hrefused]
        exact h.record
      · rw [hpublished]
        refine h.record.setCache fun c hc => ?_
        rw [← Option.some.inj hc]
        exact ⟨FromRead.later hphase _, hne⟩
    | _ => exact absurd hok id

theorem select_reply (w : Interleaving.Outcome × Given) (s : KeyService ρ) :
    (perform w (.select : KeyCommand ρ) s).1 = some (s.keys.active, s.clock) ∨
      (perform w (.select : KeyCommand ρ) s).1 = none := by
  by_cases hanswered : w.1 = .answered
  · exact .inl (if_pos hanswered)
  · exact .inr (if_neg hanswered)

/-- The phase a command leads to says something true. -/
theorem KeyFacts.reaches (h : KeyFacts hist s) {g : KeyPhase} {c : KeyCommand ρ}
    (hok : g.Allows c) (hphase : InPhase hist s.clock i g) :
    InPhase (hist ++ [(s, ⟨i, c, (perform w c s).1⟩)]) s.clock i
      (g.next c (perform w c s).1) := by
  cases c with
  | select =>
    obtain hreply | hreply := select_reply w s
    · rw [hreply, next_select]
      unfold KeyPhase.found
      split
      · next x hx => exact ⟨(s, _), .self _, x.2, current_found hx⟩
      · trivial
    · rw [hreply]
      cases g <;> trivial
  | lookup process =>
    rw [perform_lookup]
    cases hlookup : s.lookup process with
    | hit value =>
      rw [next_hit]
      exact ⟨(s, _), .self _, h.lookup hlookup⟩
    | miss started =>
      rw [next_miss]
      unfold KeyService.lookup at hlookup
      show started ≤ s.clock
      split at hlookup
      · split_ifs at hlookup
        rw [← JwksLookup.miss.inj hlookup]
      · rw [← JwksLookup.miss.inj hlookup]
  | selectJwks =>
    by_cases hanswered : w.1 = .answered
    · have hreply : (perform w (.selectJwks : KeyCommand ρ) s).1 = some (s.keys.jwks s.clock) :=
        if_pos hanswered
      rw [hreply]
      cases g with
      | looked started =>
        exact ⟨(s, _), List.mem_append_right _ (List.mem_singleton_self _), hphase, rfl⟩
      | _ => trivial
    · have hreply : (perform w (.selectJwks : KeyCommand ρ) s).1 = none := if_neg hanswered
      rw [hreply]
      cases g <;> trivial
  | publish process value started =>
    cases g with
    | read started' value' =>
      obtain ⟨rfl, rfl⟩ := hok
      rw [perform_publish]
      obtain hrefused | ⟨hne, hfresh, hpublished⟩ := publish_cases (s := s)
      · rw [hrefused]
        trivial
      · rw [hpublished]
        exact ⟨(s, _), .self _, h.serves hphase hne (fresh_of_timely hfresh)⟩
    | _ => exact absurd hok id
  | firstKey => cases g <;> trivial
  | scheduleKey => cases g <;> trivial
  | reconcileKey kid =>
    cases hreply : (perform w (.reconcileKey kid : KeyCommand ρ) s).1 <;> cases g <;> trivial
  | changed process => cases g <;> trivial

end Steps

section Runs

variable {ι ρ : Type} [DecidableEq ι] [DecidableEq ρ] {calls : ι → KeyCall ρ}

/-- Runs of one program for each call; no process has a key set yet. -/
def keyRuns (calls : ι → KeyCall ρ) :
    System (Config ι (KeyCommand ρ) KeyCommand.Reply (KeyService ρ) KeyAnswer)
      (Move ι (Interleaving.Outcome × Given) ℕ) :=
  (keyServer ρ).system (fun s => s.released ≤ s.clock ∧ ∀ process, s.jwksCache process = none)
    fun i => (calls i).program

def keyPhases (log : List (Entry ι (KeyCommand ρ) KeyCommand.Reply)) (i : ι) : KeyPhase :=
  phases (fun _ => keyProtocol ρ) (fun _ => .idle) log i

/-- No condition on the steps of a run. -/
def anyStep : Condition ι (KeyCommand ρ) KeyCommand.Reply (KeyService ρ) ℕ where
  act _ _ _ _ := True
  drift _ _ _ := True

variable {start cfg : Config ι (KeyCommand ρ) KeyCommand.Reply (KeyService ρ) KeyAnswer}
  {trace : List (Event (Config ι (KeyCommand ρ) KeyCommand.Reply (KeyService ρ) KeyAnswer)
    (Move ι (Interleaving.Outcome × Given) ℕ))}

/-- What every command and every move of the time keeps holds after a run, and each call that
has answered has read what it answers. -/
theorem run_keeps
    {J : List (KeyService ρ × Entry ι (KeyCommand ρ) KeyCommand.Reply) → KeyService ρ → Prop}
    (hact : ∀ hist s i c w, J hist s → (keyPhases (entries hist) i).Allows c →
      J (hist ++ [(s, ⟨i, c, (perform w c s).1⟩)]) (perform w c s).2)
    (htick : ∀ hist s elapsed, J hist s → J hist { s with clock := s.clock + elapsed })
    (hinit : (keyRuns calls).initial start) (hrun : Exec (keyRuns calls) start trace cfg)
    (h : J [] start.store) :
    J (recorded trace) cfg.store ∧ ∀ i a, cfg.requests i = .done a →
      keyPost (keyPhases (entries (recorded trace)) i) (some a) := by
  obtain ⟨-, hlog, hrequests⟩ := hinit
  obtain ⟨⟨hkept, hentries⟩, hobeys⟩ := Server.run_recorded (P := fun _ : ι => keyProtocol ρ)
    (G := anyStep) (J := J) (fun hist s i c w hJ hok _ => hact hist s i c w hJ hok)
    (fun hist s s' elapsed hJ _ hdrift => by
      rw [← Option.some.inj hdrift]
      exact htick hist s elapsed hJ)
    hrun
    (fun e _ => by
      cases e.label with
      | act i w => exact fun _ _ _ => trivial
      | drift elapsed => trivial)
    hlog
    (fun i => by
      rw [hrequests]
      exact keeps_program (calls i)) h
  refine ⟨hkept, fun i a hdone => ?_⟩
  have hpost := hobeys i
  rw [hdone, hentries] at hpost
  exact hpost

/-- The phases go on with the command of one call. -/
theorem inPhase_step {hist : List (KeyService ρ × Entry ι (KeyCommand ρ) KeyCommand.Reply)}
    {s : KeyService ρ} {i : ι} {c : KeyCommand ρ} {w : Interleaving.Outcome × Given}
    (h : KeyFacts hist s) (hphases : ∀ j, InPhase hist s.clock j (keyPhases (entries hist) j))
    (hok : (keyPhases (entries hist) i).Allows c) (j : ι) :
    InPhase (hist ++ [(s, ⟨i, c, (perform w c s).1⟩)]) (perform w c s).2.clock j
      (keyPhases (entries (hist ++ [(s, ⟨i, c, (perform w c s).1⟩)])) j) := by
  rw [perform_clock, entries_append]
  obtain ⟨rfl, hnext⟩ | ⟨hother, hsame⟩ := phases_cases (fun _ : ι => keyProtocol ρ)
    (fun _ => .idle) (entries hist) i c (perform w c s).1 j
  · rw [keyPhases, hnext]
    exact h.reaches hok (hphases j)
  · rw [keyPhases, hsame]
    refine (hphases j).later le_rfl fun y hy => ?_
    rw [List.mem_singleton.mp hy]
    exact hother.symm

theorem keyFacts_start (hinit : (keyRuns calls).initial start) (hempty : start.store.keys = ∅) :
    KeyFacts ([] : List (KeyService ρ × Entry ι (KeyCommand ρ) KeyCommand.Reply)) start.store := by
  obtain ⟨⟨hreleased, hcaches⟩, -, -⟩ := hinit
  have hnone : ∀ k, start.store.keys.find? k = none := by
    intro k
    rw [hempty]
    exact Table.find?_empty k
  refine ⟨hreleased, nofun, nofun, nofun, ⟨fun k r hr => ?_, fun hrows => ?_,
    fun k _ r _ hr => ?_⟩, fun process c hc => ?_⟩
  · rw [hnone k] at hr
    cases hr
  · obtain ⟨k, r, hr⟩ := hrows
    rw [hnone k] at hr
    cases hr
  · rw [hnone k] at hr
    cases hr
  · rw [hcaches process] at hc
    cases hc

/-- A call that schedules a rotation while a key is pending gets the pending key. -/
theorem scheduleKey_pending {t t' : KeyTable} {g : Given} {k kid : JsString} {r : SigningKeyRow}
    (hr : t.find? k = some r) (hpending : r.status = .next)
    (h : scheduleKey g t = some (kid, t')) : kid = k ∧ t' = t := by
  obtain ⟨t₁, hfirst, hsecond⟩ := scheduleKey_cases h
  have hkept : t₁ = t := by
    rcases hfirst with rfl | hbegun
    · rfl
    · rw [hbegun.1 k] at hr
      cases hr
  rcases hsecond with ⟨rfl, x, hx, rfl⟩ | ⟨hnone, -⟩
  · obtain ⟨hfound, hnext⟩ := next_found hx
    exact ⟨KeyTable.one_next hfound hr hnext hpending, hkept⟩
  · have hmem : (k, r) ∈ t.active := by
      refine mem_active.mpr ⟨hr, ?_⟩
      rw [hpending]
      decide
    exact absurd (decide_eq_true hpending) (List.find?_eq_none.mp hnone _ hmem)

/-- What holds in every state of a run that starts with an empty table. -/
structure RotationSafe (hist : List (KeyService ρ × Entry ι (KeyCommand ρ) KeyCommand.Reply))
    (cfg : Config ι (KeyCommand ρ) KeyCommand.Reply (KeyService ρ) KeyAnswer) : Prop where
  one_current : ∀ k k' r r', cfg.store.keys.find? k = some r → cfg.store.keys.find? k' = some r' →
    r.status = .current → r'.status = .current → k = k'
  one_next : ∀ k k' r r', cfg.store.keys.find? k = some r → cfg.store.keys.find? k' = some r' →
    r.status = .next → r'.status = .next → k = k'
  signer : (∃ k r, cfg.store.keys.find? k = some r) → HasCurrent cfg.store.keys
  one_pending : ∀ g k r kid t, cfg.store.keys.find? k = some r → r.status = .next →
    scheduleKey g cfg.store.keys = some (kid, t) → kid = k ∧ t = cfg.store.keys
  one_bootstrap : OneBootstrap cfg.store.keys
  marked : ∀ k r, cfg.store.keys.find? k = some r → ∀ p ∈ r.published_at,
    (∃ x ∈ hist, x.1.released ≤ p ∧
      ∃ r', x.1.keys.find? k = some r' ∧ r'.published_at = none) ∧
    ∀ x ∈ hist, p < x.1.clock → Known k x.1
  waited : ∀ k r, cfg.store.keys.find? k = some r → r.rotation_id ≠ none → r.status ≠ .next →
    ∃ p ∈ r.published_at, ∃ v ∈ r.activated_at,
      p + SIGNING_KEY_PREPUBLICATION_SECONDS * SECOND < v + 1000 ∧ v ≤ cfg.store.clock
  ended : ∀ k r, cfg.store.keys.find? k = some r → r.status = .retired →
    ∃ v ∈ r.retired_at, v ≤ cfg.store.clock
  served : ∀ process value, cfg.store.lookup process = .hit value → Serves cfg.store value
  answered : ∀ i value, cfg.requests i = .done (.jwks value) →
    ∃ x, Last hist i x ∧ Serves x.1 value
  selected : ∀ i kid, cfg.requests i = .done (.signer kid) →
    ∃ x, Last hist i x ∧ ∃ r, x.1.keys.find? kid = some r ∧ r.status = .current

theorem rotation_safe (hinit : (keyRuns calls).initial start)
    (hrun : Exec (keyRuns calls) start trace cfg) (hempty : start.store.keys = ∅) :
    RotationSafe (recorded trace) cfg := by
  obtain ⟨⟨hfacts, hphases⟩, hposts⟩ := run_keeps
    (J := fun hist s => KeyFacts hist s ∧
      ∀ j, InPhase hist s.clock j (keyPhases (entries hist) j))
    (fun hist s i c w h hok => ⟨h.1.act hok (h.2 i), inPhase_step h.1 h.2 hok⟩)
    (fun hist s elapsed h => ⟨h.1.tick elapsed, fun j => by
      have hlater := (h.2 j).later (Nat.le_add_right s.clock elapsed) (List.forall_mem_nil _)
      rwa [List.append_nil] at hlater⟩)
    hinit hrun ⟨keyFacts_start hinit hempty, fun _ => trivial⟩
  constructor
  · exact fun k k' r r' => KeyTable.one_current
  · exact fun k k' r r' => KeyTable.one_next
  · exact hfacts.sound.current
  · exact fun g k r kid t => scheduleKey_pending
  · exact hfacts.sound.bootstrap
  · intro k r hr p hp
    have hrow := hfacts.sound.rows k r hr
    exact ⟨hrow.committed p hp, hrow.published p hp⟩
  · intro k r hr hrotation hstatus
    obtain ⟨p, hp, a, ha, v, hv, hdue, hle⟩ :=
      (hfacts.sound.rows k r hr).waited hrotation hstatus
    have hwindow := (KeyTable.checked hr).2.1 p hp a ha
    refine ⟨p, hp, v, hv, ?_, hle.trans hfacts.released⟩
    unfold milliseconds at hdue
    omega
  · intro k r hr hretired
    obtain ⟨v, hv, hle⟩ := (hfacts.sound.rows k r hr).ended hretired
    exact ⟨v, hv, hle.trans hfacts.released⟩
  · exact fun process value => hfacts.lookup
  · intro i value hdone
    have hphase := hphases i
    rw [show keyPhases (entries (recorded trace)) i = .served value from hposts i _ hdone] at hphase
    exact hphase
  · intro i kid hdone
    have hphase := hphases i
    rw [show keyPhases (entries (recorded trace)) i = .informed kid from hposts i _ hdone] at hphase
    exact hphase

/-- A phase in which a call knows of no signer. -/
def KeyPhase.Uninformed : KeyPhase → Prop
  | .informed _ => False
  | .reconciled => False
  | _ => True

/-- A call learns of a signer only from the active rows, and reconciles only beside one. -/
theorem uninformed_next {g : KeyPhase} {c : KeyCommand ρ} {w : Interleaving.Outcome × Given}
    {s : KeyService ρ} (hnone : ¬HasCurrent s.keys) (hg : g.Uninformed) :
    (g.next c (perform w c s).1).Uninformed := by
  cases c with
  | select =>
    obtain hreply | hreply := select_reply w s
    · rw [hreply, next_select]
      unfold KeyPhase.found
      split
      · next x hx => exact absurd ⟨x.1, x.2, current_found hx⟩ hnone
      · trivial
    · rw [hreply]
      cases g <;> trivial
  | lookup process =>
    rw [perform_lookup]
    cases hlookup : s.lookup process <;> cases g <;> trivial
  | reconcileKey kid =>
    cases hreply : (perform w (.reconcileKey kid : KeyCommand ρ) s).1 with
    | none => cases g <;> trivial
    | some modified =>
      obtain ⟨t, hwork⟩ := transaction_answered hreply
      exact absurd (reconcileKey_cases hwork).1 hnone
  | changed process =>
    cases g with
    | reconciled => exact absurd hg id
    | _ => trivial
  | selectJwks =>
    cases hreply : (perform w (.selectJwks : KeyCommand ρ) s).1 <;> cases g <;> trivial
  | publish process value started =>
    rw [perform_publish]
    obtain hrefused | ⟨-, -, hpublished⟩ := publish_cases (s := s)
    · rw [hrefused]
      cases g <;> trivial
    · rw [hpublished]
      cases g <;> trivial
  | _ => cases g <;> trivial

/-- The transactions leave a table without a signer as it is. -/
theorem signerless_kept {s : KeyService ρ} (hrows : ∃ k r, s.keys.find? k = some r)
    (hnone : ¬HasCurrent s.keys) (w : Interleaving.Outcome × Given) (c : KeyCommand ρ) :
    (perform w c s).2.keys = s.keys := by
  have hbegun : ∀ {g t}, ¬Begun g s.keys t := by
    intro g t h
    obtain ⟨k, r, hr⟩ := hrows
    rw [h.1 k] at hr
    cases hr
  have hwork : ∀ {α : Type} {work : KeyTable → Option (α × KeyTable)},
      (∀ a t, work s.keys = some (a, t) → t = s.keys) →
      (s.transaction w work).2.keys = s.keys := by
    intro α work h
    obtain hsame | hsame | ⟨a, t, -, hdone, hsame⟩ := transaction_cases s w work
    · rw [hsame]
    · rw [hsame]
    · rw [hsame]
      exact h a t hdone
  cases c with
  | firstKey =>
    exact hwork fun _ t hdone => (firstKey_cases hdone).resolve_right hbegun
  | scheduleKey =>
    refine hwork fun kid t hdone => ?_
    obtain ⟨t₁, hfirst, hsecond⟩ := scheduleKey_cases hdone
    obtain rfl := hfirst.resolve_right hbegun
    rcases hsecond with ⟨rfl, -⟩ | ⟨-, hcurrent, -⟩
    · rfl
    · exact absurd hcurrent hnone
  | reconcileKey kid =>
    exact hwork fun modified t hdone => absurd (reconcileKey_cases hdone).1 hnone
  | publish process value started =>
    rw [perform_publish]
    obtain hrefused | ⟨-, -, hpublished⟩ := publish_cases (s := s)
    · rw [hrefused]
    · rw [hpublished]
      rfl
  | _ => rfl

theorem rotation_stopped (hinit : (keyRuns calls).initial start)
    (hrun : Exec (keyRuns calls) start trace cfg)
    (hrows : ∃ k r, start.store.keys.find? k = some r) (hnone : ¬HasCurrent start.store.keys) :
    cfg.store.keys = start.store.keys ∧
      ∀ i a, cfg.requests i = .done a → ∃ value, a = .jwks value := by
  obtain ⟨⟨hkept, hstopped⟩, hposts⟩ := run_keeps
    (J := fun hist s => s.keys = start.store.keys ∧
      ∀ j, (keyPhases (entries hist) j).Uninformed)
    (fun hist s i c w h _ => by
      obtain ⟨hkeys, hphases⟩ := h
      rw [← hkeys] at hrows hnone
      refine ⟨(signerless_kept hrows hnone w c).trans hkeys, fun j => ?_⟩
      rw [entries_append]
      obtain ⟨rfl, hnext⟩ | ⟨-, hsame⟩ := phases_cases (fun _ : ι => keyProtocol ρ) (fun _ => .idle)
        (entries hist) i c (perform w c s).1 j
      · rw [keyPhases, hnext]
        exact uninformed_next hnone (hphases j)
      · rw [keyPhases, hsame]
        exact hphases j)
    (fun _ _ _ h => h) hinit hrun ⟨rfl, fun _ => trivial⟩
  refine ⟨hkept, fun i a hdone => ?_⟩
  have hphase := hstopped i
  have hpost := hposts i a hdone
  cases a with
  | signer kid =>
    rw [show _ = KeyPhase.informed kid from hpost] at hphase
    exact absurd hphase id
  | status s =>
    rw [show _ = KeyPhase.informed s.kid from hpost] at hphase
    exact absurd hphase id
  | reconciled =>
    rw [show _ = KeyPhase.reconciled from hpost] at hphase
    exact absurd hphase id
  | jwks value => exact ⟨value, rfl⟩

/-- Safety of a rotation in every run from an empty table, and the stop of every operation
that needs a signer where rows have none. -/
theorem signing_key_rotation (hinit : (keyRuns calls).initial start)
    (hrun : Exec (keyRuns calls) start trace cfg) :
    (start.store.keys = ∅ → RotationSafe (recorded trace) cfg) ∧
      ((∃ k r, start.store.keys.find? k = some r) → ¬HasCurrent start.store.keys →
        cfg.store.keys = start.store.keys ∧
          ∀ i a, cfg.requests i = .done a → ∃ value, a = .jwks value) :=
  ⟨rotation_safe hinit hrun, rotation_stopped hinit hrun⟩

end Runs

section Early

def rotationCalls : Bool → KeyCall Unit
  | false => .schedule ()
  | true => .current ()

def rotationStart : Config Bool (KeyCommand Unit) KeyCommand.Reply (KeyService Unit) KeyAnswer :=
  ⟨⟨∅, 0, 0, fun _ => none⟩, [], fun i => (rotationCalls i).program⟩

theorem rotationStart_initial : (keyRuns rotationCalls).initial rotationStart :=
  ⟨⟨le_rfl, fun _ => rfl⟩, rfl, rfl⟩

/-- All statements of a transaction are executed at this time. -/
def rotationGiven (at_ : ℕ) : Interleaving.Outcome × Given :=
  (.answered, ⟨at_, fun _ => at_, fun n => if n = 0 then js "a" else js "b", Uuid.numbered 1⟩)

/-- A key is scheduled and marked after 999 microseconds; a reader reconciles it when 300
seconds are over. -/
def rotationMoves : List (Move Bool (Interleaving.Outcome × Given) ℕ) :=
  [.act false (rotationGiven 0), .act false (rotationGiven 0), .drift 999,
    .act false (rotationGiven 999), .act false (rotationGiven 999), .drift 299999001,
    .act true (rotationGiven 300000000), .act true (rotationGiven 300000000)]

def rotatedRow : SigningKeyRow :=
  ⟨.current, 0, some 300000000, none, some (Uuid.numbered 1), some 999, some 300000999⟩

theorem rotation_run :
    ∃ cfg trace, Exec (keyRuns rotationCalls) rotationStart trace cfg ∧
      cfg.store.keys.find? (js "b") = some rotatedRow := by
  have hmoves : (rotationMoves.foldlM (keyServer Unit).step rotationStart).any (fun cfg =>
      decide (cfg.store.keys.find? (js "b") = some rotatedRow)) = true := by
    decide +kernel
  obtain ⟨cfg, hcfg, hrow⟩ := (Option.any_eq_true ..).mp hmoves
  obtain ⟨trace, hrun⟩ := Server.exec_of_moves hcfg
    (fun s => s.released ≤ s.clock ∧ ∀ process, s.jwksCache process = none)
    fun i => (rotationCalls i).program
  exact ⟨cfg, trace, hrun, of_decide_eq_true hrow⟩

theorem signing_key_rotation_rotated :
    ∃ cfg trace, Exec (keyRuns rotationCalls) rotationStart trace cfg ∧
      cfg.store.keys.find? (js "b") = some rotatedRow ∧ RotationSafe (recorded trace) cfg := by
  obtain ⟨cfg, trace, hrun, hrow⟩ := rotation_run
  exact ⟨cfg, trace, hrun, hrow, (signing_key_rotation rotationStart_initial hrun).1 rfl⟩

/-- The stamps are compared in whole milliseconds: a key marked after 999 microseconds is the
signer before its 300 seconds are over. -/
theorem rotated_early :
    ∃ cfg trace, (keyRuns rotationCalls).initial rotationStart ∧ rotationStart.store.keys = ∅ ∧
      Exec (keyRuns rotationCalls) rotationStart trace cfg ∧
      ∃ r, cfg.store.keys.find? (js "b") = some r ∧ r.status = .current ∧ r.rotation_id ≠ none ∧
        ∃ p ∈ r.published_at, ∃ v ∈ r.activated_at,
          v < p + SIGNING_KEY_PREPUBLICATION_SECONDS * SECOND := by
  obtain ⟨cfg, trace, hrun, hrow⟩ := rotation_run
  refine ⟨cfg, trace, rotationStart_initial, rfl, hrun, rotatedRow, hrow, rfl, nofun, 999, rfl,
    300000000, rfl, ?_⟩
  decide

end Early

end DreamSso.SigningKeys
