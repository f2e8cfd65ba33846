import DreamSso.ClientKeyRotation

/-!
What rotating the account server's client key keeps: the signer is always served,
a key becomes the signer only after it has been served for the propagation time,
and a replaced signer goes on being served for the retention time.
-/
namespace DreamSso.ClientKeys

open Interleaving IsoDates JsStrings JsonValues JsonValues.Json Transitions

theorem withoutMark_encode {C : NodeCrypto} (s : State C) : withoutMark (encode s) = encode s :=
  if_neg nofun

section Reading

variable {C : NodeCrypto} {raw : JsString} {at_ at' : ℤ} {s s' : State C}

/-- A written state is read back at any time. -/
theorem readText_encode (h : s.Sound) (hbytes : byteLength (encode s) ≤ MAX_BYTES) (at_ : ℤ) :
    readText C (encode s) at_ = some s := by
  have hok : ¬ (encode s = [] ∨ MAX_BYTES < byteLength (encode s)) := by
    rintro (hnil | hlong)
    · cases hnil
    · exact not_lt.mpr hbytes hlong
  rw [readText, if_neg hok, withoutMark_encode, decode_encode h]

theorem readText_decode (h : readText C raw at_ = some s) :
    decode C (withoutMark raw) at_ = some s := (Option.ite_none_left_eq_some.mp h).2

theorem readText_sameKeys (h : readText C raw at_ = some s) (h' : readText C raw at' = some s') :
    s.SameKeys s' := decode_sameKeys (readText_decode h) (readText_decode h')

end Reading

variable (C : NodeCrypto)

abbrev KeyRun := List (Event Host Move)

/-- The readers of the file get the key. -/
def Served (key : PublicKey) (h : Host) : Prop :=
  ∃ keys, getClientPublicJwks C h = some keys ∧ key ∈ keys

def Move.inOperation : Move → Bool
  | .act _ => true
  | .tick => true
  | _ => false

/-- The operation that holds the lock has not written the file. -/
def Unwritten (trace : KeyRun) (h : Host) : Prop :=
  ∃ first e rest, trace = first ++ e :: rest ∧ (∃ operation, e.label = .start operation) ∧
    (∀ x ∈ rest, x.label.inOperation = true) ∧ ∀ x ∈ e :: rest, x.before.file = h.file

/-- The operation that holds the lock has taken this time, and the file is the one
it was then. -/
def TakenAt (time : ℤ) (trace : KeyRun) (h : Host) : Prop :=
  ∃ first e rest, trace = first ++ e :: rest ∧ e.before.clock = time ∧
    ∀ x ∈ e :: rest, x.label.inOperation = true ∧ x.before.file = h.file

/-- From a moment at that time on the key has been served. -/
def PublishedSince (key : PublicKey) (time : ℤ) (trace : KeyRun) : Prop :=
  ∃ first e rest, trace = first ++ e :: rest ∧ e.before.clock = time ∧
    ∀ x ∈ e :: rest, Served C key x.before

section Snoc

variable {trace : KeyRun} {h h' : Host} {m : Move} {time : ℤ}

theorem forall_mem_snoc {Q : Event Host Move → Prop} {e x : Event Host Move} {rest : KeyRun}
    (h : ∀ y ∈ e :: rest, Q y) (hx : Q x) : ∀ y ∈ e :: (rest ++ [x]), Q y := by
  intro y hy
  rw [← List.cons_append] at hy
  rcases List.mem_append.mp hy with hy | hy
  · exact h y hy
  · exact List.mem_singleton.mp hy ▸ hx

theorem Unwritten.snoc (h : Unwritten trace h₀) (hm : m.inOperation = true)
    (hfile : h'.file = h₀.file) : Unwritten (trace ++ [⟨h₀, m, h'⟩]) h' := by
  obtain ⟨first, e, rest, htrace, hstart, hlabels, hfiles⟩ := h
  refine ⟨first, e, rest ++ [⟨h₀, m, h'⟩], by simp [htrace], hstart, ?_, ?_⟩
  · intro x hx
    rcases List.mem_append.mp hx with hx | hx
    · exact hlabels x hx
    · exact List.mem_singleton.mp hx ▸ hm
  · exact forall_mem_snoc (fun x hx => (hfiles x hx).trans hfile.symm) hfile.symm

theorem TakenAt.snoc (h : TakenAt time trace h₀) (hm : m.inOperation = true)
    (hfile : h'.file = h₀.file) : TakenAt time (trace ++ [⟨h₀, m, h'⟩]) h' := by
  obtain ⟨first, e, rest, htrace, htime, hrest⟩ := h
  refine ⟨first, e, rest ++ [⟨h₀, m, h'⟩], by simp [htrace], htime, ?_⟩
  exact forall_mem_snoc (fun x hx => ⟨(hrest x hx).1, (hrest x hx).2.trans hfile.symm⟩)
    ⟨hm, hfile.symm⟩

theorem takenAt_snoc (hm : m.inOperation = true) (hfile : h'.file = h₀.file) :
    TakenAt h₀.clock (trace ++ [⟨h₀, m, h'⟩]) h' := by
  refine ⟨trace, ⟨h₀, m, h'⟩, [], rfl, rfl, fun x hx => ?_⟩
  rw [List.mem_singleton.mp hx]
  exact ⟨hm, hfile.symm⟩

variable {C} in
theorem PublishedSince.snoc {key : PublicKey} {e : Event Host Move}
    (h : PublishedSince C key time trace) (hserved : Served C key e.before) :
    PublishedSince C key time (trace ++ [e]) := by
  obtain ⟨first, e', rest, htrace, htime, hrest⟩ := h
  exact ⟨first, e', rest ++ [e], by simp [htrace], htime, forall_mem_snoc hrest hserved⟩

end Snoc

/-- The names a run may give to its keys: those of the first file and those of the
pairs generated so far. -/
def KnownKid (kids : List JsString) (generated : ℕ) (kid : JsString) : Prop :=
  kid ∈ kids ∨ ∃ n < generated, kid = C.thumbprint (C.generateKeyPair n).1

/-- The file is the first one or holds a state that was written. A pending key has
room among the retired ones and was created in the past, in a written file. -/
structure FileOk (kids : List JsString) (start : JsString) (h : Host) : Prop where
  form : h.file = start ∨
    ∃ s : State C, s.Sound ∧ byteLength (encode s) ≤ MAX_BYTES ∧ h.file = encode s
  known : ∀ at_ (s : State C), readText C h.file at_ = some s →
    ∀ kid ∈ s.kids, KnownKid C kids h.keys kid
  pending : ∀ at_ (s : State C) p, readText C h.file at_ = some s → s.pending = some p →
    s.retired.length < MAX_RETIRED ∧ p.created_at.ms ≤ h.clock ∧
      ∀ at', readText C h.file at' = some s

/-- What a phase of the operation says of the run and the host. -/
def Related (kids : List JsString) (trace : KeyRun) (h : Host) : Phase C → Prop
  | .opening fresh => fresh = true → Unwritten trace h
  | .timed fresh at_ => (fresh = true → Unwritten trace h) ∧ at_ ≤ h.clock
  | .loaded fresh s at_ =>
      (fresh = true → Unwritten trace h) ∧ at_ ≤ h.clock ∧ readText C h.file at_ = some s
  | .stamped fresh s at_ first last =>
      (fresh = true → Unwritten trace h) ∧ at_ ≤ first ∧ first ≤ last ∧ last ≤ h.clock ∧
        readText C h.file at_ = some s ∧ TakenAt last trace h ∧
        ∀ p, s.pending = some p → p.created_at.ms ≤ first
  | .named s at_ last _ =>
      Unwritten trace h ∧ last ≤ h.clock ∧ readText C h.file at_ = some s ∧ s.pending = none ∧
        (s.pruned last).length < MAX_RETIRED
  | .keyed s at_ last _ key =>
      Unwritten trace h ∧ last ≤ h.clock ∧ readText C h.file at_ = some s ∧ s.pending = none ∧
        (s.pruned last).length < MAX_RETIRED ∧
        ∀ k ∈ key, k.pub.kid ∉ s.kids ∧ KnownKid C kids h.keys k.pub.kid
  | .ended => True

variable {C}

section Related

variable {kids : List JsString} {start : JsString} {trace : KeyRun} {h h' : Host} {m : Move}
  {g : Phase C} {c : Command}

theorem KnownKid.mono {n n' : ℕ} {kid : JsString} (h : KnownKid C kids n kid) (hle : n ≤ n') :
    KnownKid C kids n' kid := by
  rcases h with hold | ⟨i, hi, rfl⟩
  · exact .inl hold
  · exact .inr ⟨i, by omega, rfl⟩

/-- A step of an operation that leaves the file alone. -/
structure Quiet (h : Host) (m : Move) (h' : Host) : Prop where
  label : m.inOperation = true
  file : h'.file = h.file
  clock : h.clock ≤ h'.clock
  keys : h.keys ≤ h'.keys

theorem FileOk.later (hfile : FileOk C kids start h) (hsame : h'.file = h.file)
    (hclock : h.clock ≤ h'.clock) (hkeys : h.keys ≤ h'.keys) : FileOk C kids start h' := by
  refine ⟨hsame ▸ hfile.form, fun at_ s hread kid hkid => ?_, fun at_ s p hread hp => ?_⟩
  · rw [hsame] at hread
    exact (hfile.known at_ s hread kid hkid).mono hkeys
  · rw [hsame] at hread ⊢
    obtain ⟨hroom, hcreated, hagain⟩ := hfile.pending at_ s p hread hp
    exact ⟨hroom, hcreated.trans hclock, hagain⟩

theorem Related.quiet (hrel : Related C kids trace h g) (hq : Quiet h m h') :
    Related C kids (trace ++ [⟨h, m, h'⟩]) h' g := by
  cases g with
  | opening fresh => exact fun hfresh => (hrel hfresh).snoc hq.label hq.file
  | timed fresh at_ =>
    exact ⟨fun hfresh => (hrel.1 hfresh).snoc hq.label hq.file, hrel.2.trans hq.clock⟩
  | loaded fresh s at_ =>
    obtain ⟨hunwritten, hat, hread⟩ := hrel
    exact ⟨fun hfresh => (hunwritten hfresh).snoc hq.label hq.file, hat.trans hq.clock,
      hq.file ▸ hread⟩
  | stamped fresh s at_ first last =>
    obtain ⟨hunwritten, hat, hle, hlast, hread, htaken, hcreated⟩ := hrel
    exact ⟨fun hfresh => (hunwritten hfresh).snoc hq.label hq.file, hat, hle,
      hlast.trans hq.clock, hq.file ▸ hread, htaken.snoc hq.label hq.file, hcreated⟩
  | named s at_ last id =>
    obtain ⟨hunwritten, hlast, hread, hrest⟩ := hrel
    exact ⟨hunwritten.snoc hq.label hq.file, hlast.trans hq.clock, hq.file ▸ hread, hrest⟩
  | keyed s at_ last id key =>
    obtain ⟨hunwritten, hlast, hread, hpending, hroom, hkey⟩ := hrel
    exact ⟨hunwritten.snoc hq.label hq.file, hlast.trans hq.clock, hq.file ▸ hread, hpending,
      hroom, fun k hk => ⟨(hkey k hk).1, (hkey k hk).2.mono hq.keys⟩⟩
  | ended => trivial

/-- The pairs that will be generated have names of their own. -/
structure NewNames (C : NodeCrypto) (kids : List JsString) : Prop where
  distinct : Function.Injective fun n => C.thumbprint (C.generateKeyPair n).1
  unused : ∀ n, C.thumbprint (C.generateKeyPair n).1 ∉ kids

theorem NewNames.unknown (hnew : NewNames C kids) {n : ℕ} :
    ¬ KnownKid C kids n (C.thumbprint (C.generateKeyPair n).1) := by
  rintro (hold | ⟨i, hi, heq⟩)
  · exact hnew.unused n hold
  · have hni := hnew.distinct heq
    omega

/-- The commands that leave the file alone, and what they reply. -/
theorem quiet_perform (hc : ∀ bytes, c ≠ .rename bytes) (k : Option (Job ClientKeyStatus)) :
    Quiet h (.act true) { (h.perform c).1 with running := k } := by
  cases c with
  | rename bytes => exact absurd rfl (hc bytes)
  | generateKeyPair => exact ⟨rfl, rfl, le_rfl, Nat.le_succ _⟩
  | _ => exact ⟨rfl, rfl, le_rfl, le_rfl⟩

/-- A command that does not write takes the operation on to its next phase. -/
theorem Related.act (hnew : NewNames C kids) (hfile : FileOk C kids start h)
    (hrel : Related C kids trace h g) (hok : KeyOk g c) (hc : ∀ bytes, c ≠ .rename bytes)
    (k : Option (Job ClientKeyStatus)) :
    Related C kids (trace ++ [⟨h, .act true, { (h.perform c).1 with running := k }⟩])
      { (h.perform c).1 with running := k } (g.next c (some (h.perform c).2)) := by
  have hq := quiet_perform (h := h) hc k
  have hstays := hrel.quiet hq
  cases hok with
  | opening hharmless =>
    cases c with
    | now => exact ⟨hstays, le_rfl⟩
    | inspect what => exact hstays
    | afterPublish phase => exact hstays
    | _ => cases hharmless
  | @read fresh at_ =>
    cases hread : readText C h.file at_ with
    | none =>
      have hnext : (Phase.timed fresh at_).next .readFile (some h.file) = (.ended : Phase C) := by
        simp only [Phase.next, hread]
      exact hnext ▸ trivial
    | some s =>
      have hnext : (Phase.timed fresh at_).next .readFile (some h.file) = .loaded fresh s at_ := by
        simp only [Phase.next, hread]
      exact hnext ▸ ⟨hstays.1, hstays.2, hread⟩
  | @loaded fresh s at_ _ hharmless =>
    cases c with
    | now =>
      obtain ⟨hunwritten, hat, hread⟩ := hrel
      exact ⟨hstays.1, hat, le_rfl, le_rfl, hread, takenAt_snoc rfl rfl,
        fun p hp => (hfile.pending at_ s p hread hp).2.1⟩
    | inspect what => exact hstays
    | afterPublish phase => exact hstays
    | _ => cases hharmless
  | @stamped fresh s at_ first last _ hharmless =>
    cases c with
    | now =>
      obtain ⟨hunwritten, hat, hle, hlast, hread, htaken, hcreated⟩ := hrel
      exact ⟨hstays.1, hat, hle.trans hlast, le_rfl, hread, takenAt_snoc rfl rfl, hcreated⟩
    | inspect what => exact hstays
    | afterPublish phase => exact hstays
    | _ => cases hharmless
  | name hpending hroom =>
    obtain ⟨hunwritten, hat, hle, hlast, hread, -⟩ := hstays
    exact ⟨hunwritten rfl, hlast, hread, hpending, hroom⟩
  | generate =>
    obtain ⟨hunwritten, hlast, hread, hpending, hroom⟩ := hstays
    refine ⟨hunwritten, hlast, hread, hpending, hroom, fun key hkey => ?_⟩
    rw [generatedKey_kid hkey]
    refine ⟨fun hmem => ?_, .inr ⟨h.keys, Nat.lt_succ_self _, rfl⟩⟩
    exact hnew.unknown (hfile.known _ _ hread _ hmem)
  | keyed hharmless hnow =>
    cases c with
    | now => exact absurd rfl hnow
    | inspect what => exact hstays
    | afterPublish phase => exact hstays
    | _ => cases hharmless
  | stage => exact absurd rfl (hc _)
  | arm => exact absurd rfl (hc _)
  | activate => exact absurd rfl (hc _)

end Related

theorem readText_sound {raw : JsString} {at_ : ℤ} {s : State C}
    (h : readText C raw at_ = some s) : s.Sound := decode_sound (readText_decode h)

section Writing

variable {s : State C} {p : Pending C} {last : ℤ} {id : UuidV4} {key : PrivateKey C}
  {created published after rotated : Instant}

theorem pruned_sublist (s : State C) (at_ : ℤ) :
    ((s.pruned at_).map fun r => r.key.kid).Sublist (s.retired.map fun r => r.key.kid) :=
  List.filter_sublist.map _

theorem kids_none (h : s.pending = none) :
    s.kids = s.current.pub.kid :: s.retired.map fun r => r.key.kid := by
  rw [State.kids, h]
  rfl

theorem kids_some (h : s.pending = some p) :
    s.kids = s.current.pub.kid :: p.key.pub.kid :: s.retired.map fun r => r.key.kid := by
  rw [State.kids, h]
  rfl

theorem kids_staged : (s.staged last id key created).counted.kids =
    s.current.pub.kid :: key.pub.kid :: (s.pruned last).map fun r => r.key.kid :=
  kids_some (s := (s.staged last id key created).counted) (p := ⟨id, key, created, none, none⟩) rfl

theorem kids_activated : (s.activated p rotated).counted.kids =
    p.key.pub.kid :: ((s.pruned rotated.ms).map (fun r => r.key.kid) ++ [s.current.pub.kid]) := by
  rw [kids_none rfl]
  simp [State.activated, State.counted]

theorem kids_armed (h : s.pending = some p) :
    (s.armed p published after).counted.kids = s.kids := by
  rw [kids_some h, kids_some rfl]
  rfl

/-- Staging adds the name of the new key at most. -/
theorem mem_kids_staged (hpending : s.pending = none) {kid : JsString}
    (h : kid ∈ (s.staged last id key created).counted.kids) :
    kid = key.pub.kid ∨ kid ∈ s.kids := by
  rw [kids_staged, List.mem_cons, List.mem_cons] at h
  rw [kids_none hpending]
  rcases h with rfl | rfl | h
  · exact .inr List.mem_cons_self
  · exact .inl rfl
  · exact .inr (List.mem_cons_of_mem _ ((pruned_sublist s last).subset h))

/-- Activation adds no name. -/
theorem mem_kids_activated (hpending : s.pending = some p) {kid : JsString}
    (h : kid ∈ (s.activated p rotated).counted.kids) : kid ∈ s.kids := by
  rw [kids_activated, List.mem_cons, List.mem_append, List.mem_singleton] at h
  rw [kids_some hpending]
  rcases h with rfl | h | rfl
  · exact List.mem_cons_of_mem _ List.mem_cons_self
  · exact List.mem_cons_of_mem _ (List.mem_cons_of_mem _
      ((pruned_sublist s rotated.ms).subset h))
  · exact List.mem_cons_self

theorem staged_sound (h : s.Sound) (hpending : s.pending = none)
    (hroom : (s.pruned last).length < MAX_RETIRED) (hkid : key.pub.kid ∉ s.kids)
    (hgeneration : s.generation < MAX_GENERATION) :
    (s.staged last id key created).counted.Sound := by
  have hsub := pruned_sublist s last
  have hkids := h.kids
  rw [kids_none hpending] at hkid hkids
  refine ⟨hgeneration, ?_, hroom.le, ?_⟩
  · intro p hp
    cases hp
    rfl
  · rw [kids_staged]
    rw [List.nodup_cons] at hkids
    rw [List.mem_cons, not_or] at hkid
    refine List.nodup_cons.mpr ⟨?_, List.nodup_cons.mpr ⟨?_, hkids.2.sublist hsub⟩⟩
    · intro hmem
      rcases List.mem_cons.mp hmem with heq | hmem
      · exact hkid.1 heq.symm
      · exact hkids.1 (hsub.subset hmem)
    · exact fun hmem => hkid.2 (hsub.subset hmem)

theorem armed_sound (h : s.Sound) (hpending : s.pending = some p)
    (hpublished : p.created_at.ms ≤ published.ms)
    (hafter : after.ms = published.ms + CLIENT_KEY_PROPAGATION_MS)
    (hgeneration : s.generation < MAX_GENERATION) : (s.armed p published after).counted.Sound := by
  refine ⟨hgeneration, ?_, h.retired, kids_armed hpending ▸ h.kids⟩
  intro q hq
  cases hq
  rw [Pending.consistent, Bool.and_eq_true, decide_eq_true_eq, decide_eq_true_eq]
  exact ⟨hpublished, hafter⟩

theorem activated_sound (h : s.Sound) (hpending : s.pending = some p)
    (hroom : (s.pruned rotated.ms).length < MAX_RETIRED)
    (hgeneration : s.generation < MAX_GENERATION) : (s.activated p rotated).counted.Sound := by
  have hsub := pruned_sublist s rotated.ms
  have hkids := h.kids
  rw [kids_some hpending] at hkids
  refine ⟨hgeneration, ?_, ?_, ?_⟩
  · intro q hq
    cases hq
  · show (s.pruned rotated.ms ++ [_]).length ≤ MAX_RETIRED
    rw [List.length_append, List.length_singleton]
    omega
  · rw [kids_activated]
    simp only [List.nodup_cons, List.mem_cons, not_or] at hkids
    obtain ⟨⟨hne, hcurrent⟩, hkey, hretired⟩ := hkids
    refine List.nodup_cons.mpr ⟨?_, List.nodup_append.mpr ⟨hretired.sublist hsub, ?_, ?_⟩⟩
    · intro hmem
      rcases List.mem_append.mp hmem with hmem | hmem
      · exact hkey (hsub.subset hmem)
      · exact hne (List.mem_singleton.mp hmem).symm
    · exact List.nodup_singleton _
    · intro a ha b hb heq
      rw [List.mem_singleton.mp hb] at heq
      exact hcurrent (hsub.subset (heq ▸ ha))

end Writing

/-- What an operation writes over the state it has read. -/
inductive Wrote (C : NodeCrypto) (trace : KeyRun) (h : Host) (s : State C) : State C → Prop
  | stage {last id key created} (hpending : s.pending = none) (hcreated : created.ms = last)
      (hlast : last ≤ h.clock) (hunwritten : Unwritten trace h) :
      Wrote C trace h s (s.staged last id key created).counted
  | arm {p published after} (hpending : s.pending = some p) (hunpublished : p.published_at = none)
      (hafter : after.ms = published.ms + CLIENT_KEY_PROPAGATION_MS)
      (htaken : TakenAt published.ms trace h) :
      Wrote C trace h s (s.armed p published after).counted
  | activate {p after rotated} (hpending : s.pending = some p)
      (hafter : p.activate_after = some after) (hdue : after.ms ≤ rotated.ms)
      (hlast : rotated.ms ≤ h.clock) (htaken : TakenAt rotated.ms trace h) :
      Wrote C trace h s (s.activated p rotated).counted

/-- A write replaces the state in the file by a sound one of the next generation. -/
structure Write (C : NodeCrypto) (kids : List JsString) (trace : KeyRun) (h : Host)
    (s s' : State C) : Prop where
  read : ∃ at_, readText C h.file at_ = some s
  wrote : Wrote C trace h s s'
  sound : s'.Sound
  bytes : byteLength (encode s') ≤ MAX_BYTES
  known : ∀ kid ∈ s'.kids, KnownKid C kids h.keys kid
  pending : ∀ p, s'.pending = some p →
    s'.retired.length < MAX_RETIRED ∧ p.created_at.ms ≤ h.clock

/-- A write that an operation may make is one of these. -/
theorem write_of_rename {kids : List JsString} {start : JsString} {trace : KeyRun} {h : Host}
    {g : Phase C} {bytes : JsString} (hfile : FileOk C kids start h)
    (hrel : Related C kids trace h g) (hok : KeyOk g (.rename bytes)) :
    ∃ s s', bytes = encode s' ∧ Write C kids trace h s s' := by
  cases hok with
  | opening hc => cases hc
  | loaded hc => cases hc
  | stamped hc => cases hc
  | keyed hc => cases hc
  | @stage s at_ last id key created hcreated hfits =>
    obtain ⟨hunwritten, hlast, hread, hpending, hroom, hkey⟩ := hrel
    obtain ⟨hkid, hknown⟩ := hkey key rfl
    have hms := instant?_eq_some hcreated
    refine ⟨s, _, rfl, ⟨at_, hread⟩, .stage hpending hms hlast hunwritten,
      staged_sound (readText_sound hread) hpending hroom hkid hfits.1, hfits.2, ?_, ?_⟩
    · intro kid hmem
      rcases mem_kids_staged hpending hmem with rfl | hmem
      · exact hknown
      · exact hfile.known at_ s hread kid hmem
    · intro p hp
      cases hp
      exact ⟨hroom, hms.trans_le hlast⟩
  | @arm fresh at_ first last published after s p hpending hunpublished hpublished hafter hfits =>
    obtain ⟨-, -, hle, hlast, hread, htaken, hcreated⟩ := hrel
    obtain ⟨hroom, hbefore, -⟩ := hfile.pending at_ s p hread hpending
    have htime : published.ms = last := by
      have := hcreated p hpending
      omega
    refine ⟨s, _, rfl, ⟨at_, hread⟩, .arm hpending hunpublished hafter (htime ▸ htaken),
      armed_sound (readText_sound hread) hpending ?_ hafter hfits.1, hfits.2, ?_, ?_⟩
    · rw [hpublished]
      exact le_max_right _ _
    · rw [kids_armed hpending]
      exact hfile.known at_ s hread
    · intro q hq
      cases hq
      exact ⟨hroom, hbefore⟩
  | @activate fresh at_ first last after rotated s p hpending hafter hdue hrotated hfits =>
    obtain ⟨-, -, hle, hlast, hread, htaken, -⟩ := hrel
    have hms := instant?_eq_some hrotated
    refine ⟨s, _, rfl, ⟨at_, hread⟩, .activate hpending hafter ?_ ?_ (hms ▸ htaken),
      activated_sound (readText_sound hread) hpending
        ((List.length_filter_le _ _).trans_lt (hfile.pending at_ s p hread hpending).1)
        hfits.1, hfits.2, ?_, ?_⟩
    · rw [hms]
      exact hdue.trans hle
    · rw [hms]
      exact hlast
    · intro kid hmem
      exact hfile.known at_ s hread kid (mem_kids_activated hpending hmem)
    · intro q hq
      cases hq

theorem next_rename {g : Phase C} {bytes : JsString} (hok : KeyOk g (.rename bytes)) :
    g.next (.rename bytes) (some ()) = .opening false := by
  cases hok with
  | stage => rfl
  | arm => rfl
  | activate => rfl
  | _ => contradiction

/-- Writing a state makes it the one that every reader of the file finds. -/
theorem Write.fileOk {kids : List JsString} {start : JsString} {trace : KeyRun} {h : Host}
    {s s' : State C} (hwrite : Write C kids trace h s s') (k : Option (Job ClientKeyStatus)) :
    FileOk C kids start { h with file := encode s', running := k } := by
  have hreads := readText_encode hwrite.sound hwrite.bytes
  refine ⟨.inr ⟨s', hwrite.sound, hwrite.bytes, rfl⟩, fun at_ t ht => ?_, fun at_ t p ht hp => ?_⟩
  · rw [Option.some.inj (ht.symm.trans (hreads at_))]
    exact hwrite.known
  · obtain rfl : t = s' := Option.some.inj (ht.symm.trans (hreads at_))
    exact ⟨(hwrite.pending p hp).1, (hwrite.pending p hp).2, hreads⟩

section Served

variable {s : State C} {p : Pending C} {h : Host}

theorem served_of_read {key : PublicKey} (hread : readText C h.file h.clock = some s)
    (hmem : key ∈ projection s h.clock) : Served C key h := by
  refine ⟨projection s h.clock, ?_, hmem⟩
  rw [getClientPublicJwks, hread]
  rfl

theorem served_current (hread : readText C h.file h.clock = some s) :
    Served C s.current.pub h := by
  refine served_of_read hread ?_
  rw [projection, List.cons_append]
  exact List.mem_cons_self

theorem served_pending (hread : readText C h.file h.clock = some s) (hp : s.pending = some p) :
    Served C p.key.pub h := by
  refine served_of_read hread ?_
  simp [projection, hp]

theorem served_retired {r : Retired} (hread : readText C h.file h.clock = some s)
    (hr : r ∈ s.retired) (hlive : h.clock < r.retired_at.ms + CLIENT_KEY_RETENTION_MS) :
    Served C r.key h := by
  refine served_of_read hread (List.mem_append_right _ (List.mem_map.mpr ⟨r, ?_, rfl⟩))
  exact List.mem_filter.mpr ⟨hr, decide_eq_true hlive⟩

end Served

/-- What holds at every moment of a run. -/
structure Inv (C : NodeCrypto) (kids : List JsString) (start : JsString) (trace : KeyRun)
    (h : Host) : Prop where
  file : FileOk C kids start h
  running : ∀ job, h.running = some job → ∃ g, Keeps C g job ∧ Related C kids trace h g
  armed : ∀ at_ (s : State C) p published, readText C h.file at_ = some s →
    s.pending = some p → p.published_at = some published →
      PublishedSince C p.key.pub published.ms trace

section Steps

variable {kids : List JsString} {start : JsString} {trace : KeyRun} {h h' : Host} {m : Move}

/-- A step that leaves the file alone. -/
theorem Inv.later (hinv : Inv C kids start trace h) (hsame : h'.file = h.file)
    (hclock : h.clock ≤ h'.clock) (hkeys : h.keys ≤ h'.keys)
    (hrunning : ∀ job, h'.running = some job →
      ∃ g, Keeps C g job ∧ Related C kids (trace ++ [⟨h, m, h'⟩]) h' g) :
    Inv C kids start (trace ++ [⟨h, m, h'⟩]) h' := by
  refine ⟨hinv.file.later hsame hclock hkeys, hrunning, ?_⟩
  intro at_ s p published hread hp hpublished
  rw [hsame] at hread
  have hreads := (hinv.file.pending at_ s p hread hp).2.2
  exact (hinv.armed at_ s p published hread hp hpublished).snoc (served_pending (hreads h.clock) hp)

theorem TakenAt.publishedSince {time : ℤ} {s : State C} {p : Pending C}
    (h : TakenAt time trace host) (hreads : ∀ at_, readText C host.file at_ = some s)
    (hp : s.pending = some p) : PublishedSince C p.key.pub time trace := by
  obtain ⟨first, e, rest, htrace, htime, hrest⟩ := h
  refine ⟨first, e, rest, htrace, htime, fun x hx => served_pending ?_ hp⟩
  rw [(hrest x hx).2]
  exact hreads x.before.clock

/-- A step that writes the file. -/
theorem Inv.write (hinv : Inv C kids start trace h) {s s' : State C}
    (hwrite : Write C kids trace h s s') {job : Job ClientKeyStatus}
    (hjob : Keeps C (.opening false) job) :
    Inv C kids start (trace ++ [⟨h, m, { h with file := encode s', running := some job }⟩])
      { h with file := encode s', running := some job } := by
  refine ⟨hwrite.fileOk _, fun job' hjob' => ?_, fun at_ t p published ht hp hpublished => ?_⟩
  · cases hjob'
    exact ⟨.opening false, hjob, nofun⟩
  · obtain rfl : t = s' :=
      Option.some.inj (ht.symm.trans (readText_encode hwrite.sound hwrite.bytes at_))
    obtain ⟨at', hread⟩ := hwrite.read
    cases hwrite.wrote with
    | stage =>
      cases hp
      cases hpublished
    | @arm q _ after hpending hunpublished hafter htaken =>
      cases hp
      cases hpublished
      have hreads := (hinv.file.pending at' s q hread hpending).2.2
      exact (htaken.publishedSince hreads hpending).snoc (served_pending (hreads h.clock) hpending)
    | activate => cases hp

/-- What a granted command does, split by whether it writes. -/
theorem Inv.act (hnew : NewNames C kids) (hinv : Inv C kids start trace h) {c : Command}
    {k : Option c.Reply → Job ClientKeyStatus} (hjob : h.running = some (.call c k)) :
    Inv C kids start (trace ++ [⟨h, .act true,
        { (h.perform c).1 with running := some (k (some (h.perform c).2)) }⟩])
      { (h.perform c).1 with running := some (k (some (h.perform c).2)) } := by
  obtain ⟨g, hkeeps, hrel⟩ := hinv.running _ hjob
  obtain ⟨hok, hnext⟩ := hkeeps
  by_cases hrename : ∃ bytes, c = .rename bytes
  · obtain ⟨bytes, rfl⟩ := hrename
    obtain ⟨s, s', rfl, hwrite⟩ := write_of_rename hinv.file hrel hok
    exact hinv.write hwrite (next_rename hok ▸ hnext (some ()))
  · have hc : ∀ bytes, c ≠ .rename bytes := fun bytes heq => hrename ⟨bytes, heq⟩
    have hq := quiet_perform (h := h) hc (some (k (some (h.perform c).2)))
    refine hinv.later hq.file hq.clock hq.keys fun job hsome => ?_
    cases hsome
    exact ⟨_, hnext _, hrel.act hnew hinv.file hok hc _⟩

theorem Inv.step (hnew : NewNames C kids) (hinv : Inv C kids start trace h)
    (hstep : h.step C m = some h') : Inv C kids start (trace ++ [⟨h, m, h'⟩]) h' := by
  cases m with
  | start operation =>
    simp only [Host.step] at hstep
    split at hstep
    · cases hstep
      refine hinv.later rfl le_rfl le_rfl fun job hjob => ?_
      cases hjob
      refine ⟨_, keeps_applyClientKeyOperationLocked operation, fun _ => ?_⟩
      refine ⟨trace, _, [], rfl, ⟨operation, rfl⟩, nofun, fun x hx => ?_⟩
      rw [List.mem_singleton.mp hx]
    · cases hstep
  | act granted =>
    simp only [Host.step] at hstep
    split at hstep
    · next c k hjob =>
      split at hstep
      · next hgranted =>
        cases hstep
        rw [hgranted]
        exact hinv.act hnew hjob
      · cases hstep
        refine hinv.later rfl le_rfl le_rfl fun job hsome => ?_
        cases hsome
        obtain ⟨g, hkeeps, -⟩ := hinv.running _ hjob
        exact ⟨_, hkeeps.2 none, by cases g <;> trivial⟩
    · cases hstep
  | finish =>
    simp only [Host.step, Option.ite_none_right_eq_some] at hstep
    obtain ⟨-, hstep⟩ := hstep
    cases hstep
    exact hinv.later rfl le_rfl le_rfl nofun
  | crash =>
    simp only [Host.step, Option.ite_none_right_eq_some] at hstep
    obtain ⟨-, hstep⟩ := hstep
    cases hstep
    exact hinv.later rfl le_rfl le_rfl nofun
  | tick =>
    cases hstep
    have hq : Quiet h .tick { h with clock := h.clock + 1 } :=
      ⟨rfl, rfl, by show h.clock ≤ h.clock + 1; omega, le_rfl⟩
    refine hinv.later rfl hq.clock le_rfl fun job hjob => ?_
    obtain ⟨g, hkeeps, hrel⟩ := hinv.running job hjob
    exact ⟨g, hkeeps, hrel.quiet hq⟩

end Steps

/-- The step replaces the file. -/
def Renames (e : Event Host Move) : Prop :=
  e.label = .act true ∧ ∃ bytes k, e.before.running = some (.call (.rename bytes) k)

/-- A state that the file stands for, whenever it is read. -/
def Holds (C : NodeCrypto) (h : Host) (s : State C) : Prop :=
  ∃ at_, readText C h.file at_ = some s

section Events

variable {kids : List JsString} {start : JsString} {trace : KeyRun} {e : Event Host Move}

/-- The clock does not go back, and only a write changes the file. -/
theorem step_file {h h' : Host} {m : Move} (hstep : h.step C m = some h') :
    h.clock ≤ h'.clock ∧ (¬ Renames ⟨h, m, h'⟩ → h'.file = h.file) := by
  cases m with
  | act granted =>
    simp only [Host.step] at hstep
    split at hstep
    · next c k hjob =>
      split at hstep
      · next hgranted =>
        cases hstep
        by_cases hrename : ∃ bytes, c = .rename bytes
        · obtain ⟨bytes, rfl⟩ := hrename
          exact ⟨le_rfl, fun hnot => absurd ⟨congrArg _ hgranted, bytes, k, hjob⟩ hnot⟩
        · have hq := quiet_perform (h := h) (fun bytes heq => hrename ⟨bytes, heq⟩)
            (some (k (some (h.perform c).2)))
          exact ⟨hq.clock, fun _ => hq.file⟩
      · cases hstep
        exact ⟨le_rfl, fun _ => rfl⟩
    · cases hstep
  | start operation =>
    simp only [Host.step] at hstep
    split at hstep <;> cases hstep
    exact ⟨le_rfl, fun _ => rfl⟩
  | tick =>
    cases hstep
    exact ⟨by show h.clock ≤ h.clock + 1; omega, fun _ => rfl⟩
  | _ =>
    simp only [Host.step, Option.ite_none_right_eq_some] at hstep
    obtain ⟨-, hstep⟩ := hstep
    cases hstep
    exact ⟨le_rfl, fun _ => rfl⟩

theorem write_of_step (hinv : Inv C kids start trace e.before)
    (hstep : e.before.step C e.label = some e.after) (h : Renames e) :
    ∃ s s', e.after.file = encode s' ∧ e.after.clock = e.before.clock ∧
      Write C kids trace e.before s s' := by
  obtain ⟨before, label, after⟩ := e
  obtain ⟨hlabel, bytes, k, hjob⟩ := h
  simp only at hstep hlabel hjob
  simp only [hlabel, Host.step, hjob, if_true] at hstep
  cases hstep
  obtain ⟨g, hkeeps, hrel⟩ := hinv.running _ hjob
  obtain ⟨s, s', rfl, hwrite⟩ := write_of_rename hinv.file hrel hkeeps.1
  exact ⟨s, s', rfl, rfl, hwrite⟩

variable {h : Host} {s s' t t' : State C} {r : Retired}

theorem Wrote.generation (h : Wrote C trace host s s') : s'.generation = s.generation + 1 := by
  cases h with
  | stage => rfl
  | arm => rfl
  | activate => rfl

/-- Only activation changes the signer. -/
theorem Wrote.current (h : Wrote C trace host s s') (hne : s'.current ≠ s.current) :
    ∃ p after rotated, s.pending = some p ∧ p.activate_after = some after ∧
      after.ms ≤ rotated.ms ∧ rotated.ms ≤ host.clock ∧ TakenAt rotated.ms trace host ∧
      s' = (s.activated p rotated).counted := by
  cases h with
  | stage => exact absurd rfl hne
  | arm => exact absurd rfl hne
  | @activate p after rotated hpending hafter hdue hlast htaken =>
    exact ⟨p, after, rotated, hpending, hafter, hdue, hlast, htaken, rfl⟩

/-- A pending key is the one that was pending before, or is staged by an operation
that has found none. -/
theorem Wrote.pending (h : Wrote C trace host s s') {p' : Pending C} (hp : s'.pending = some p') :
    (∃ p, s.pending = some p ∧ p'.id = p.id ∧ p'.key = p.key) ∨
      s.pending = none ∧ Unwritten trace host := by
  cases h with
  | stage hpending _ _ hunwritten => exact .inr ⟨hpending, hunwritten⟩
  | @arm p _ _ hpending =>
    cases hp
    exact .inl ⟨p, hpending, rfl, rfl⟩
  | activate => cases hp

theorem mem_pruned (hr : r ∈ s.retired) {at_ : ℤ}
    (hlive : at_ < r.retired_at.ms + CLIENT_KEY_RETENTION_MS) : r ∈ s.pruned at_ :=
  List.mem_filter.mpr ⟨hr, decide_eq_true hlive⟩

/-- A retired key is dropped only when its retention is over. -/
theorem Wrote.retired (h : Wrote C trace host s s') (hr : r ∈ s.retired)
    (hlive : host.clock < r.retired_at.ms + CLIENT_KEY_RETENTION_MS) : r ∈ s'.retired := by
  cases h with
  | stage _ _ hlast => exact mem_pruned hr (hlast.trans_lt hlive)
  | arm => exact hr
  | activate _ _ _ hlast =>
    exact List.mem_append_left _ (mem_pruned hr (hlast.trans_lt hlive))

end Events

section Paced

variable {C : NodeCrypto} {h h₁ h₂ : Host} {job job₁ job₂ : Job ClientKeyStatus} {s : State C}

/-- The operation comes from one point to another with every call granted. -/
def Comes (C : NodeCrypto) (h : Host) (job : Job ClientKeyStatus) (h' : Host)
    (job' : Job ClientKeyStatus) : Prop :=
  ∃ trace, Exec (clientKeyRuns C) { h with running := some job } trace
    { h' with running := some job' }

theorem Comes.trans (h : Comes C h₀ job h₁ job₁) (h' : Comes C h₁ job₁ h₂ job₂) :
    Comes C h₀ job h₂ job₂ := by
  obtain ⟨trace, hexec⟩ := h
  obtain ⟨trace', hexec'⟩ := h'
  exact ⟨trace ++ trace', hexec.append hexec'⟩

/-- The host after a call that takes a millisecond. -/
def Host.paced (h : Host) (c : Command) : Host :=
  { (h.perform c).1 with clock := (h.perform c).1.clock + 1 }

theorem Comes.to (h : Comes C h₀ job h₁ job₁) (hend : h₁ = h₂) : Comes C h₀ job h₂ job₁ :=
  hend ▸ h

theorem comes_await (h : Host) (c : Command) (f : c.Reply → Job ClientKeyStatus) :
    Comes C h (await c >>= f) (h.paced c) (f (h.perform c).2) := by
  have hact : Host.step C { h with running := some (await c >>= f) } (.act true) =
      some { (h.perform c).1 with running := some (f (h.perform c).2) } := by
    cases c <;> rfl
  have hfirst := Exec.single (T := clientKeyRuns C) hact
  exact ⟨_, hfirst.snoc (l := Move.tick) rfl⟩

theorem comes_inspect (h : Host) (what : Inspection) (f : Unit → Job ClientKeyStatus) :
    Comes C h (await (.inspect what) >>= f) { h with clock := h.clock + 1 } (f ()) :=
  comes_await h (.inspect what) f

theorem comes_read {f : State C → Job ClientKeyStatus} {at_ : ℤ} (hat : h.clock = at_)
    (hread : readText C h.file at_ = some s) :
    Comes C h (read C >>= f) { h with clock := h.clock + 2 } (f s) := by
  rw [read, Prog.bind_assoc]
  refine .trans (comes_await h .now _) ?_
  rw [Prog.bind_assoc]
  have hfile := comes_await (C := C) (h.paced .now) .readFile fun raw =>
    orThrow (readText C raw h.clock) >>= f
  have hfound : orThrow (readText C h.file h.clock) >>= f = f s := by
    rw [hat, hread]
    rfl
  refine .to (hfound ▸ hfile) ?_
  simp only [Host.paced, Host.perform, Int.add_assoc, Int.reduceAdd]

/-- What is left of writing a state once its temporary file is there. -/
def renamed (C : NodeCrypto) (phase : PublishPhase) (bytes : JsString)
    (f : State C → Job ClientKeyStatus) : Job ClientKeyStatus :=
  await (.rename bytes) >>= fun _ => await (.inspect .syncDirectory) >>= fun _ =>
    await (.afterPublish phase) >>= fun _ => read C >>= f

theorem comes_saving {f : State C → Job ClientKeyStatus} (phase : PublishPhase)
    (hfits : s.Fits) :
    Comes C h (save phase s >>= f) { h with clock := h.clock + 2 }
      (renamed C phase (encode s.counted) f) := by
  rw [save, if_neg (not_le.mpr hfits.1), Prog.bind_assoc, publish, Prog.bind_assoc]
  refine .trans (comes_inspect h .directory _) ?_
  rw [if_neg (not_lt.mpr hfits.2), Prog.bind_assoc]
  have hrest := comes_inspect (C := C) { h with clock := h.clock + 1 } .temporary fun _ =>
    renamed C phase (encode s.counted) f
  simp only [Int.add_assoc, Int.reduceAdd] at hrest
  simpa only [renamed, Prog.bind_assoc] using hrest

theorem comes_renamed {f : State C → Job ClientKeyStatus} (phase : PublishPhase)
    (hsound : s.Sound) (hbytes : byteLength (encode s) ≤ MAX_BYTES) :
    Comes C h (renamed C phase (encode s) f)
      { h with file := encode s, clock := h.clock + 5 } (f s) := by
  refine .trans (comes_await h (.rename (encode s)) _) ?_
  refine .trans (comes_inspect _ .syncDirectory _) ?_
  refine .trans (comes_await _ (.afterPublish phase) _) ?_
  refine .to (comes_read rfl (readText_encode hsound hbytes _)) ?_
  simp only [Host.paced, Host.perform, Int.add_assoc, Int.reduceAdd]

/-- The state can be written, and is read back then. -/
structure Writes (s : State C) : Prop where
  room : s.generation < MAX_GENERATION
  sound : s.counted.Sound
  bytes : byteLength (encode s.counted) ≤ MAX_BYTES

theorem comes_save {f : State C → Job ClientKeyStatus} (phase : PublishPhase) (hs : Writes s) :
    Comes C h (save phase s >>= f)
      { h with file := encode s.counted, clock := h.clock + 7 } (f s.counted) := by
  refine .trans (comes_saving phase ⟨hs.room, hs.bytes⟩) ?_
  refine .to (comes_renamed phase hs.sound hs.bytes) ?_
  simp only [Int.add_assoc, Int.reduceAdd]

theorem comes_stage {f : State C → Job ClientKeyStatus} {key : PrivateKey C} {created : Instant}
    (hroom : (s.pruned h.clock).length < MAX_RETIRED) (hkey : generatedKey C h.keys = some key)
    (hcreated : instant? h.clock = some created)
    (hs : Writes (s.staged h.clock (C.randomUUID h.ids) key created)) :
    Comes C h (stage s >>= f)
      { h with
        file := encode (s.staged h.clock (C.randomUUID h.ids) key created).counted
        clock := h.clock + 10
        keys := h.keys + 1
        ids := h.ids + 1 }
      (f (s.staged h.clock (C.randomUUID h.ids) key created).counted) := by
  rw [stage, Prog.bind_assoc]
  refine .trans (comes_await h .now _) ?_
  have hwide : ¬ MAX_RETIRED ≤ (s.pruned (h.perform .now).2).length := not_le.mpr hroom
  rw [if_neg hwide, Prog.bind_assoc]
  refine .trans (comes_await _ .randomUUID _) ?_
  rw [Prog.bind_assoc]
  refine .trans (comes_await _ .generateKeyPair _) ?_
  have hnew : generatedKey C (((h.paced .now).paced .randomUUID).perform .generateKeyPair).2 =
      some key := hkey
  have hnow : instant? (h.perform .now).2 = some created := hcreated
  rw [hnew, hnow]
  refine .to (comes_save .stage hs) ?_
  simp only [Host.paced, Host.perform, Int.add_assoc, Int.reduceAdd]

theorem comes_arm {f : State C → Job ClientKeyStatus} {p : Pending C} {published after : Instant}
    (hcreated : p.created_at.ms ≤ h.clock) (hpublished : instant? h.clock = some published)
    (hafter : instant? (h.clock + CLIENT_KEY_PROPAGATION_MS) = some after)
    (hs : Writes (s.armed p published after)) :
    Comes C h (arm s p >>= f)
      { h with file := encode (s.armed p published after).counted, clock := h.clock + 8 }
      (f (s.armed p published after).counted) := by
  rw [arm, Prog.bind_assoc]
  refine .trans (comes_await h .now _) ?_
  have hlate : max (h.perform .now).2 p.created_at.ms = h.clock := max_eq_left hcreated
  simp only [hlate, hpublished, hafter]
  refine .to (comes_save .arm hs) ?_
  simp only [Host.paced, Host.perform, Int.add_assoc, Int.reduceAdd]

theorem comes_activateIfDue {f : State C → Job ClientKeyStatus} {p : Pending C} {after : Instant}
    (hp : s.pending = some p) (hafter : p.activate_after = some after) :
    Comes C h (activateIfDue s >>= f) { h with clock := h.clock + 1 }
      (if after.ms ≤ h.clock then activate s p >>= f else f s) := by
  rw [activateIfDue]
  simp only [hp, hafter, Prog.bind_assoc]
  have hnow := comes_await (C := C) h .now fun now =>
    (if after.ms ≤ now then activate s p else pure s) >>= f
  have hsame : (if after.ms ≤ (h.perform .now).2 then activate s p else pure s) >>= f =
      if after.ms ≤ h.clock then activate s p >>= f else f s := by
    show (if after.ms ≤ h.clock then activate s p else pure s) >>= f = _
    split
    · rfl
    · rfl
  exact hsame ▸ hnow

/-- Activation up to the moment before the new state takes the place of the old one. -/
theorem comes_activating {f : State C → Job ClientKeyStatus} {p : Pending C} {rotated : Instant}
    (hrotated : instant? h.clock = some rotated) (hs : Writes (s.activated p rotated)) :
    Comes C h (activate s p >>= f) { h with clock := h.clock + 3 }
      (renamed C .activate (encode (s.activated p rotated).counted) f) := by
  rw [activate, Prog.bind_assoc]
  refine .trans (comes_await h .now _) ?_
  have hnow : instant? (h.perform .now).2 = some rotated := hrotated
  rw [hnow]
  refine .to (comes_saving .activate ⟨hs.room, hs.bytes⟩) ?_
  simp only [Host.paced, Host.perform, Int.add_assoc, Int.reduceAdd]

theorem exec_operation {operation : Operation} {result : ClientKeyStatus}
    (hfree : h.running = none)
    (hcomes : Comes C h (applyClientKeyOperationLocked C operation) h₁ (pure result)) :
    ∃ trace, Exec (clientKeyRuns C) h trace { h₁ with running := none } := by
  obtain ⟨trace, hexec⟩ := hcomes
  have hstart : h.step C (.start operation) =
      some { h with running := some (applyClientKeyOperationLocked C operation) } := by
    rw [Host.step, hfree]
  exact ⟨_, ((Exec.single (T := clientKeyRuns C) hstart).append hexec).snoc (l := Move.finish) rfl⟩

/-- Time passes. -/
theorem exec_ticks (h : Host) (n : ℕ) :
    ∃ trace, Exec (clientKeyRuns C) h trace { h with clock := h.clock + n } := by
  induction n with
  | zero => exact ⟨[], by simpa using Exec.nil h⟩
  | succ n ih =>
    obtain ⟨trace, hexec⟩ := ih
    have hnext := hexec.snoc (l := Move.tick) rfl
    rw [Int.add_assoc] at hnext
    exact ⟨_, hnext⟩

end Paced

/-- What a run of operations keeps to. -/
structure KeySafety (C : NodeCrypto) (start : Host) (trace : KeyRun) (h : Host) : Prop where
  readable : h.file = start.file ∨ ∀ at_, ∃ s, readText C h.file at_ = some s
  signer_served : ∀ k, signer C h = some k → Served C k.pub h
  propagated : ∀ first e last, trace = first ++ e :: last → ∀ s s', Holds C e.before s →
    Holds C e.after s' → s'.current ≠ s.current → ∃ p published, s.pending = some p ∧
      p.key = s'.current ∧ p.published_at = some published ∧
      PublishedSince C s'.current.pub published.ms first ∧ Served C s'.current.pub e.before ∧
      published.ms + CLIENT_KEY_PROPAGATION_MS ≤ e.before.clock
  retained : ∀ first e last, trace = first ++ e :: last → ∀ s s', Holds C e.before s →
    Holds C e.after s' → s'.current ≠ s.current → ∃ rotated, s'.rotated_at = some rotated ∧
      TakenAt rotated.ms first e.before ∧
      (h.clock < rotated.ms + CLIENT_KEY_RETENTION_MS → Served C s.current.pub h)
  one_pending : ∀ first e last, trace = first ++ e :: last → ∀ s s' p', Holds C e.before s →
    Holds C e.after s' → s'.pending = some p' →
      (∃ p, s.pending = some p ∧ p'.id = p.id ∧ p'.key = p.key) ∨
        s.pending = none ∧ Unwritten first e.before
  counted : ∀ e ∈ trace, Renames e → ∃ s s', Holds C e.before s ∧
    (∀ at_, readText C e.after.file at_ = some s') ∧ s'.generation = s.generation + 1
  unchanged : ∀ first last, trace = first ++ last → (∀ e ∈ last, ¬ Renames e) →
    ∀ e ∈ last, h.file = e.before.file

section Run

variable {kids : List JsString} {start h : Host} {trace : KeyRun} {s s' : State C}

theorem Inv.run (hnew : NewNames C kids) {first : KeyRun} {h₀ : Host} {file : JsString}
    (hinv : Inv C kids file first h₀) (hrun : Exec (clientKeyRuns C) h₀ trace h) :
    Inv C kids file (first ++ trace) h := by
  refine Exec.history (fun trace h => Inv C kids file (first ++ trace) h) ?_ ?_ hrun
  · rwa [List.append_nil]
  · intro trace t l u _ ht hstep
    rw [← List.append_assoc]
    exact ht.step hnew hstep

/-- The first file has no pending key. -/
theorem inv_start (hstart : (clientKeyRuns C).initial start)
    (hkids : ∀ s : State C, readText C start.file start.clock = some s → kids = s.kids) :
    Inv C kids start.file [] start := by
  obtain ⟨hrunning, hkeys, s₀, hread₀, hpending₀⟩ := hstart
  have hsame : ∀ at_ s, readText C start.file at_ = some s → s₀.SameKeys s :=
    fun at_ s hread => readText_sameKeys hread₀ hread
  refine ⟨⟨.inl rfl, ?_, ?_⟩, ?_, ?_⟩
  · intro at_ s hread kid hkid
    rw [(hsame at_ s hread).kids] at hkid
    exact .inl (hkids s₀ hread₀ ▸ hkid)
  · intro at_ s p hread hp
    rw [(hsame at_ s hread).pending, hpending₀] at hp
    cases hp
  · intro job hjob
    rw [hrunning] at hjob
    cases hjob
  · intro at_ s p published hread hp
    rw [(hsame at_ s hread).pending, hpending₀] at hp
    cases hp

/-- A step after which another key is the signer. -/
theorem Write.activates {file : JsString} (hfile : FileOk C kids file h) {t t' : State C}
    (hwrite : Write C kids trace h t t') (hs : Holds C h s) (hne : t'.current ≠ s.current) :
    ∃ p after rotated, s.pending = some p ∧ p.activate_after = some after ∧
      after.ms ≤ rotated.ms ∧ rotated.ms ≤ h.clock ∧ TakenAt rotated.ms trace h ∧
      t' = (s.activated p rotated).counted ∧ ∀ at_, readText C h.file at_ = some s := by
  obtain ⟨at_, hread⟩ := hwrite.read
  obtain ⟨at', hs⟩ := hs
  have hsame := readText_sameKeys hread hs
  obtain ⟨p, after, rotated, hpending, hrest⟩ :=
    hwrite.wrote.current fun heq => hne (heq.trans hsame.current.symm)
  have hreads := (hfile.pending at_ t p hread hpending).2.2
  obtain rfl : s = t := Option.some.inj (hs.symm.trans (hreads at'))
  exact ⟨p, after, rotated, hpending, hrest.1, hrest.2.1, hrest.2.2.1, hrest.2.2.2.1,
    hrest.2.2.2.2, hreads⟩

/-- The key stays among the retired ones until its retention is over. -/
def Kept (C : NodeCrypto) (r : Retired) (h : Host) : Prop :=
  (∃ s : State C, r ∈ s.retired ∧ ∀ at_, readText C h.file at_ = some s) ∨
    r.retired_at.ms + CLIENT_KEY_RETENTION_MS ≤ h.clock

theorem Kept.step {file : JsString} {r : Retired} {m : Move} {h' : Host}
    (hinv : Inv C kids file trace h) (hkept : Kept C r h) (hstep : h.step C m = some h') :
    Kept C r h' := by
  obtain ⟨hclock, hsame⟩ := step_file hstep
  rcases hkept with ⟨s, hr, hreads⟩ | hover
  · by_cases hrename : Renames ⟨h, m, h'⟩
    · obtain ⟨t, t', hfile, -, hwrite⟩ := write_of_step (e := ⟨h, m, h'⟩) hinv hstep hrename
      obtain ⟨at_, hread⟩ := hwrite.read
      obtain rfl : t = s := Option.some.inj (hread.symm.trans (hreads at_))
      by_cases hlive : h.clock < r.retired_at.ms + CLIENT_KEY_RETENTION_MS
      · refine .inl ⟨t', hwrite.wrote.retired hr hlive, fun at' => ?_⟩
        rw [hfile]
        exact readText_encode hwrite.sound hwrite.bytes at'
      · exact .inr ((not_lt.mp hlive).trans hclock)
    · refine .inl ⟨s, hr, fun at_ => ?_⟩
      rw [hsame hrename]
      exact hreads at_
  · exact .inr (hover.trans hclock)

theorem consistent_published {p : Pending C} {after : Instant} (h : p.consistent = true)
    (hafter : p.activate_after = some after) : ∃ published, p.published_at = some published ∧
      after.ms = published.ms + CLIENT_KEY_PROPAGATION_MS := by
  cases hpublished : p.published_at with
  | none => simp [Pending.consistent, hpublished, hafter] at h
  | some published =>
    simp only [Pending.consistent, hpublished, hafter, Bool.and_eq_true, decide_eq_true_eq] at h
    exact ⟨published, rfl, h.2⟩

/-- What one step of a run is to the states before and after it. -/
theorem Inv.states {file : JsString} {e : Event Host Move}
    (hinv : Inv C kids file trace e.before) (hstep : e.before.step C e.label = some e.after)
    (hs : Holds C e.before s) (hs' : Holds C e.after s') :
    s.SameKeys s' ∨ ∃ t, s.SameKeys t ∧ Write C kids trace e.before t s' ∧
      e.after.file = encode s' ∧ e.after.clock = e.before.clock := by
  obtain ⟨at_, hs⟩ := hs
  obtain ⟨at', hs'⟩ := hs'
  by_cases hrename : Renames e
  · obtain ⟨t, t', hfile, hclock, hwrite⟩ := write_of_step hinv hstep hrename
    obtain ⟨at'', ht⟩ := hwrite.read
    have hreads := readText_encode hwrite.sound hwrite.bytes at'
    rw [← hfile] at hreads
    obtain rfl : s' = t' := Option.some.inj (hs'.symm.trans hreads)
    exact .inr ⟨t, readText_sameKeys hs ht, hwrite, hfile, hclock⟩
  · rw [(step_file hstep).2 hrename] at hs'
    exact .inl (readText_sameKeys hs hs')

theorem Inv.propagated {file : JsString} {e : Event Host Move}
    (hinv : Inv C kids file trace e.before) (hstep : e.before.step C e.label = some e.after)
    (hs : Holds C e.before s) (hs' : Holds C e.after s') (hne : s'.current ≠ s.current) :
    ∃ p published, s.pending = some p ∧ p.key = s'.current ∧ p.published_at = some published ∧
      PublishedSince C s'.current.pub published.ms trace ∧ Served C s'.current.pub e.before ∧
      published.ms + CLIENT_KEY_PROPAGATION_MS ≤ e.before.clock := by
  rcases hinv.states hstep hs hs' with hsame | ⟨t, -, hwrite, -⟩
  · exact absurd hsame.current hne
  · obtain ⟨p, after, rotated, hpending, hafter, hdue, hlast, -, rfl, hreads⟩ :=
      hwrite.activates hinv.file hs hne
    have hread := hreads e.before.clock
    obtain ⟨published, hpublished, htime⟩ :=
      consistent_published ((readText_sound hread).pending p hpending) hafter
    refine ⟨p, published, hpending, rfl, hpublished,
      hinv.armed _ s p published hread hpending hpublished, served_pending hread hpending, ?_⟩
    omega

theorem Inv.retained (hnew : NewNames C kids) {file : JsString} {e : Event Host Move}
    {last : KeyRun} (hinv : Inv C kids file trace e.before)
    (hstep : e.before.step C e.label = some e.after) (hrun : Exec (clientKeyRuns C) e.after last h)
    (hs : Holds C e.before s) (hs' : Holds C e.after s') (hne : s'.current ≠ s.current) :
    ∃ rotated, s'.rotated_at = some rotated ∧ TakenAt rotated.ms trace e.before ∧
      (h.clock < rotated.ms + CLIENT_KEY_RETENTION_MS → Served C s.current.pub h) := by
  rcases hinv.states hstep hs hs' with hsame | ⟨t, -, hwrite, hfile, -⟩
  · exact absurd hsame.current hne
  · have hreads := readText_encode hwrite.sound hwrite.bytes
    obtain ⟨p, after, rotated, -, -, -, -, htaken, rfl, -⟩ := hwrite.activates hinv.file hs hne
    refine ⟨rotated, rfl, htaken, fun hlive => ?_⟩
    have hkept : Kept C ⟨s.current.pub, rotated⟩ e.after := by
      refine .inl ⟨(s.activated p rotated).counted,
        List.mem_append_right _ (List.mem_singleton_self _), ?_⟩
      rw [hfile]
      exact hreads
    have hend : (∃ trace, Inv C kids file trace h) ∧ Kept C ⟨s.current.pub, rotated⟩ h := by
      refine hrun.preserves (I := fun h => (∃ trace, Inv C kids file trace h) ∧
        Kept C ⟨s.current.pub, rotated⟩ h) ?_ ⟨⟨_, hinv.step hnew hstep⟩, hkept⟩
      rintro h m h' ⟨⟨trace, hinv⟩, hkept⟩ hstep
      exact ⟨⟨_, hinv.step hnew hstep⟩, hkept.step hinv hstep⟩
    rcases hend.2 with ⟨u, hr, hu⟩ | hover
    · exact served_retired (hu h.clock) hr hlive
    · exact absurd hlive (not_lt.mpr hover)

theorem Inv.one_pending {file : JsString} {e : Event Host Move} {p' : Pending C}
    (hinv : Inv C kids file trace e.before) (hstep : e.before.step C e.label = some e.after)
    (hs : Holds C e.before s) (hs' : Holds C e.after s') (hp : s'.pending = some p') :
    (∃ p, s.pending = some p ∧ p'.id = p.id ∧ p'.key = p.key) ∨
      s.pending = none ∧ Unwritten trace e.before := by
  rcases hinv.states hstep hs hs' with hsame | ⟨t, hsame, hwrite, -⟩
  · exact .inl ⟨p', hsame.pending ▸ hp, rfl, rfl⟩
  · rw [← hsame.pending]
    exact hwrite.wrote.pending hp

theorem file_of_run {u : Host} (hrun : Exec (clientKeyRuns C) u trace h)
    (hquiet : ∀ e ∈ trace, ¬ Renames e) : h.file = u.file := by
  induction hrun with
  | nil => rfl
  | snoc run hstep ih =>
    have hlast := hquiet _ (List.mem_append_right _ (List.mem_singleton_self _))
    exact ((step_file hstep).2 hlast).trans (ih fun e he => hquiet e (List.mem_append_left _ he))

/-- Rotation of the client key is safe in every run of operations that take the lock
in turn, each of which may fail at any call and be cut off anywhere, from any file
without a pending key. -/
theorem client_key_rotation (C : NodeCrypto) {start h : Host} {trace : KeyRun}
    (hnew : ∀ s : State C, readText C start.file start.clock = some s → NewNames C s.kids)
    (hstart : (clientKeyRuns C).initial start) (hrun : Exec (clientKeyRuns C) start trace h) :
    KeySafety C start trace h := by
  obtain ⟨s₀, hread₀⟩ : ∃ s₀, readText C start.file start.clock = some s₀ :=
    ⟨_, hstart.2.2.choose_spec.1⟩
  have hnames := hnew s₀ hread₀
  have hinit : Inv C s₀.kids start.file [] start :=
    inv_start hstart fun s hs => congrArg State.kids (Option.some.inj (hread₀.symm.trans hs))
  have hinv : Inv C s₀.kids start.file trace h := hinit.run hnames hrun
  have hbefore : ∀ {first e last}, trace = first ++ e :: last →
      Inv C s₀.kids start.file first e.before ∧ e.before.step C e.label = some e.after ∧
        Exec (clientKeyRuns C) e.after last h := by
    rintro first e last rfl
    obtain ⟨u, hfirst, hrest⟩ := hrun.of_append
    obtain ⟨rfl, hstep, hlast⟩ := hrest.of_cons
    exact ⟨hinit.run hnames hfirst, hstep, hlast⟩
  refine ⟨?_, ?_, ?_, ?_, ?_, ?_, ?_⟩
  · rcases hinv.file.form with hfirst | ⟨s, hsound, hbytes, hfile⟩
    · exact .inl hfirst
    · exact .inr fun at_ => ⟨s, hfile ▸ readText_encode hsound hbytes at_⟩
  · intro k hk
    obtain ⟨s, hread, rfl⟩ := Option.map_eq_some_iff.mp hk
    exact served_current hread
  · intro first e last htrace s s' hs hs' hne
    obtain ⟨hfirst, hstep, -⟩ := hbefore htrace
    exact hfirst.propagated hstep hs hs' hne
  · intro first e last htrace s s' hs hs' hne
    obtain ⟨hfirst, hstep, hlast⟩ := hbefore htrace
    exact hfirst.retained hnames hstep hlast hs hs' hne
  · intro first e last htrace s s' p' hs hs' hp
    obtain ⟨hfirst, hstep, -⟩ := hbefore htrace
    exact hfirst.one_pending hstep hs hs' hp
  · intro e he hrename
    obtain ⟨first, last, htrace, -⟩ := hrun.split he
    obtain ⟨hfirst, hstep, -⟩ := hbefore htrace
    obtain ⟨s, s', hfile, -, hwrite⟩ := write_of_step hfirst hstep hrename
    exact ⟨s, s', hwrite.read, fun at_ => hfile ▸ readText_encode hwrite.sound hwrite.bytes at_,
      hwrite.wrote.generation⟩
  · rintro first last rfl hquiet e he
    obtain ⟨u, -, hrest⟩ := hrun.of_append
    obtain ⟨before, after, hlast, -, hstep, hafter⟩ := hrest.split he
    rw [hlast] at hquiet
    have hsame := file_of_run hafter fun x hx =>
      hquiet x (List.mem_append_right _ (List.mem_cons_of_mem _ hx))
    exact hsame.trans ((step_file hstep).2 (hquiet e (List.mem_append_right _ List.mem_cons_self)))

end Run

section Example

/-- The public parts of two real key pairs. -/
def firstX : JsString := js "11qYAYKxCrfVS_7TyWQHOg7hcvPapiMlrwIaaPcHURo"

def secondX : JsString := js "PUAXw-hDiVqStwqnTRt-vJyYLM8uxJaMwM1V8Sr0Zgw"

def firstD : JsString := js "nWGxne_9WmC6hEr0kuwsxERJxWl7MmkZcDusAxyuf2A"

def secondD : JsString := js "TM0Imyj_ltqdtsNG7BFOD1uKMZ81q6Yk2oz27U-4pvs"

def firstKid : JsString := js "kPrK_qmxVWaYVA9wwBF6Iuo3vVzz7TxHCTwXBygrS4k"

def secondKid : JsString := js "FtIu-VbGrfe_KB6CH7GNwODB72MNxj_ml11dEvO-7kk"

/-- A runtime that generates the second pair and no further valid one. -/
def twoPairs : NodeCrypto where
  pairs x d := decide (x = firstX ∧ d = firstD) || decide (x = secondX ∧ d = secondD)
  generateKeyPair
    | 0 => (secondX, secondD)
    | n + 1 => ([n], [])
  thumbprint x := if x = firstX then firstKid else if x = secondX then secondKid else x
  randomUUID _ := ⟨js "5f2b6a1e-0c4d-4e8f-9a7b-3d6c1e2f4a5b", by decide +kernel⟩

theorem twoPairs_kid (n : ℕ) :
    twoPairs.thumbprint (twoPairs.generateKeyPair n).1 = if n = 0 then secondKid else [n - 1] := by
  cases n with
  | zero => decide +kernel
  | succ n =>
    have hlength : firstX.length = 43 ∧ secondX.length = 43 := by decide +kernel
    have hfirst : [n] ≠ firstX := fun heq => by rw [← heq] at hlength; simp at hlength
    have hsecond : [n] ≠ secondX := fun heq => by rw [← heq] at hlength; simp at hlength
    simp [twoPairs, hfirst, hsecond]

theorem twoPairs_newNames : NewNames twoPairs [firstKid] := by
  have hlength : firstKid.length = 43 ∧ secondKid.length = 43 ∧ secondKid ≠ firstKid := by
    decide +kernel
  have hne : ∀ (n : ℕ) (kid : JsString), kid.length = 43 → [n] ≠ kid := by
    rintro n kid hkid rfl
    cases hkid
  constructor
  · intro m n heq
    simp only [twoPairs_kid] at heq
    split_ifs at heq with hm hn hn
    · rw [hm, hn]
    · exact absurd heq.symm (hne _ _ hlength.2.1)
    · exact absurd heq (hne _ _ hlength.2.1)
    · rw [List.singleton_inj] at heq
      omega
  · intro n hmem
    rw [twoPairs_kid, List.mem_singleton] at hmem
    split_ifs at hmem
    · exact hlength.2.2 hmem
    · exact hne _ _ hlength.1 hmem

/-- A file without a version, as it is written at setup. -/
def setupFile : JsString :=
  stringify (ofObject [("kty", text "OKP"), ("crv", text "Ed25519"), ("x", .str firstX),
    ("d", .str firstD), ("kid", .str firstKid), ("alg", text "EdDSA"), ("use", text "sig")])

def setupHost : Host := ⟨setupFile, 1700000000000, 0, 0, none⟩

def firstKey : PrivateKey twoPairs :=
  ⟨⟨firstX, firstKid, by decide +kernel⟩, firstD, by decide +kernel⟩

def secondKey : PrivateKey twoPairs :=
  ⟨⟨secondX, secondKid, by decide +kernel⟩, secondD, by decide +kernel⟩

def setupState : State twoPairs := ⟨0, firstKey, none, none, []⟩

def stagedKey : Pending twoPairs :=
  ⟨twoPairs.randomUUID 0, secondKey, ⟨1700000000005, by decide⟩, none, none⟩

def stagedState : State twoPairs :=
  (setupState.staged 1700000000005 stagedKey.id stagedKey.key stagedKey.created_at).counted

def armedKey : Pending twoPairs :=
  { stagedKey with
    published_at := some ⟨1700000000015, by decide⟩
    activate_after := some ⟨1700000300015, by decide⟩ }

def armedState : State twoPairs :=
  (stagedState.armed stagedKey ⟨1700000000015, by decide⟩ ⟨1700000300015, by decide⟩).counted

def activatedState : State twoPairs :=
  (armedState.activated armedKey ⟨1700000300030, by decide⟩).counted

theorem read_setup : readText twoPairs setupFile 1700000000000 = some setupState ∧
    readText twoPairs setupFile 1700000000002 = some setupState := by
  decide +kernel

theorem generated_second : generatedKey twoPairs 0 = some secondKey := by decide +kernel

theorem staged_writes : Writes
    (setupState.staged 1700000000005 stagedKey.id stagedKey.key stagedKey.created_at) := by
  refine ⟨by decide, ⟨by decide, ?_, by decide, by decide +kernel⟩, by decide +kernel⟩
  rintro p ⟨⟩
  rfl

theorem armed_writes : Writes
    (stagedState.armed stagedKey ⟨1700000000015, by decide⟩ ⟨1700000300015, by decide⟩) := by
  refine ⟨by decide, ⟨by decide, ?_, by decide, by decide +kernel⟩, by decide +kernel⟩
  rintro p ⟨⟩
  decide

theorem activated_writes :
    Writes (armedState.activated armedKey ⟨1700000300030, by decide⟩) := by
  refine ⟨by decide, ⟨by decide, ?_, by decide, by decide +kernel⟩, by decide +kernel⟩
  rintro p ⟨⟩

/-- A scheduled rotation stages a key and arms it. -/
theorem exec_schedule : ∃ trace, Exec (clientKeyRuns twoPairs) setupHost trace
    ⟨encode armedState, 1700000000024, 1, 1, none⟩ := by
  suffices hcomes : Comes twoPairs setupHost (applyClientKeyOperationLocked twoPairs .schedule)
      ⟨encode armedState, 1700000000024, 1, 1, none⟩ (pure (status armedState)) from
    exec_operation rfl hcomes
  rw [applyClientKeyOperationLocked]
  refine .trans (comes_inspect _ .directory _) (.trans (comes_inspect _ .singleFileMount _) ?_)
  refine .trans (comes_read rfl read_setup.2) (.trans (comes_inspect _ .cleanOrphans _) ?_)
  refine .trans (comes_stage (by decide) generated_second (instant?_ms stagedKey.created_at)
    staged_writes) ?_
  refine .trans (comes_arm (p := stagedKey) (by decide) (instant?_ms ⟨1700000000015, by decide⟩)
    (instant?_ms ⟨1700000300015, by decide⟩) armed_writes) ?_
  have hidle := comes_activateIfDue (C := twoPairs) (f := fun s => pure (status s))
    (h := ⟨encode armedState, 1700000000023, 1, 1, none⟩) (s := armedState) (p := armedKey) rfl rfl
  rw [if_neg (by decide)] at hidle
  exact hidle

/-- The signer is kept among the retired keys with the time before its replacement. -/
theorem exec_activating : ∃ trace, Exec (clientKeyRuns twoPairs)
    ⟨encode armedState, 1700000300024, 1, 1, none⟩ trace
    ⟨encode armedState, 1700000300033, 1, 1, some (renamed twoPairs .activate
      (encode activatedState) fun s => pure (status s))⟩ := by
  have hstart : Host.step twoPairs ⟨encode armedState, 1700000300024, 1, 1, none⟩
      (.start .reconcile) = some ⟨encode armedState, 1700000300024, 1, 1,
        some (applyClientKeyOperationLocked twoPairs .reconcile)⟩ := rfl
  have hcomes : Comes twoPairs ⟨encode armedState, 1700000300024, 1, 1, none⟩
      (applyClientKeyOperationLocked twoPairs .reconcile)
      ⟨encode armedState, 1700000300033, 1, 1, none⟩
      (renamed twoPairs .activate (encode activatedState) fun s => pure (status s)) := by
    rw [applyClientKeyOperationLocked]
    refine .trans (comes_inspect _ .directory _) (.trans (comes_inspect _ .singleFileMount _) ?_)
    refine .trans (comes_read rfl (readText_encode armed_writes.sound armed_writes.bytes _))
      (.trans (comes_inspect _ .cleanOrphans _) ?_)
    have hdue := comes_activateIfDue (C := twoPairs) (f := fun s => pure (status s))
      (h := ⟨encode armedState, 1700000300029, 1, 1, none⟩) (s := armedState) (p := armedKey) rfl rfl
    rw [if_pos (by decide)] at hdue
    refine .trans hdue ?_
    exact comes_activating (instant?_ms ⟨1700000300030, by decide⟩) activated_writes
  obtain ⟨trace, hexec⟩ := hcomes
  exact ⟨_, (Exec.single (T := clientKeyRuns twoPairs) hstart).append hexec⟩

/-- What is left of the activation once the new state is in the file. -/
def activationRest : Job ClientKeyStatus :=
  await (.inspect .syncDirectory) >>= fun _ => await (.afterPublish .activate) >>= fun _ =>
    read twoPairs >>= fun s => pure (status s)

theorem exec_activated : ∃ trace, Exec (clientKeyRuns twoPairs)
    ⟨encode activatedState, 1700000300033, 1, 1, some activationRest⟩ trace
    ⟨encode activatedState, 1700000300038, 1, 1, none⟩ := by
  have hcomes : Comes twoPairs ⟨encode activatedState, 1700000300034, 1, 1, none⟩ activationRest
      ⟨encode activatedState, 1700000300038, 1, 1, none⟩ (pure (status activatedState)) := by
    refine .trans (comes_inspect _ .syncDirectory _) (.trans (comes_await _ (.afterPublish _) _) ?_)
    exact comes_read rfl (readText_encode activated_writes.sound activated_writes.bytes _)
  obtain ⟨trace, hexec⟩ := hcomes
  have htick := Exec.single (T := clientKeyRuns twoPairs) (l := Move.tick)
    (s := ⟨encode activatedState, 1700000300033, 1, 1, some activationRest⟩) rfl
  exact ⟨_, (htick.append hexec).snoc (l := Move.finish) rfl⟩

/-- The second key replaces the first one three milliseconds after the time it is stamped with,
and the run goes on to the last millisecond of the retention of the first. -/
theorem exec_rotation : ∃ first e second, Exec (clientKeyRuns twoPairs) setupHost
    (first ++ e :: second) ⟨encode activatedState, 1700086700029, 1, 1, none⟩ ∧
      Holds twoPairs e.before armedState ∧ Holds twoPairs e.after activatedState ∧
      e.after.clock = 1700000300033 := by
  obtain ⟨first, hschedule⟩ := exec_schedule
  obtain ⟨propagation, hpropagation⟩ := exec_ticks (C := twoPairs)
    ⟨encode armedState, 1700000000024, 1, 1, none⟩ 300000
  obtain ⟨second, hactivating⟩ := exec_activating
  obtain ⟨third, hactivated⟩ := exec_activated
  obtain ⟨retention, hretention⟩ := exec_ticks (C := twoPairs)
    ⟨encode activatedState, 1700000300038, 1, 1, none⟩ 86399991
  have hrename : Host.step twoPairs
      ⟨encode armedState, 1700000300033, 1, 1, some (renamed twoPairs .activate
        (encode activatedState) fun s => pure (status s))⟩ (.act true) =
      some ⟨encode activatedState, 1700000300033, 1, 1, some activationRest⟩ := rfl
  have hbefore := (hschedule.append hpropagation).append hactivating
  have hrun := hbefore.append (((Exec.single (T := clientKeyRuns twoPairs) hrename).append
    hactivated).append hretention)
  refine ⟨_, _, third ++ retention, hrun, ?_, ?_, rfl⟩
  · exact ⟨0, readText_encode armed_writes.sound armed_writes.bytes 0⟩
  · exact ⟨0, readText_encode activated_writes.sound activated_writes.bytes 0⟩

theorem setupHost_initial : (clientKeyRuns twoPairs).initial setupHost :=
  ⟨rfl, rfl, setupState, read_setup.1, rfl⟩

/-- A rotation through activation, up to the end of the retention of the replaced key. -/
theorem client_key_rotation_schedule : ∃ h trace,
    Exec (clientKeyRuns twoPairs) setupHost trace h ∧ KeySafety twoPairs setupHost trace h ∧
      signer twoPairs h = some secondKey ∧
      getClientPublicJwks twoPairs h = some [secondKey.pub, firstKey.pub] := by
  obtain ⟨first, e, second, hrun, -⟩ := exec_rotation
  have hread : readText twoPairs (encode activatedState) 1700086700029 = some activatedState :=
    readText_encode activated_writes.sound activated_writes.bytes _
  refine ⟨_, _, hrun, client_key_rotation twoPairs (fun s hs => ?_) setupHost_initial hrun, ?_, ?_⟩
  · obtain rfl : setupState = s := Option.some.inj (read_setup.1.symm.trans hs)
    exact twoPairs_newNames
  · rw [signer, hread]
    rfl
  · rw [getClientPublicJwks, hread]
    decide +kernel

/-- The retention of a replaced signer, counted from the step that replaced it. -/
def RetainedFromReplacement (C : NodeCrypto) (trace : KeyRun) (h : Host) : Prop :=
  ∀ first e last, trace = first ++ e :: last → ∀ s s', Holds C e.before s → Holds C e.after s' →
    s'.current ≠ s.current → h.clock < e.after.clock + CLIENT_KEY_RETENTION_MS →
      Served C s.current.pub h

/-- The key is dropped a retention time after the stamp, which is sooner. -/
theorem replaced_key_dropped_early : ∃ h trace,
    (clientKeyRuns twoPairs).initial setupHost ∧ Exec (clientKeyRuns twoPairs) setupHost trace h ∧
      ¬ RetainedFromReplacement twoPairs trace h := by
  obtain ⟨first, e, second, hrun, hbefore, hafter, hclock⟩ := exec_rotation
  have hlast := hrun.snoc (l := Move.tick) rfl
  refine ⟨_, _, setupHost_initial, hlast, fun hretained => ?_⟩
  have hread : readText twoPairs (encode activatedState) 1700086700030 = some activatedState :=
    readText_encode activated_writes.sound activated_writes.bytes _
  obtain ⟨keys, hkeys, hmem⟩ := hretained first e (second ++ [_])
    (List.append_assoc first (e :: second) _) armedState activatedState hbefore hafter (by decide +kernel)
    (by rw [hclock]; decide)
  have hserved : getClientPublicJwks twoPairs
      ⟨encode activatedState, 1700086700030, 1, 1, none⟩ = some [secondKey.pub] := by
    rw [getClientPublicJwks, hread]
    decide +kernel
  obtain rfl : [secondKey.pub] = keys := Option.some.inj (hserved.symm.trans hkeys)
  exact absurd hmem (by decide +kernel)

end Example

end DreamSso.ClientKeys
