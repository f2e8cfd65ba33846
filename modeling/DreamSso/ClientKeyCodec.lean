import DreamSso.ClientKeySizes

/-!
The state file from any file that is accepted: what is written is read back, and a key that
has been staged is armed and activated. The size check is the exception: it does not leave room
for what arming adds.
-/
namespace DreamSso.ClientKeys

open Interleaving IsoDates JsStrings JsonValues JsonValues.Json Transitions

variable {C : NodeCrypto}

section Facts

variable {kids : List JsString} {h h' : Host} {s : State C} {g : Phase C} {c : Command} {m : Move}
  {n n' : ℕ} {time time' : ℤ}

/-- The state is sound, and its keys have names the run may give. -/
structure Stored (kids : List JsString) (generated : ℕ) (s : State C) : Prop where
  sound : s.Sound
  known : ∀ kid ∈ s.kids, KnownKid C kids generated kid

/-- The first moment, from a time on, at which a pending key may become the signer. -/
def Pending.due (p : Pending C) (time : ℤ) : ℤ :=
  match p.activate_after with
  | some after => max time after.ms
  | none => max time p.created_at.ms + CLIENT_KEY_PROPAGATION_MS

/-- Among the retired keys that are still published then, there is room for the signer that the
pending key replaces. -/
def State.HasRoom (s : State C) (time : ℤ) : Prop :=
  ∀ p, s.pending = some p → (s.pruned (p.due time)).length < MAX_RETIRED

theorem Stored.mono (hs : Stored kids n s) (hle : n ≤ n') : Stored kids n' s :=
  ⟨hs.sound, fun kid hkid => (hs.known kid hkid).mono hle⟩

theorem pruned_later (s : State C) (hle : time ≤ time') :
    (s.pruned time').length ≤ (s.pruned time).length := by
  refine (List.monotone_filter_right _ fun r hr => ?_).length_le
  simp only [Retired.unexpired, decide_eq_true_eq] at hr ⊢
  omega

theorem Pending.due_later (p : Pending C) (hle : time ≤ time') : p.due time ≤ p.due time' := by
  unfold Pending.due
  split <;> omega

theorem State.HasRoom.later (hs : s.HasRoom time) (hle : time ≤ time') : s.HasRoom time' :=
  fun p hp => (pruned_later s (p.due_later hle)).trans_lt (hs p hp)

def FileStored (kids : List JsString) (h : Host) : Prop :=
  ∀ at_ (s : State C), readText C h.file at_ = some s → Stored kids h.keys s ∧ s.HasRoom h.clock

/-- What a phase of the operation says of the state it carries. -/
def PhaseStored (kids : List JsString) (h : Host) : Phase C → Prop
  | .loaded _ s _ => Stored kids h.keys s ∧ s.HasRoom h.clock
  | .stamped _ s _ first last =>
      Stored kids h.keys s ∧ s.HasRoom last ∧ first ≤ last ∧ last ≤ h.clock
  | .named s _ last _ =>
      Stored kids h.keys s ∧ s.pending = none ∧ (s.pruned last).length < MAX_RETIRED
  | .keyed s _ last _ key =>
      Stored kids h.keys s ∧ s.pending = none ∧ (s.pruned last).length < MAX_RETIRED ∧
        ∀ k ∈ key, k.pub.kid ∉ s.kids ∧ KnownKid C kids h.keys k.pub.kid
  | _ => True

theorem PhaseStored.quiet (hg : PhaseStored kids h g) (hq : Quiet h m h') :
    PhaseStored kids h' g := by
  cases g with
  | loaded fresh s at_ => exact ⟨hg.1.mono hq.keys, hg.2.later hq.clock⟩
  | stamped fresh s at_ first last =>
    exact ⟨hg.1.mono hq.keys, hg.2.1, hg.2.2.1, hg.2.2.2.trans hq.clock⟩
  | named s at_ last id => exact ⟨hg.1.mono hq.keys, hg.2⟩
  | keyed s at_ last id key =>
    obtain ⟨hs, hpending, hroom, hkey⟩ := hg
    refine ⟨hs.mono hq.keys, hpending, hroom, fun k hk => ?_⟩
    exact ⟨(hkey k hk).1, (hkey k hk).2.mono hq.keys⟩
  | opening fresh => trivial
  | timed fresh at_ => trivial
  | ended => trivial

/-- A command that does not write. -/
theorem PhaseStored.act (hnew : NewNames C kids) (hfile : FileStored (C := C) kids h)
    (hg : PhaseStored kids h g) (hok : KeyOk g c) (hc : ∀ bytes, c ≠ .rename bytes)
    (k : Option (Job ClientKeyStatus)) :
    PhaseStored kids { (h.perform c).1 with running := k } (g.next c (some (h.perform c).2)) := by
  have hq := quiet_perform (h := h) hc k
  have hstays := hg.quiet hq
  cases hok with
  | opening hharmless =>
    cases c with
    | now => trivial
    | inspect what => trivial
    | afterPublish phase => trivial
    | _ => cases hharmless
  | @read fresh at_ =>
    cases hread : readText C h.file at_ with
    | none =>
      have hnext : (Phase.timed fresh at_).next .readFile (some h.file) = (.ended : Phase C) := by
        simp only [Phase.next, hread]
      exact hnext ▸ trivial
    | some s =>
      have hnext : (Phase.timed fresh at_).next .readFile (some h.file) = .loaded fresh s at_ := by
        simp only [Phase.next, hread]
      exact hnext ▸ hfile at_ s hread
  | @loaded fresh s at_ _ hharmless =>
    cases c with
    | now => exact ⟨hg.1, hg.2, le_rfl, le_rfl⟩
    | inspect what => exact hstays
    | afterPublish phase => exact hstays
    | _ => cases hharmless
  | @stamped fresh s at_ first last _ hharmless =>
    cases c with
    | now => exact ⟨hg.1, hg.2.1.later hg.2.2.2, hg.2.2.1.trans hg.2.2.2, le_rfl⟩
    | inspect what => exact hstays
    | afterPublish phase => exact hstays
    | _ => cases hharmless
  | name hpending hroom => exact ⟨hstays.1, hpending, hroom⟩
  | generate =>
    obtain ⟨hs, hpending, hroom⟩ := hstays
    refine ⟨hs, hpending, hroom, fun key hkey => ?_⟩
    rw [generatedKey_kid hkey]
    refine ⟨fun hmem => hnew.unknown (hg.1.known _ hmem), .inr ⟨h.keys, Nat.lt_succ_self _, rfl⟩⟩
  | keyed hharmless hnow =>
    cases c with
    | now => exact absurd rfl hnow
    | inspect what => exact hstays
    | afterPublish phase => exact hstays
    | _ => cases hharmless
  | stage => exact absurd rfl (hc _)
  | arm => exact absurd rfl (hc _)
  | activate => exact absurd rfl (hc _)

/-- A key that is not published has no time to become the signer either. -/
theorem unpublished_activate {p : Pending C} (hp : p.consistent = true)
    (hunpublished : p.published_at = none) : p.activate_after = none := by
  rw [Pending.consistent, hunpublished] at hp
  cases hactivate : p.activate_after with
  | none => rfl
  | some after => simp [hactivate] at hp

/-- What a write puts into the file. -/
structure Writable (C : NodeCrypto) (kids : List JsString) (h : Host) (s : State C) : Prop where
  stored : Stored kids h.keys s
  bytes : byteLength (encode s) ≤ MAX_BYTES
  room : s.HasRoom h.clock

theorem writable_of_rename {bytes : JsString} (hg : PhaseStored kids h g)
    (hok : KeyOk g (.rename bytes)) : ∃ s, bytes = encode s ∧ Writable C kids h s := by
  cases hok with
  | opening hc => cases hc
  | loaded hc => cases hc
  | stamped hc => cases hc
  | keyed hc => cases hc
  | @stage s at_ last id key created hcreated hfits =>
    obtain ⟨hs, hpending, hroom, hkey⟩ := hg
    obtain ⟨hkid, hknown⟩ := hkey key rfl
    refine ⟨_, rfl, ⟨staged_sound hs.sound hpending hroom hkid hfits.1, ?_⟩, hfits.2, ?_⟩
    · intro kid hmem
      rcases mem_kids_staged hpending hmem with rfl | hmem
      · exact hknown
      · exact hs.known kid hmem
    · intro p hp
      exact (List.length_filter_le _ _).trans_lt hroom
  | @arm fresh at_ first last published after s p hpending hunpublished hpublished hafter hfits =>
    obtain ⟨hs, hroom, -, hlast⟩ := hg
    refine ⟨_, rfl, ⟨armed_sound hs.sound hpending ?_ hafter hfits.1, ?_⟩, hfits.2, ?_⟩
    · rw [hpublished]
      exact le_max_right _ _
    · rw [kids_armed hpending]
      exact hs.known
    · rintro q ⟨⟩
      refine (pruned_later s ?_).trans_lt (hroom p hpending)
      have hactivate := unpublished_activate (hs.sound.pending p hpending) hunpublished
      simp only [Pending.due, hactivate, hafter, hpublished]
      exact le_max_right _ _
  | @activate fresh at_ first last after rotated s p hpending hafter hdue hrotated hfits =>
    obtain ⟨hs, hroom, hordered, -⟩ := hg
    have hplace : (s.pruned rotated.ms).length < MAX_RETIRED := by
      have hdue' : p.due last = rotated.ms := by
        simp only [Pending.due, hafter, instant?_eq_some hrotated]
        exact max_eq_left (hdue.trans hordered)
      exact hdue' ▸ hroom p hpending
    refine ⟨_, rfl, ⟨activated_sound hs.sound hpending hplace hfits.1, ?_⟩, hfits.2, ?_⟩
    · intro kid hmem
      exact hs.known kid (mem_kids_activated hpending hmem)
    · intro q hq
      cases hq

end Facts

section Steps

variable {kids : List JsString} {h h' : Host} {m : Move}

/-- At every moment of a run the file holds a sound state, or none that is accepted. -/
structure KeepsFile (C : NodeCrypto) (kids : List JsString) (h : Host) : Prop where
  file : FileStored (C := C) kids h
  running : ∀ job, h.running = some job → ∃ g, Keeps C g job ∧ PhaseStored kids h g

theorem KeepsFile.later (hinv : KeepsFile C kids h) (hsame : h'.file = h.file)
    (hclock : h.clock ≤ h'.clock) (hkeys : h.keys ≤ h'.keys)
    (hrunning : ∀ job, h'.running = some job → ∃ g, Keeps C g job ∧ PhaseStored kids h' g) :
    KeepsFile C kids h' := by
  refine ⟨fun at_ s hread => ?_, hrunning⟩
  rw [hsame] at hread
  obtain ⟨hs, hroom⟩ := hinv.file at_ s hread
  exact ⟨hs.mono hkeys, hroom.later hclock⟩

theorem KeepsFile.step (hnew : NewNames C kids) (hinv : KeepsFile C kids h)
    (hstep : h.step C m = some h') : KeepsFile C kids h' := by
  cases m with
  | start operation =>
    simp only [Host.step] at hstep
    split at hstep
    · cases hstep
      refine hinv.later rfl le_rfl le_rfl fun job hjob => ?_
      cases hjob
      exact ⟨_, keeps_applyClientKeyOperationLocked operation, trivial⟩
    · cases hstep
  | act granted =>
    simp only [Host.step] at hstep
    split at hstep
    · next c k hjob =>
      obtain ⟨g, ⟨hok, hnext⟩, hg⟩ := hinv.running _ hjob
      split at hstep
      · cases hstep
        by_cases hrename : ∃ bytes, c = .rename bytes
        · obtain ⟨bytes, rfl⟩ := hrename
          obtain ⟨s, rfl, hwrite⟩ := writable_of_rename hg hok
          refine ⟨fun at_ t ht => ?_, fun job hjob' => ?_⟩
          · obtain rfl : t = s := Option.some.inj
              (ht.symm.trans (readText_encode hwrite.stored.sound hwrite.bytes at_))
            exact ⟨hwrite.stored, hwrite.room⟩
          · cases hjob'
            exact ⟨.opening false, next_rename hok ▸ hnext (some ()), trivial⟩
        · have hc : ∀ bytes, c ≠ .rename bytes := fun bytes heq => hrename ⟨bytes, heq⟩
          have hq := quiet_perform (h := h) hc (some (k (some (h.perform c).2)))
          refine hinv.later hq.file hq.clock hq.keys fun job hsome => ?_
          cases hsome
          exact ⟨_, hnext _, hg.act hnew hinv.file hok hc _⟩
      · cases hstep
        refine hinv.later rfl le_rfl le_rfl fun job hsome => ?_
        cases hsome
        exact ⟨_, hnext none, by cases g <;> trivial⟩
    · cases hstep
  | tick =>
    cases hstep
    have hq : Quiet h .tick { h with clock := h.clock + 1 } :=
      ⟨rfl, rfl, by show h.clock ≤ h.clock + 1; omega, le_rfl⟩
    refine hinv.later rfl hq.clock le_rfl fun job hjob => ?_
    obtain ⟨g, hkeeps, hg⟩ := hinv.running job hjob
    exact ⟨g, hkeeps, hg.quiet hq⟩
  | _ =>
    simp only [Host.step, Option.ite_none_right_eq_some] at hstep
    obtain ⟨-, hstep⟩ := hstep
    cases hstep
    refine hinv.later rfl le_rfl le_rfl fun job hjob => ?_
    cases hjob

theorem KeepsFile.write {e : Event Host Move} (hinv : KeepsFile C kids e.before)
    (hstep : e.before.step C e.label = some e.after) (h : Renames e) :
    ∃ s, e.after.file = encode s ∧ Writable C kids e.before s := by
  obtain ⟨before, label, after⟩ := e
  obtain ⟨hlabel, bytes, k, hjob⟩ := h
  simp only at hstep hlabel hjob
  simp only [hlabel, Host.step, hjob, if_true] at hstep
  cases hstep
  obtain ⟨g, hkeeps, hg⟩ := hinv.running _ hjob
  obtain ⟨s, rfl, hwrite⟩ := writable_of_rename hg hkeeps.1
  exact ⟨s, rfl, hwrite⟩

end Steps

section Codec

variable {kids : List JsString} {start h : Host} {trace : KeyRun} {s s₀ : State C} {p : Pending C}
  {published after rotated : Instant}

/-- Neither the size check before the write nor the reading behind it refuses the state. -/
def State.Accepted (s : State C) : Prop :=
  byteLength (encode s) ≤ MAX_BYTES ∧ ∀ at_, readText C (encode s) at_ = some s

theorem accepted_iff (hs : s.Sound) : s.Accepted ↔ byteLength (encode s) ≤ MAX_BYTES :=
  ⟨And.left, fun hbytes => ⟨hbytes, readText_encode hs hbytes⟩⟩

/-- Two dates fit in the place of two nulls, and the next number of the counter: 44 bytes more
in the years of four digits, 45 where the counter grows. -/
def State.LeavesRoom (s : State C) (published after : Instant) : Prop :=
  byteLength (encode s) + (toISOString published).length + (toISOString after).length +
    (decimal (s.generation + 1)).length ≤ MAX_BYTES + (decimal s.generation).length + 4

/-- A sound state is armed exactly if there is room for it. -/
theorem armed_accepted (hs : s.Sound) (hp : s.pending = some p)
    (hunpublished : p.published_at = none) (hgeneration : s.generation < MAX_GENERATION)
    (hpublished : p.created_at.ms ≤ published.ms)
    (hafter : after.ms = published.ms + CLIENT_KEY_PROPAGATION_MS) :
    (s.armed p published after).counted.Accepted ↔ s.LeavesRoom published after := by
  have hnone := unpublished_activate (hs.pending p hp) hunpublished
  have hbytes := armed_bytes published after hp hunpublished hnone
  rw [accepted_iff (armed_sound hs hp hpublished hafter hgeneration), State.LeavesRoom]
  omega

/-- An armed state is activated when its time has come. -/
theorem activated_accepted (hs : s.Sound) (hp : s.pending = some p)
    (hafter : p.activate_after = some after) (hdue : after.ms ≤ rotated.ms)
    (hroom : s.HasRoom rotated.ms) (hgeneration : s.generation < MAX_GENERATION)
    (hbytes : byteLength (encode s) ≤ MAX_BYTES) : (s.activated p rotated).counted.Accepted := by
  obtain ⟨published, hpublished⟩ : ∃ published, p.published_at = some published := by
    have hconsistent := hs.pending p hp
    rw [Pending.consistent, hafter] at hconsistent
    cases hmarked : p.published_at with
    | none => simp [hmarked] at hconsistent
    | some published => exact ⟨published, rfl⟩
  have hplace := hroom p hp
  simp only [Pending.due, hafter, max_eq_left hdue] at hplace
  rw [accepted_iff (activated_sound hs hp hplace hgeneration)]
  exact (activated_bytes hp hpublished hafter).trans hbytes

/-- A file that is read with a pending key is read so at any time. -/
theorem decode_pending {raw : JsString} {at_ at' : ℤ} {s s' : State C}
    (h : decode C raw at_ = some s) (h' : decode C raw at' = some s') (hp : s.pending ≠ none) : s' = s := by
  unfold decode at h h'
  split at h
  · next value hparse =>
    simp only [hparse] at h'
    split at h
    · exact absurd (decodeLegacy_eq_some h).2.1 hp
    · next version hversion =>
      simp only [hversion] at h'
      rw [h] at h'
      exact (Option.some.inj h').symm
  · cases h

theorem keepsFile_start (hrunning : start.running = none)
    (hread : readText C start.file start.clock = some s₀) (hroom : s₀.HasRoom start.clock) :
    KeepsFile C s₀.kids start := by
  refine ⟨fun at_ s hs => ⟨⟨readText_sound hs, fun kid hkid => .inl ?_⟩, fun p hp => ?_⟩, ?_⟩
  · rwa [(readText_sameKeys hread hs).kids] at hkid
  · have hpending : s₀.pending ≠ none := by
      rw [← (readText_sameKeys hread hs).pending, hp]
      exact Option.some_ne_none p
    obtain rfl := decode_pending (readText_decode hread) (readText_decode hs) hpending
    exact hroom p hp
  · intro job hjob
    rw [hrunning] at hjob
    cases hjob

/-- What the codec keeps to in a run. -/
structure CodecSafety (C : NodeCrypto) (trace : KeyRun) (h : Host) : Prop where
  round_trip : ∀ raw at_ (s : State C), decode C raw at_ = some s →
    ∀ at', decode C (encode s) at' = some s
  reached : ∀ s, Holds C h s → ∀ at_, decode C (encode s) at_ = some s
  written : ∀ e ∈ trace, Renames e → ∃ s : State C, e.after.file = encode s ∧ s.Accepted
  arm : ∀ s p, Holds C h s → s.pending = some p → p.published_at = none →
    s.generation < MAX_GENERATION → ∀ published after, p.created_at.ms ≤ published.ms →
      after.ms = published.ms + CLIENT_KEY_PROPAGATION_MS →
        ((s.armed p published after).counted.Accepted ↔ s.LeavesRoom published after)
  activate : ∀ s p after, Holds C h s → h.file = encode s → s.pending = some p →
    p.activate_after = some after → s.generation < MAX_GENERATION →
      ∀ rotated : Instant, h.clock ≤ rotated.ms → after.ms ≤ rotated.ms →
        (s.activated p rotated).counted.Accepted

/-- From any file that is accepted, states survive being written and read, and a staged key is
armed exactly if the size check leaves room for it, and then activated. -/
theorem client_key_codec (C : NodeCrypto) {start h : Host} {trace : KeyRun} {s₀ : State C}
    (hrunning : start.running = none) (hread : readText C start.file start.clock = some s₀)
    (hnew : NewNames C s₀.kids) (hroom : s₀.HasRoom start.clock)
    (hrun : Exec (clientKeyRuns C) start trace h) : CodecSafety C trace h := by
  have hstart := keepsFile_start hrunning hread hroom
  have hkeeps : ∀ {first u}, Exec (clientKeyRuns C) start first u → KeepsFile C s₀.kids u :=
    fun hfirst => hfirst.preserves (fun _ _ _ hinv hstep => hinv.step hnew hstep) hstart
  have hround : ∀ raw at_ (s : State C), decode C raw at_ = some s →
      ∀ at', decode C (encode s) at' = some s :=
    fun raw at_ s hs at' => decode_encode (decode_sound hs) at'
  refine ⟨hround, ?_, ?_, ?_, ?_⟩
  · rintro s ⟨at_, hs⟩
    exact hround _ _ s (readText_decode hs)
  · intro e he hrename
    obtain ⟨first, last, -, hfirst, hstep, -⟩ := hrun.split he
    obtain ⟨s, hfile, hwrite⟩ := (hkeeps hfirst).write hstep hrename
    exact ⟨s, hfile, hwrite.bytes, readText_encode hwrite.stored.sound hwrite.bytes⟩
  · rintro s p ⟨at_, hs⟩ hp hunpublished hgeneration published after hpublished hafter
    exact armed_accepted (readText_sound hs) hp hunpublished hgeneration hpublished hafter
  · rintro s p after ⟨at_, hs⟩ hfile hp hafter hgeneration rotated hrotated hdue
    have hbytes : byteLength (encode s) ≤ MAX_BYTES := by
      rw [hfile, readText, Option.ite_none_left_eq_some] at hs
      exact not_lt.mp fun hlong => hs.1 (.inr hlong)
    exact activated_accepted (readText_sound hs) hp hafter hdue
      (((hkeeps hrun).file at_ s hs).2.later hrotated) hgeneration hbytes

end Codec

section Example

variable {C : NodeCrypto} {h : Host} {s : State C} {p : Pending C} {published after : Instant}
  {f : State C → Job ClientKeyStatus}

/-- A state too large for its file is not written. -/
theorem comes_refused (phase : PublishPhase) (hgeneration : s.generation < MAX_GENERATION)
    (hbytes : MAX_BYTES < byteLength (encode s.counted)) :
    Comes C h (save phase s >>= f) { h with clock := h.clock + 1 } .thrown := by
  rw [save, if_neg (not_le.mpr hgeneration), Prog.bind_assoc, publish, Prog.bind_assoc]
  refine .trans (comes_inspect h .directory _) ?_
  rw [if_pos hbytes]
  exact ⟨[], .nil _⟩

theorem comes_armRefused (hcreated : p.created_at.ms ≤ h.clock)
    (hpublished : instant? h.clock = some published)
    (hafter : instant? (h.clock + CLIENT_KEY_PROPAGATION_MS) = some after)
    (hgeneration : s.generation < MAX_GENERATION)
    (hbytes : MAX_BYTES < byteLength (encode (s.armed p published after).counted)) :
    Comes C h (arm s p >>= f) { h with clock := h.clock + 2 } .thrown := by
  rw [arm, Prog.bind_assoc]
  refine .trans (comes_await h .now _) ?_
  have hlate : max (h.perform .now).2 p.created_at.ms = h.clock := max_eq_left hcreated
  simp only [hlate, hpublished, hafter]
  refine .to (comes_refused .arm hgeneration hbytes) ?_
  simp only [Host.paced, Host.perform, Int.add_assoc, Int.reduceAdd]

/-- Names of the greatest length. -/
def longKid (i : ℕ) : JsString := List.replicate 197 0x61 ++ pad 3 i

theorem longKid_unit {i u : ℕ} (hu : u ∈ longKid i) : u = 0x61 ∨ isDigitUnit u = true := by
  rcases List.mem_append.mp hu with hu | hu
  · exact .inl (List.eq_of_mem_replicate hu)
  · exact .inr (pad_digit hu)

theorem longKid_length (i : ℕ) : (longKid i).length = 200 := by
  rw [longKid, List.length_append, List.length_replicate, length_pad]

theorem longKid_plain {i u : ℕ} (hu : u ∈ longKid i) : Plain u := by
  have hunit := longKid_unit hu
  simp only [isDigitUnit, Bool.and_eq_true, decide_eq_true_eq] at hunit
  unfold Plain
  omega

theorem longKid_isKid (i : ℕ) : isKid (longKid i) = true := by
  have hne : longKid i ≠ [] := by
    rw [Ne, ← List.length_eq_zero_iff, longKid_length]
    decide
  simp only [isKid, longKid_length, Bool.and_eq_true, decide_eq_true_eq, List.all_eq_true]
  refine ⟨⟨hne, le_rfl⟩, fun u hu => ?_⟩
  have hunit := longKid_unit hu
  simp only [isDigitUnit, Bool.and_eq_true, decide_eq_true_eq] at hunit
  omega

theorem longKid_injective {i j : ℕ} (hi : i < 1000) (hj : j < 1000) (h : longKid i = longKid j) :
    i = j := by
  have hpad := congrArg digitsValue (List.append_cancel_left h)
  rwa [digitsValue_pad hi, digitsValue_pad hj] at hpad

/-- A signer with a name of 90 units. -/
def crowdedKey : PrivateKey twoPairs :=
  ⟨⟨firstX, List.replicate 90 0x61, by decide +kernel⟩, firstD, by decide +kernel⟩

def crowdedRetired (i : ℕ) : Retired :=
  ⟨⟨firstX, longKid i, ⟨by decide +kernel, longKid_isKid i⟩⟩, ⟨1700000000000, by decide⟩⟩

/-- So many retired keys that a pending one just fits, as long as it is not armed. -/
def crowdedState : State twoPairs :=
  ⟨0, crowdedKey, none, none, (List.range 385).map crowdedRetired⟩

def crowdedHost : Host := ⟨encode crowdedState, 1700000000000, 0, 0, none⟩

/-- Nothing has expired when the key is staged. -/
def crowdedStaged : State twoPairs :=
  { crowdedState with generation := 1, pending := some stagedKey }

theorem crowded_unexpired {r : Retired} (hr : r ∈ crowdedState.retired) :
    r.unexpired 1700000000005 = true := by
  obtain ⟨i, -, rfl⟩ := List.mem_map.mp hr
  rfl

theorem crowded_pruned : crowdedState.pruned 1700000000005 = crowdedState.retired :=
  List.filter_eq_self.mpr fun _ => crowded_unexpired

theorem crowded_staged : (crowdedState.staged 1700000000005 stagedKey.id stagedKey.key
    stagedKey.created_at).counted = crowdedStaged := by
  rw [State.staged, crowded_pruned]
  rfl

theorem crowded_length : crowdedState.retired.length = 385 := by
  rw [crowdedState, List.length_map, List.length_range]

theorem crowded_kids : ∀ kid ∈ crowdedState.kids, kid.length = 90 ∨ kid.length = 200 := by
  intro kid hkid
  rw [kids_none rfl, List.mem_cons, List.mem_map] at hkid
  rcases hkid with rfl | ⟨r, hr, rfl⟩
  · exact .inl rfl
  · obtain ⟨i, -, rfl⟩ := List.mem_map.mp hr
    exact .inr (longKid_length i)

theorem crowded_sound : crowdedState.Sound := by
  refine ⟨by decide, ?_, ?_, ?_⟩
  · rintro p ⟨⟩
  · rw [crowded_length]
    decide
  rw [kids_none rfl, List.nodup_cons]
  constructor
  · intro hmem
    obtain ⟨r, hr, heq⟩ := List.mem_map.mp hmem
    obtain ⟨i, -, rfl⟩ := List.mem_map.mp hr
    have hlength := congrArg List.length heq
    rw [show (crowdedRetired i).key.kid = longKid i from rfl, longKid_length] at hlength
    exact absurd hlength (by decide)
  · rw [crowdedState, List.map_map]
    refine List.Nodup.map_on (fun i hi j hj heq => ?_) List.nodup_range
    rw [List.mem_range] at hi hj
    exact longKid_injective (by omega) (by omega) heq

theorem crowdedStaged_sound : crowdedStaged.Sound := by
  rw [← crowded_staged]
  refine staged_sound crowded_sound rfl ?_ ?_ (by decide)
  · rw [crowded_pruned, crowded_length]
    decide
  · intro hmem
    have hlength : stagedKey.key.pub.kid.length = 43 := by decide +kernel
    have := crowded_kids _ hmem
    omega

theorem crowded_retiredBytes : retiredBytes crowdedState.retired = 260260 := by
  rw [retiredBytes_of_forall (n := 676), crowded_length]
  intro r hr
  obtain ⟨i, -, rfl⟩ := List.mem_map.mp hr
  have hkey : byteLength (stringify (crowdedRetired i).key.json) = 314 := by
    rw [public_bytes fun _ => longKid_plain]
    exact congrArg (· + 114) (longKid_length i)
  have hdate : (toISOString (crowdedRetired i).retired_at).length = 24 := by
    show (toISOString ⟨1700000000000, by decide⟩).length = 24
    decide +kernel
  rw [retired_bytes, hkey, hdate]

theorem crowded_bytes (generation : ℕ) (pending : Option (Pending twoPairs)) :
    byteLength (encode { crowdedState with generation, pending }) =
      261630 + (decimal generation).length + pendingBytes pending := by
  have hcurrent : byteLength (stringify crowdedState.current.json) = 254 := by decide +kernel
  have hrotated : byteLength (stringify (ofOption dateJson crowdedState.rotated_at)) = 4 :=
    null_bytes
  rw [encode_bytes]
  simp only [crowded_retiredBytes, crowded_length, hcurrent, hrotated]
  omega

/-- Fourteen bytes are left. -/
theorem crowdedStaged_bytes : byteLength (encode crowdedStaged) = 262130 := by
  have hpending : pendingBytes (some stagedKey) = 499 := by decide +kernel
  have hcounter : (decimal 1).length = 1 := by decide
  rw [crowdedStaged, crowded_bytes, hpending, hcounter]

theorem crowded_writes : Writes (crowdedState.staged 1700000000005 stagedKey.id stagedKey.key
    stagedKey.created_at) := by
  refine ⟨by decide, crowded_staged ▸ crowdedStaged_sound, ?_⟩
  rw [crowded_staged, crowdedStaged_bytes]
  decide

theorem crowded_armed : MAX_BYTES < byteLength (encode (crowdedStaged.armed stagedKey
    ⟨1700000000015, by decide⟩ ⟨1700000300015, by decide⟩).counted) := by
  have hbytes : byteLength (encode (crowdedStaged.armed stagedKey ⟨1700000000015, by decide⟩
      ⟨1700000300015, by decide⟩).counted) + (decimal crowdedStaged.generation).length + 4 = _ :=
    armed_bytes _ _ rfl rfl rfl
  have hpublished : (toISOString ⟨1700000000015, by decide⟩).length = 24 := by decide +kernel
  have hafter : (toISOString ⟨1700000300015, by decide⟩).length = 24 := by decide +kernel
  have hcounter : (decimal crowdedStaged.generation).length = 1 ∧
      (decimal (crowdedStaged.generation + 1)).length = 1 := by decide
  rw [crowdedStaged_bytes, hpublished, hafter, hcounter.1, hcounter.2] at hbytes
  rw [MAX_BYTES]
  omega

theorem crowded_read (at_ : ℤ) :
    readText twoPairs (encode crowdedState) at_ = some crowdedState := by
  have hcounter : (decimal crowdedState.generation).length = 1 := by decide
  have hbytes := crowded_bytes crowdedState.generation none
  rw [hcounter, pendingBytes, ofOption, null_bytes] at hbytes
  refine readText_encode crowded_sound ?_ at_
  exact (Nat.le_of_eq hbytes).trans (by decide)

theorem crowded_stage (f : State twoPairs → Job ClientKeyStatus) :
    Comes twoPairs ⟨encode crowdedState, 1700000000005, 0, 0, none⟩ (stage crowdedState >>= f)
      ⟨encode crowdedStaged, 1700000000015, 1, 1, none⟩ (f crowdedStaged) := by
  rw [← crowded_staged]
  refine comes_stage ?_ generated_second (instant?_ms stagedKey.created_at) crowded_writes
  show (crowdedState.pruned 1700000000005).length < MAX_RETIRED
  rw [crowded_pruned, crowded_length]
  decide

/-- The operation stages the key and fails at arming it. -/
theorem exec_crowded : ∃ trace, Exec (clientKeyRuns twoPairs) crowdedHost trace
    ⟨encode crowdedStaged, 1700000000017, 1, 1, some .thrown⟩ := by
  have hstart : Host.step twoPairs crowdedHost (.start .schedule) =
      some { crowdedHost with
        running := some (applyClientKeyOperationLocked twoPairs .schedule) } := rfl
  have hcomes : Comes twoPairs crowdedHost (applyClientKeyOperationLocked twoPairs .schedule)
      ⟨encode crowdedStaged, 1700000000017, 1, 1, none⟩ .thrown := by
    rw [applyClientKeyOperationLocked]
    refine .trans (comes_inspect _ .directory _) (.trans (comes_inspect _ .singleFileMount _) ?_)
    refine .trans (comes_read rfl (crowded_read _)) (.trans (comes_inspect _ .cleanOrphans _) ?_)
    refine .trans (crowded_stage _) ?_
    exact comes_armRefused (by decide) (instant?_ms ⟨1700000000015, by decide⟩)
      (instant?_ms ⟨1700000300015, by decide⟩) (by decide) crowded_armed
  obtain ⟨trace, hexec⟩ := hcomes
  exact ⟨_, (Exec.single (T := clientKeyRuns twoPairs) hstart).append hexec⟩

/-- A key that the program has staged can be armed. -/
def ArmsStaged (C : NodeCrypto) (h : Host) : Prop :=
  ∀ s p, Holds C h s → h.file = encode s → s.pending = some p → p.published_at = none →
    s.generation < MAX_GENERATION → ∀ published after, p.created_at.ms ≤ published.ms →
      after.ms = published.ms + CLIENT_KEY_PROPAGATION_MS →
        (s.armed p published after).counted.Accepted

/-- The stage write leaves fourteen bytes, and the arm write is thrown out. -/
theorem staged_key_refused : ∃ h trace, (clientKeyRuns twoPairs).initial crowdedHost ∧
    Exec (clientKeyRuns twoPairs) crowdedHost trace h ∧ h.running = some .thrown ∧
      ¬ ArmsStaged twoPairs h := by
  obtain ⟨trace, hrun⟩ := exec_crowded
  have hread : readText twoPairs (encode crowdedStaged) 0 = some crowdedStaged :=
    readText_encode crowdedStaged_sound (crowdedStaged_bytes ▸ by decide) 0
  refine ⟨_, trace, ⟨rfl, rfl, crowdedState, crowded_read _, rfl⟩, hrun, rfl, fun harms => ?_⟩
  have haccepted := harms crowdedStaged stagedKey ⟨0, hread⟩ rfl rfl rfl (by decide)
    ⟨1700000000015, by decide⟩ ⟨1700000300015, by decide⟩ (by decide) rfl
  exact absurd crowded_armed (not_lt.mpr haccepted.1)

/-- A rotation cut off once its key is staged. -/
theorem exec_staged : ∃ trace, Exec (clientKeyRuns twoPairs) setupHost trace
    ⟨encode stagedState, 1700000000015, 1, 1, none⟩ := by
  have hstart : Host.step twoPairs setupHost (.start .schedule) =
      some { setupHost with
        running := some (applyClientKeyOperationLocked twoPairs .schedule) } := rfl
  have hcomes : Comes twoPairs setupHost (applyClientKeyOperationLocked twoPairs .schedule)
      ⟨encode stagedState, 1700000000015, 1, 1, none⟩
      (armIfDue stagedState >>= fun s => activateIfDue s >>= fun s => pure (status s)) := by
    rw [applyClientKeyOperationLocked]
    refine .trans (comes_inspect _ .directory _) (.trans (comes_inspect _ .singleFileMount _) ?_)
    refine .trans (comes_read rfl read_setup.2) (.trans (comes_inspect _ .cleanOrphans _) ?_)
    exact comes_stage (by decide) generated_second (instant?_ms stagedKey.created_at)
      staged_writes
  obtain ⟨trace, hexec⟩ := hcomes
  have hstaged := (Exec.single (T := clientKeyRuns twoPairs) hstart).append hexec
  exact ⟨_, hstaged.snoc (l := Move.crash) rfl⟩

/-- From the file of the setup, a staged key is armed and an armed one activated. -/
theorem client_key_codec_setup :
    (∃ h trace, Exec (clientKeyRuns twoPairs) setupHost trace h ∧ CodecSafety twoPairs trace h ∧
      Holds twoPairs h stagedState ∧ (stagedState.armed stagedKey
        ⟨1700000000015, by decide⟩ ⟨1700000300015, by decide⟩).counted.Accepted) ∧
    ∃ h trace, Exec (clientKeyRuns twoPairs) setupHost trace h ∧ CodecSafety twoPairs trace h ∧
      Holds twoPairs h armedState ∧
      (armedState.activated armedKey ⟨1700000300030, by decide⟩).counted.Accepted := by
  have hidle : setupHost.running = none := rfl
  have hroom : setupState.HasRoom setupHost.clock := by
    rintro p ⟨⟩
  constructor
  · obtain ⟨trace, hrun⟩ := exec_staged
    have hsafe := client_key_codec twoPairs hidle read_setup.1 twoPairs_newNames hroom hrun
    have hholds : Holds twoPairs ⟨encode stagedState, 1700000000015, 1, 1, none⟩ stagedState :=
      ⟨0, readText_encode staged_writes.sound staged_writes.bytes 0⟩
    refine ⟨_, trace, hrun, hsafe, hholds, (hsafe.arm _ stagedKey hholds rfl rfl (by decide) _ _
      (by decide) rfl).mpr ?_⟩
    unfold State.LeavesRoom
    decide +kernel
  · obtain ⟨trace, hrun⟩ := exec_schedule
    have hsafe := client_key_codec twoPairs hidle read_setup.1 twoPairs_newNames hroom hrun
    have hholds : Holds twoPairs ⟨encode armedState, 1700000000024, 1, 1, none⟩ armedState :=
      ⟨0, readText_encode armed_writes.sound armed_writes.bytes 0⟩
    exact ⟨_, trace, hrun, hsafe, hholds, hsafe.activate _ armedKey _ hholds rfl rfl rfl
      (by decide) _ (by decide) (by decide)⟩

end Example

end DreamSso.ClientKeys
