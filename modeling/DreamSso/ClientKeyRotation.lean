import DreamSso.ClientKeyState
import DreamSso.Library.Interleaving

/-!
Rotation of the account server's client key. An operation runs alone under the
lock of its state file; it may fail at every call it makes of the system and may
be cut off between any two of them. Readers of the file take no lock.
-/
namespace DreamSso.ClientKeys

open Interleaving IsoDates JsStrings JsonValues Transitions

inductive Operation
  | schedule
  | reconcile
  deriving DecidableEq

inductive PublishPhase
  | stage
  | arm
  | activate
  deriving DecidableEq

/-- Work on the file system that leaves the state file alone: the checks of its
directory and of its mount, removing orphaned temporary files, writing the new
temporary file and comparing the state file with the one read, and syncing the
directory. -/
inductive Inspection
  | directory
  | singleFileMount
  | cleanOrphans
  | temporary
  | syncDirectory
  deriving DecidableEq

inductive Command
  | now
  | readFile
  | inspect (what : Inspection)
  | generateKeyPair
  | randomUUID
  | rename (bytes : JsString)
  | afterPublish (phase : PublishPhase)
  deriving DecidableEq

/-- What is generated is known by how many times it was generated before. -/
abbrev Command.Reply : Command → Type
  | .now => ℤ
  | .readFile => JsString
  | .inspect _ => Unit
  | .generateKeyPair => ℕ
  | .randomUUID => ℕ
  | .rename _ => Unit
  | .afterPublish _ => Unit

abbrev Job := Prog Command Command.Reply

def await (c : Command) : Job c.Reply := Prog.await c

def orThrow : Option α → Job α
  | some a => pure a
  | none => .thrown

/-- The text decoder drops a byte order mark. -/
def withoutMark (raw : JsString) : JsString := if raw.head? = some 0xfeff then raw.tail else raw

/-- The state in the bytes of a file, which may be neither empty nor too many. -/
def readText (C : NodeCrypto) (raw : JsString) (at_ : ℤ) : Option (State C) :=
  if raw = [] ∨ MAX_BYTES < byteLength raw then none else decode C (withoutMark raw) at_

def read (C : NodeCrypto) : Job (State C) := do
  let at_ ← await .now
  let raw ← await .readFile
  orThrow (readText C raw at_)

def publish {C : NodeCrypto} (s : State C) : Job Unit := do
  await (.inspect .directory)
  if MAX_BYTES < byteLength (encode s) then .thrown
  else do
    await (.inspect .temporary)
    await (.rename (encode s))
    await (.inspect .syncDirectory)

def State.counted {C : NodeCrypto} (s : State C) : State C :=
  { s with generation := s.generation + 1 }

/-- Write the state with the next generation and read the file again. -/
def save {C : NodeCrypto} (phase : PublishPhase) (s : State C) : Job (State C) :=
  if MAX_GENERATION ≤ s.generation then .thrown
  else do
    publish s.counted
    await (.afterPublish phase)
    read C

def State.pruned {C : NodeCrypto} (s : State C) (at_ : ℤ) : List Retired :=
  s.retired.filter fun r => r.unexpired at_

def State.staged {C : NodeCrypto} (s : State C) (at_ : ℤ) (id : UuidV4) (key : PrivateKey C)
    (created_at : Instant) : State C :=
  { s with
    retired := s.pruned at_
    pending := some ⟨id, key, created_at, none, none⟩ }

def stage {C : NodeCrypto} (s : State C) : Job (State C) := do
  let at_ ← await .now
  if MAX_RETIRED ≤ (s.pruned at_).length then .thrown
  else do
    let id ← await .randomUUID
    let n ← await .generateKeyPair
    let key ← orThrow (generatedKey C n)
    let created_at ← orThrow (instant? at_)
    save .stage (s.staged at_ (C.randomUUID id) key created_at)

def State.armed {C : NodeCrypto} (s : State C) (p : Pending C) (published after : Instant) :
    State C :=
  { s with pending := some { p with published_at := some published, activate_after := some after } }

/-- This marker is written only after the key is durably public. -/
def arm {C : NodeCrypto} (s : State C) (p : Pending C) : Job (State C) := do
  let now ← await .now
  let at_ := max now p.created_at.ms
  let published ← orThrow (instant? at_)
  let after ← orThrow (instant? (at_ + CLIENT_KEY_PROPAGATION_MS))
  save .arm (s.armed p published after)

def State.activated {C : NodeCrypto} (s : State C) (p : Pending C) (at_ : Instant) : State C :=
  { s with
    retired := s.pruned at_.ms ++ [⟨s.current.pub, at_⟩]
    current := p.key
    pending := none
    rotated_at := some at_ }

def activate {C : NodeCrypto} (s : State C) (p : Pending C) : Job (State C) := do
  let at_ ← await .now
  let rotated ← orThrow (instant? at_)
  save .activate (s.activated p rotated)

def stageIfDue {C : NodeCrypto} (operation : Operation) (s : State C) : Job (State C) :=
  match operation, s.pending with
  | .schedule, none => stage s
  | _, _ => pure s

def armIfDue {C : NodeCrypto} (s : State C) : Job (State C) :=
  match s.pending with
  | some p => if p.published_at = none then arm s p else pure s
  | none => pure s

def activateIfDue {C : NodeCrypto} (s : State C) : Job (State C) :=
  match s.pending with
  | some p =>
      match p.activate_after with
      | some after => do
          let now ← await .now
          if after.ms ≤ now then activate s p else pure s
      | none => pure s
  | none => pure s

structure RotationStatus where
  id : UuidV4
  kid : JsString
  published_at : Option Instant
  activate_after : Option Instant

structure ClientKeyStatus where
  kid : JsString
  rotated_at : Option Instant
  rotation : Option RotationStatus

def status {C : NodeCrypto} (s : State C) : ClientKeyStatus where
  kid := s.current.pub.kid
  rotated_at := s.rotated_at
  rotation := s.pending.map fun p => ⟨p.id, p.key.pub.kid, p.published_at, p.activate_after⟩

def applyClientKeyOperationLocked (C : NodeCrypto) (operation : Operation) : Job ClientKeyStatus := do
  await (.inspect .directory)
  await (.inspect .singleFileMount)
  let s ← read C
  await (.inspect .cleanOrphans)
  let s ← stageIfDue operation s
  let s ← armIfDue s
  let s ← activateIfDue s
  pure (status s)

/-- The file, the clock in milliseconds, how much was generated, and the operation
that holds the lock. -/
structure Host where
  file : JsString
  clock : ℤ
  keys : ℕ
  ids : ℕ
  running : Option (Job ClientKeyStatus)

/-- A call of the system may be refused, and then has done nothing. -/
inductive Move
  | start (operation : Operation)
  | act (granted : Bool)
  | finish
  | crash
  | tick
  deriving DecidableEq

/-- What a call does to the host and what it replies. -/
def Host.perform (h : Host) : (c : Command) → Host × c.Reply
  | .now => (h, h.clock)
  | .readFile => (h, h.file)
  | .inspect _ => (h, ())
  | .generateKeyPair => ({ h with keys := h.keys + 1 }, h.keys)
  | .randomUUID => ({ h with ids := h.ids + 1 }, h.ids)
  | .rename bytes => ({ h with file := bytes }, ())
  | .afterPublish _ => (h, ())

def Host.step (C : NodeCrypto) (h : Host) : Move → Option Host
  | .start operation =>
      match h.running with
      | none => some { h with running := some (applyClientKeyOperationLocked C operation) }
      | some _ => none
  | .act granted =>
      match h.running with
      | some (.call c k) =>
          if granted then some { (h.perform c).1 with running := some (k (some (h.perform c).2)) }
          else some { h with running := some (k none) }
      | _ => none
  | .finish => if h.running.any Prog.ended then some { h with running := none } else none
  | .crash => if h.running.isSome then some { h with running := none } else none
  | .tick => some { h with clock := h.clock + 1 }

/-- What the readers of a file get. -/
def getClientPublicJwks (C : NodeCrypto) (h : Host) : Option (List PublicKey) :=
  (readText C h.file h.clock).map fun s => projection s h.clock

def signer (C : NodeCrypto) (h : Host) : Option (PrivateKey C) :=
  (readText C h.file h.clock).map State.current

/-- Runs that start with a file that is accepted and has no pending key. -/
def clientKeyRuns (C : NodeCrypto) : System Host Move where
  initial h := h.running = none ∧ h.keys = 0 ∧
    ∃ s, readText C h.file h.clock = some s ∧ s.pending = none
  step h m h' := h.step C m = some h'

/-- How far an operation has come: the time and the state it last read, the first
and the last time it took since, and what it generated. `fresh` says that it has
written nothing yet. -/
inductive Phase (C : NodeCrypto)
  | opening (fresh : Bool)
  | timed (fresh : Bool) (at_ : ℤ)
  | loaded (fresh : Bool) (s : State C) (at_ : ℤ)
  | stamped (fresh : Bool) (s : State C) (at_ first last : ℤ)
  | named (s : State C) (at_ last : ℤ) (id : UuidV4)
  | keyed (s : State C) (at_ last : ℤ) (id : UuidV4) (key : Option (PrivateKey C))
  | ended

variable {C : NodeCrypto}

def Phase.next : Phase C → (c : Command) → Option c.Reply → Phase C
  | _, _, none => .ended
  | .opening fresh, .now, some at_ => .timed fresh at_
  | .timed fresh at_, .readFile, some raw =>
      match readText C raw at_ with
      | some s => .loaded fresh s at_
      | none => .ended
  | .loaded fresh s at_, .now, some now => .stamped fresh s at_ now now
  | .stamped fresh s at_ first _, .now, some now => .stamped fresh s at_ first now
  | .stamped _ s at_ _ last, .randomUUID, some n => .named s at_ last (C.randomUUID n)
  | .named s at_ last id, .generateKeyPair, some n => .keyed s at_ last id (generatedKey C n)
  | .stamped _ _ _ _ _, .rename _, some _ => .opening false
  | .keyed _ _ _ _ _, .rename _, some _ => .opening false
  | g, _, some _ => g

def Command.harmless : Command → Bool
  | .now => true
  | .inspect _ => true
  | .afterPublish _ => true
  | _ => false

/-- A state that can be written with the next generation. -/
def State.Fits (s : State C) : Prop :=
  s.generation < MAX_GENERATION ∧ byteLength (encode s.counted) ≤ MAX_BYTES

/-- What an operation does in each phase. -/
inductive KeyOk : Phase C → Command → Prop
  | opening {fresh c} (hc : c.harmless = true) : KeyOk (.opening fresh) c
  | read {fresh at_} : KeyOk (.timed fresh at_) .readFile
  | loaded {fresh s at_ c} (hc : c.harmless = true) : KeyOk (.loaded fresh s at_) c
  | stamped {fresh s at_ first last c} (hc : c.harmless = true) :
      KeyOk (.stamped fresh s at_ first last) c
  | name {s : State C} {at_ first last} (hpending : s.pending = none)
      (hroom : (s.pruned last).length < MAX_RETIRED) :
      KeyOk (.stamped true s at_ first last) .randomUUID
  | generate {s at_ last id} : KeyOk (.named s at_ last id) .generateKeyPair
  | keyed {s at_ last id key c} (hc : c.harmless = true) (hnow : c ≠ .now) :
      KeyOk (.keyed s at_ last id key) c
  | stage {s : State C} {at_ last id key created} (hcreated : instant? last = some created)
      (hfits : (s.staged last id key created).Fits) :
      KeyOk (.keyed s at_ last id (some key))
        (.rename (encode (s.staged last id key created).counted))
  | arm {fresh at_ first last published after} {s : State C} {p : Pending C}
      (hpending : s.pending = some p) (hunpublished : p.published_at = none)
      (hpublished : published.ms = max last p.created_at.ms)
      (hafter : after.ms = published.ms + CLIENT_KEY_PROPAGATION_MS)
      (hfits : (s.armed p published after).Fits) :
      KeyOk (.stamped fresh s at_ first last) (.rename (encode (s.armed p published after).counted))
  | activate {fresh at_ first last after rotated} {s : State C} {p : Pending C}
      (hpending : s.pending = some p) (hafter : p.activate_after = some after)
      (hdue : after.ms ≤ first) (hrotated : instant? last = some rotated)
      (hfits : (s.activated p rotated).Fits) :
      KeyOk (.stamped fresh s at_ first last) (.rename (encode (s.activated p rotated).counted))

def keyProtocol (C : NodeCrypto) : Protocol Command Command.Reply (Phase C) where
  next := Phase.next
  ok := KeyOk

variable (C) in
/-- A program keeps to the protocol from a phase on. -/
def Keeps (g : Phase C) (p : Job α) : Prop := (keyProtocol C).Obeys (fun _ _ => True) g p

theorem keeps_pure (g : Phase C) (a : α) : Keeps C g (pure a : Job α) := trivial

theorem keeps_await {c : Command} {f : c.Reply → Job α} {g : Phase C} (hok : KeyOk g c)
    (h : ∀ r, Keeps C (g.next c (some r)) (f r)) : Keeps C g (await c >>= f) :=
  Protocol.obeys_await_bind.mpr ⟨hok, trivial, h⟩

theorem keeps_orThrow {o : Option β} {f : β → Job α} {g : Phase C}
    (h : ∀ b, o = some b → Keeps C g (f b)) : Keeps C g (orThrow o >>= f) := by
  cases o with
  | none => trivial
  | some b => exact h b rfl

theorem keeps_read {fresh : Bool} {f : State C → Job α}
    (h : ∀ s at_, Keeps C (.loaded fresh s at_) (f s)) :
    Keeps C (.opening fresh) (read C >>= f) := by
  rw [read, Prog.bind_assoc]
  refine keeps_await (.opening rfl) fun at_ => ?_
  rw [Prog.bind_assoc]
  refine keeps_await .read fun raw => keeps_orThrow fun s hs => ?_
  have hnext : (Phase.timed fresh at_).next .readFile (some raw) = .loaded fresh s at_ := by
    simp only [Phase.next, hs]
  exact hnext ▸ h s at_

/-- Writing a state takes the operation back to its beginning. -/
theorem keeps_save {g : Phase C} {phase : PublishPhase} {s : State C} {f : State C → Job α}
    (hinspect : ∀ what, KeyOk g (.inspect what) ∧ g.next (.inspect what) (some ()) = g)
    (hwrite : s.Fits → KeyOk g (.rename (encode s.counted)))
    (hwritten : g.next (.rename (encode s.counted)) (some ()) = .opening false)
    (h : ∀ s at_, Keeps C (.loaded false s at_) (f s)) : Keeps C g (save phase s >>= f) := by
  unfold save
  by_cases hgeneration : MAX_GENERATION ≤ s.generation
  · rw [if_pos hgeneration]
    trivial
  · rw [if_neg hgeneration, Prog.bind_assoc, publish, Prog.bind_assoc]
    refine keeps_await (hinspect _).1 fun _ => ?_
    rw [(hinspect _).2]
    cases Nat.lt_or_ge MAX_BYTES (byteLength (encode s.counted)) with
    | inl hbytes =>
      rw [if_pos hbytes]
      exact trivial
    | inr hbytes =>
      rw [if_neg (Nat.not_lt.mpr hbytes), Prog.bind_assoc]
      refine keeps_await (hinspect _).1 fun _ => ?_
      rw [(hinspect _).2, Prog.bind_assoc]
      refine keeps_await (hwrite ⟨not_le.mp hgeneration, hbytes⟩) fun _ => ?_
      rw [hwritten]
      refine keeps_await (.opening rfl) fun _ => ?_
      rw [Prog.bind_assoc]
      exact keeps_await (.opening rfl) fun _ => keeps_read h

theorem keeps_stage {s : State C} {at_ : ℤ} {f : State C → Job α} (hpending : s.pending = none)
    (h : ∀ s at_, Keeps C (.loaded false s at_) (f s)) :
    Keeps C (.loaded true s at_) (stage s >>= f) := by
  rw [stage, Prog.bind_assoc]
  refine keeps_await (.loaded rfl) fun now => ?_
  by_cases hroom : MAX_RETIRED ≤ (s.pruned now).length
  · rw [if_pos hroom]
    trivial
  · rw [if_neg hroom, Prog.bind_assoc]
    refine keeps_await (.name hpending (not_le.mp hroom)) fun n => ?_
    rw [Prog.bind_assoc]
    refine keeps_await .generate fun m => ?_
    rw [Prog.bind_assoc]
    refine keeps_orThrow fun key hkey => ?_
    rw [Prog.bind_assoc]
    refine keeps_orThrow fun created hcreated => ?_
    show Keeps C (.keyed s at_ now (C.randomUUID n) (generatedKey C m)) _
    rw [hkey]
    exact keeps_save (fun _ => ⟨.keyed rfl nofun, rfl⟩) (.stage hcreated) rfl h

theorem keeps_arm {fresh : Bool} {s : State C} {at_ : ℤ} {p : Pending C} {f : State C → Job α}
    (hpending : s.pending = some p) (hunpublished : p.published_at = none)
    (h : ∀ s at_, Keeps C (.loaded false s at_) (f s)) :
    Keeps C (.loaded fresh s at_) (arm s p >>= f) := by
  rw [arm, Prog.bind_assoc]
  refine keeps_await (.loaded rfl) fun now => ?_
  rw [Prog.bind_assoc]
  refine keeps_orThrow fun published hpublished => ?_
  rw [Prog.bind_assoc]
  refine keeps_orThrow fun after hafter => ?_
  have hms := instant?_eq_some hpublished
  refine keeps_save (fun _ => ⟨.stamped rfl, rfl⟩) (fun hfits => ?_) rfl h
  exact .arm hpending hunpublished hms ((instant?_eq_some hafter).trans (by rw [hms])) hfits

theorem keeps_activateIfDue {fresh : Bool} {s : State C} {at_ : ℤ} {f : State C → Job α}
    (hrest : ∀ g s, Keeps C g (f s)) :
    Keeps C (.loaded fresh s at_) (activateIfDue s >>= f) := by
  unfold activateIfDue
  cases hpending : s.pending with
  | none => exact hrest _ _
  | some p =>
    cases hafter : p.activate_after with
    | none =>
      simp only [hafter]
      exact hrest _ _
    | some after =>
      simp only [hafter]
      rw [Prog.bind_assoc]
      refine keeps_await (.loaded rfl) fun now => ?_
      by_cases hdue : after.ms ≤ now
      · rw [if_pos hdue, activate, Prog.bind_assoc]
        refine keeps_await (.stamped rfl) fun last => ?_
        rw [Prog.bind_assoc]
        refine keeps_orThrow fun rotated hrotated => ?_
        exact keeps_save (fun _ => ⟨.stamped rfl, rfl⟩)
          (.activate hpending hafter hdue hrotated) rfl fun s _ => hrest _ s
      · rw [if_neg hdue]
        exact hrest _ _

theorem keeps_armIfDue {fresh : Bool} {s : State C} {at_ : ℤ} {f : State C → Job α}
    (h : ∀ fresh s at_, Keeps C (.loaded fresh s at_) (f s)) :
    Keeps C (.loaded fresh s at_) (armIfDue s >>= f) := by
  unfold armIfDue
  cases hpending : s.pending with
  | none => exact h _ _ _
  | some p =>
    simp only
    by_cases hpublished : p.published_at = none
    · rw [if_pos hpublished]
      exact keeps_arm hpending hpublished fun s at_ => h _ s at_
    · rw [if_neg hpublished]
      exact h _ _ _

theorem keeps_stageIfDue {operation : Operation} {s : State C} {at_ : ℤ} {f : State C → Job α}
    (h : ∀ fresh s at_, Keeps C (.loaded fresh s at_) (f s)) :
    Keeps C (.loaded true s at_) (stageIfDue operation s >>= f) := by
  unfold stageIfDue
  cases operation with
  | reconcile => exact h _ _ _
  | schedule =>
    cases hpending : s.pending with
    | none => exact keeps_stage hpending fun s at_ => h _ s at_
    | some p => exact h _ _ _

/-- The whole operation keeps to the protocol. -/
theorem keeps_applyClientKeyOperationLocked (operation : Operation) :
    Keeps C (.opening true) (applyClientKeyOperationLocked C operation) := by
  rw [applyClientKeyOperationLocked]
  refine keeps_await (.opening rfl) fun _ => ?_
  refine keeps_await (.opening rfl) fun _ => ?_
  refine keeps_read fun s at_ => ?_
  refine keeps_await (.loaded rfl) fun _ => ?_
  exact keeps_stageIfDue fun _ _ _ => keeps_armIfDue fun _ _ _ =>
    keeps_activateIfDue fun g s => keeps_pure g (status s)

end DreamSso.ClientKeys
