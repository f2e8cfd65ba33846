import DreamSso.Identifiers
import DreamSso.Library.IsoDates
import DreamSso.Library.JsonText

/-!
The state file of the account server's client key: its keys, how the file is
written and which files are read.
-/
namespace DreamSso.ClientKeys

open IsoDates JsStrings JsonText JsonValues JsonValues.Json

def CLIENT_KEY_PROPAGATION_MS : ℤ := 300000

def CLIENT_KEY_RETENTION_MS : ℤ := 86400000

def MAX_BYTES : ℕ := 262144

def MAX_RETIRED : ℕ := 512

def MAX_GENERATION : ℕ := 9223372036854775807

/-- Forty-three base64url characters. -/
def isKeyText (s : JsString) : Bool :=
  decide (s.length = 43) && s.all fun u => isDigitUnit u || decide (0x41 ≤ u ∧ u ≤ 0x5a) ||
    decide (0x61 ≤ u ∧ u ≤ 0x7a) || decide (u = 0x5f) || decide (u = 0x2d)

def isKid (s : JsString) : Bool :=
  decide (s ≠ []) && decide (s.length ≤ 200) && s.all fun u => decide (0x20 < u ∧ u ≠ 0x7f)

/-- The version 4 pattern. -/
def uuid (s : JsString) : Bool :=
  isUuidText s && decide (s[14]? = some 0x34) &&
    decide (s[19]? ∈ [some 0x38, some 0x39, some 0x61, some 0x62])

structure UuidV4 where
  text : JsString
  shape : uuid text = true
  deriving DecidableEq

structure PublicKey where
  x : JsString
  kid : JsString
  shape : isKeyText x = true ∧ isKid kid = true
  deriving DecidableEq

/-- The cryptography of the runtime. `pairs x d` says that the private key made of
`d` has the public key `x` and that a signature of it verifies. -/
structure NodeCrypto where
  pairs : JsString → JsString → Bool
  generateKeyPair : ℕ → JsString × JsString
  thumbprint : JsString → JsString
  randomUUID : ℕ → UuidV4

structure PrivateKey (C : NodeCrypto) where
  pub : PublicKey
  d : JsString
  valid : isKeyText d = true ∧ C.pairs pub.x d = true
  deriving DecidableEq

structure Pending (C : NodeCrypto) where
  id : UuidV4
  key : PrivateKey C
  created_at : Instant
  published_at : Option Instant
  activate_after : Option Instant
  deriving DecidableEq

structure Retired where
  key : PublicKey
  retired_at : Instant
  deriving DecidableEq

/-- The keys member of a file is determined by the others. -/
structure State (C : NodeCrypto) where
  generation : ℕ
  current : PrivateKey C
  rotated_at : Option Instant
  pending : Option (Pending C)
  retired : List Retired
  deriving DecidableEq

variable {C : NodeCrypto}

def date : Option Json → Option Instant
  | some (.str s) => isoInstant? s
  | _ => none

def publicKey : Option Json → Option PublicKey
  | some (.obj k) =>
      match member? k (js "x"), member? k (js "kid") with
      | some (.str x), some (.str kid) =>
          if h : isKeyText x = true ∧ isKid kid = true then
            if member? k (js "kty") = some (text "OKP") ∧
                member? k (js "crv") = some (text "Ed25519") ∧
                (member? k (js "alg")).all (fun v => decide (v = text "EdDSA")) ∧
                (member? k (js "use")).all (fun v => decide (v = text "sig")) then
              some ⟨x, kid, h⟩
            else none
          else none
      | _, _ => none
  | _ => none

def privateKey (C : NodeCrypto) (value : Option Json) : Option (PrivateKey C) :=
  match publicKey value, value with
  | some pub, some (.obj k) =>
      match member? k (js "d") with
      | some (.str d) =>
          if h : isKeyText d = true ∧ C.pairs pub.x d = true then some ⟨pub, d, h⟩ else none
      | _ => none
  | _, _ => none

/-- The n-th pair that is generated, checked like a stored one. -/
def generatedKey (C : NodeCrypto) (n : ℕ) : Option (PrivateKey C) :=
  let raw := C.generateKeyPair n
  privateKey C (some (ofObject [("crv", text "Ed25519"), ("d", .str raw.2), ("kty", text "OKP"),
    ("x", .str raw.1), ("kid", .str (C.thumbprint raw.1)), ("alg", text "EdDSA"),
    ("use", text "sig")]))

/-- What a retired key that is still published satisfies. -/
def Retired.unexpired (r : Retired) (at_ : ℤ) : Bool :=
  decide (at_ < r.retired_at.ms + CLIENT_KEY_RETENTION_MS)

def projection (s : State C) (at_ : ℤ) : List PublicKey :=
  s.current.pub :: (s.pending.map fun p => p.key.pub).toList ++
    (s.retired.filter fun r => r.unexpired at_).map Retired.key

def PublicKey.members (k : PublicKey) : List (String × Json) :=
  [("kty", text "OKP"), ("crv", text "Ed25519"), ("x", .str k.x), ("kid", .str k.kid),
    ("alg", text "EdDSA"), ("use", text "sig")]

def PublicKey.json (k : PublicKey) : Json := ofObject k.members

def PrivateKey.json (k : PrivateKey C) : Json := ofObject (k.pub.members ++ [("d", .str k.d)])

def dateJson (t : Instant) : Json := .str (toISOString t)

def Pending.json (p : Pending C) : Json :=
  ofObject [("id", .str p.id.text), ("key", p.key.json), ("created_at", dateJson p.created_at),
    ("published_at", ofOption dateJson p.published_at),
    ("activate_after", ofOption dateJson p.activate_after)]

def Retired.json (r : Retired) : Json :=
  ofObject [("key", r.key.json), ("retired_at", dateJson r.retired_at)]

/-- The keys as the file lists them, the current signer first. -/
def State.keys (s : State C) : Json :=
  .arr (s.current.json :: (s.pending.map fun p => p.key.pub.json).toList ++
    s.retired.map fun r => r.key.json)

def State.kids (s : State C) : List JsString :=
  s.current.pub.kid :: (s.pending.map fun p => p.key.pub.kid).toList ++
    s.retired.map fun r => r.key.kid

def State.json (s : State C) : Json :=
  ofObject [("version", int 2), ("generation", .str (decimal s.generation)),
    ("current", s.current.json), ("keys", s.keys), ("rotated_at", ofOption dateJson s.rotated_at),
    ("pending", ofOption Pending.json s.pending), ("retired", .arr (s.retired.map Retired.json))]

def encode (s : State C) : JsString := stringify s.json ++ [0x0a]

/-- A decimal numeral without leading zeros, of at most 64 bits with sign. -/
def generation? : Option Json → Option ℕ
  | some (.str s) =>
      if decimal (digitsValue s) = s ∧ digitsValue s ≤ MAX_GENERATION then some (digitsValue s)
      else none
  | _ => none

/-- A date that may be null; a missing one is invalid. -/
def nullable (f : Option Json → Option α) : Option Json → Option (Option α)
  | some .null => some none
  | v => (f v).map some

def retiredOf : Json → Option Retired
  | .obj item => do
      let key ← publicKey (member? item (js "key"))
      let retired_at ← date (member? item (js "retired_at"))
      pure ⟨key, retired_at⟩
  | _ => none

/-- Either neither stamp is set, or the key was published after it was created and
is activated one propagation time later. -/
def Pending.consistent (p : Pending C) : Bool :=
  match p.published_at, p.activate_after with
  | none, none => true
  | some published, some after =>
      decide (p.created_at.ms ≤ published.ms) &&
        decide (after.ms = published.ms + CLIENT_KEY_PROPAGATION_MS)
  | _, _ => false

def pendingOf (C : NodeCrypto) : Option Json → Option (Pending C)
  | some (.obj p) =>
      match member? p (js "id") with
      | some (.str id) =>
          if h : uuid id = true then do
            let key ← privateKey C (member? p (js "key"))
            let created_at ← date (member? p (js "created_at"))
            let published_at ← nullable date (member? p (js "published_at"))
            let activate_after ← nullable date (member? p (js "activate_after"))
            let pending : Pending C := ⟨⟨id, h⟩, key, created_at, published_at, activate_after⟩
            if pending.consistent then some pending else none
          else none
      | _ => none
  | _ => none

def legacyKeys (value : List (JsString × Json)) : List Json :=
  match member? value (js "keys") with
  | some (.arr keys) => keys
  | _ => [.obj value]

def legacyRotatedAt (value : List (JsString × Json)) : Option (Option Instant) :=
  match member? value (js "rotated_at") with
  | none => some none
  | some v => (date (some v)).map some

/-- A further key of a file without a version counts as retired when it is read. -/
def retiredAt (at_ : ℤ) (k : Json) : Option Retired := do
  let key ← publicKey (some k)
  let retired_at ← instant? at_
  pure ⟨key, retired_at⟩

/-- The state of a file without a version, whose first key is the signer. -/
def decodeLegacy (C : NodeCrypto) (value : List (JsString × Json)) (at_ : ℤ) :
    Option (State C) :=
  let keys := legacyKeys value
  if keys = [] ∨ MAX_RETIRED < keys.length then none
  else do
    let current ← privateKey C keys.head?
    let retired ← keys.tail.mapM (retiredAt at_)
    let rotated_at ← legacyRotatedAt value
    let s : State C := ⟨0, current, rotated_at, none, retired⟩
    if s.kids.Nodup ∧ byteLength (encode s) + 2048 ≤ MAX_BYTES then some s else none

def decodeVersion2 (C : NodeCrypto) (value : List (JsString × Json)) : Option (State C) :=
  match member? value (js "retired"), member? value (js "keys") with
  | some (.arr items), some (.arr keys) =>
      if MAX_RETIRED < items.length then none
      else do
        let generation ← generation? (member? value (js "generation"))
        let current ← privateKey C (member? value (js "current"))
        let retired ← items.mapM retiredOf
        let pending ← nullable (pendingOf C) (member? value (js "pending"))
        let rotated_at ← nullable date (member? value (js "rotated_at"))
        let s : State C := ⟨generation, current, rotated_at, pending, retired⟩
        if stringify (.arr keys) = stringify s.keys ∧ s.kids.Nodup then some s else none
  | _, _ => none

/-- The state a file stands for when it is read at a moment. -/
def decode (C : NodeCrypto) (raw : JsString) (at_ : ℤ) : Option (State C) :=
  match parse raw with
  | some (.obj value) =>
      match member? value (js "version") with
      | none => decodeLegacy C value at_
      | some version => if version = int 2 then decodeVersion2 C value else none
  | _ => none

theorem publicKey_members (k : PublicKey) (more : List (String × Json)) :
    publicKey (some (ofObject (k.members ++ more))) = some k := by
  rw [ofObject, publicKey]
  simp only [member?_js]
  simp [PublicKey.members, List.lookup_cons, k.shape]

theorem publicKey_json (k : PublicKey) : publicKey (some k.json) = some k := by
  have h := publicKey_members k []
  rwa [List.append_nil] at h

theorem privateKey_json (k : PrivateKey C) : privateKey C (some k.json) = some k := by
  have hpub : publicKey (some k.json) = some k.pub := publicKey_members k.pub _
  have hjson : k.json = .obj ((k.pub.members ++ [("d", Json.str k.d)]).map fun m => (js m.1, m.2)) := rfl
  rw [hjson] at hpub ⊢
  simp only [privateKey, hpub, member?_js]
  simp [PublicKey.members, List.lookup_cons, k.valid]

theorem date_json (t : Instant) : date (some (dateJson t)) = some t := isoInstant?_toISOString t

theorem dateJson_ne_null (t : Instant) : dateJson t ≠ .null := by
  rw [dateJson]
  exact fun h => Json.noConfusion h

theorem nullable_json {f : Option Json → Option α} {g : α → Json}
    (h : ∀ a, f (some (g a)) = some a) (hnull : ∀ a, g a ≠ .null) (o : Option α) :
    nullable f (some (ofOption g o)) = some o := by
  cases o with
  | none => rfl
  | some a =>
    rw [ofOption, nullable, h, Option.map_some]
    intro heq
    exact hnull a (Option.some.inj heq)

theorem retiredOf_json (r : Retired) : retiredOf r.json = some r := by
  rw [Retired.json, ofObject, retiredOf.eq_def]
  simp only [member?_js]
  simp [List.lookup_cons, date_json, publicKey_json]

theorem mapM_retired (l : List Retired) : l.mapM (retiredOf ∘ Retired.json) = some l := by
  induction l with
  | nil => rfl
  | cons r rest ih =>
    rw [List.mapM_cons, Function.comp_apply, retiredOf_json, ih]
    rfl

theorem pendingOf_json (p : Pending C) (h : p.consistent = true) : pendingOf C (some p.json) = some p := by
  obtain ⟨⟨id, hid⟩, key, created_at, published_at, activate_after⟩ := p
  have hdates : ∀ o, nullable date (some (ofOption dateJson o)) = some o := nullable_json date_json dateJson_ne_null
  rw [Pending.json, ofObject, pendingOf]
  simp only [member?_js]
  simp [List.lookup_cons, date_json, privateKey_json, hdates, hid, h]

/-- The counter of a state is written so that it reads back. -/
theorem generation?_decimal {n : ℕ} (h : n ≤ MAX_GENERATION) :
    generation? (some (.str (decimal n))) = some n := by
  rw [generation?, digitsValue_decimal, if_pos ⟨rfl, h⟩]

/-- What every state that was read or is written satisfies. -/
structure State.Sound (s : State C) : Prop where
  generation : s.generation ≤ MAX_GENERATION
  pending : ∀ p ∈ s.pending, p.consistent = true
  retired : s.retired.length ≤ MAX_RETIRED
  kids : s.kids.Nodup

theorem decodeVersion2_json {s : State C} (h : s.Sound) :
    decodeVersion2 C ([("version", int 2), ("generation", .str (decimal s.generation)),
      ("current", s.current.json), ("keys", s.keys), ("rotated_at", ofOption dateJson s.rotated_at),
      ("pending", ofOption Pending.json s.pending),
      ("retired", .arr (s.retired.map Retired.json))].map fun m => (js m.1, m.2)) = some s := by
  have hdate : nullable date (some (ofOption dateJson s.rotated_at)) = some s.rotated_at :=
    nullable_json date_json dateJson_ne_null _
  have hpending : nullable (pendingOf C) (some (ofOption Pending.json s.pending)) = some s.pending := by
    cases hp : s.pending with
    | none => rfl
    | some p =>
      rw [ofOption, nullable, pendingOf_json p (h.pending p hp), Option.map_some]
      exact fun heq => Json.noConfusion (Option.some.inj heq)
  have hkeys : ∃ ks, s.keys = .arr ks := ⟨_, rfl⟩
  obtain ⟨ks, hks⟩ := hkeys
  rw [decodeVersion2]
  simp only [member?_js]
  simp [List.lookup_cons, hks, hdate, hpending, mapM_retired, generation?_decimal h.generation,
    privateKey_json, h.kids, h.retired]

theorem PublicKey.readsBack_json (k : PublicKey) : readsBack k.json = true :=
  readsBack_ofObject (by simp [PublicKey.members]) (by simp [PublicKey.members, text, readsBack])

theorem PrivateKey.readsBack_json (k : PrivateKey C) : readsBack k.json = true :=
  readsBack_ofObject (by simp [PublicKey.members]) (by simp [PublicKey.members, text, readsBack])

theorem readsBack_dateJson (t : Instant) : readsBack (dateJson t) = true := rfl

theorem Retired.readsBack_json (r : Retired) : readsBack r.json = true :=
  readsBack_ofObject (by simp) (by simp [r.key.readsBack_json, readsBack_dateJson])

theorem Pending.readsBack_json (p : Pending C) : readsBack p.json = true :=
  readsBack_ofObject (by simp) (by
    simp [readsBack_ofOption readsBack_dateJson, p.key.readsBack_json, readsBack_dateJson]
    rfl)

theorem State.readsBack_keys (s : State C) : readsBack s.keys = true := by
  refine readsBack_arr fun v hv => ?_
  rcases List.mem_append.mp hv with hv | hv
  · rcases List.mem_cons.mp hv with rfl | hv
    · exact s.current.readsBack_json
    · obtain ⟨p, -, rfl⟩ := Option.map_eq_some_iff.mp (Option.mem_toList.mp hv)
      exact p.key.pub.readsBack_json
  · obtain ⟨r, -, rfl⟩ := List.mem_map.mp hv
    exact r.key.readsBack_json

theorem State.readsBack_json (s : State C) : readsBack s.json = true := by
  have hretired : readsBack (.arr (s.retired.map Retired.json)) = true := by
    refine readsBack_arr fun v hv => ?_
    obtain ⟨r, -, rfl⟩ := List.mem_map.mp hv
    exact r.readsBack_json
  have hversion : readsBack (int 2) = true := by decide +kernel
  refine readsBack_ofObject (by simp) ?_
  simp [readsBack_ofOption readsBack_dateJson, readsBack_ofOption Pending.readsBack_json, hversion, hretired, s.readsBack_keys, s.current.readsBack_json]
  rfl

/-- A written state is read back, whenever it is read. -/
theorem decode_encode {s : State C} (h : s.Sound) (at_ : ℤ) : decode C (encode s) at_ = some s := by
  have hparse : parse (encode s) = some s.json := parse_stringify s.readsBack_json (by decide)
  rw [decode, hparse, State.json, ofObject]
  simp only [member?_js]
  simpa using decodeVersion2_json h

theorem retiredAt_key {at_ : ℤ} {k : Json} {r : Retired} (h : retiredAt at_ k = some r) :
    publicKey (some k) = some r.key := by
  simp only [retiredAt, Option.bind_eq_bind, Option.bind_eq_some_iff, Option.pure_def,
    Option.some.injEq] at h
  obtain ⟨key, hkey, _, -, rfl⟩ := h
  exact hkey

theorem mapM_retiredAt {at_ : ℤ} {keys : List Json} {rs : List Retired}
    (h : keys.mapM (retiredAt at_) = some rs) :
    keys.mapM (fun k => publicKey (some k)) = some (rs.map Retired.key) := by
  induction keys generalizing rs with
  | nil =>
    rw [List.mapM_nil] at h
    cases h
    rfl
  | cons k keys ih =>
    simp only [List.mapM_cons, Option.bind_eq_bind, Option.bind_eq_some_iff, Option.pure_def,
      Option.some.injEq] at h
    obtain ⟨r, hr, rest, hrest, rfl⟩ := h
    rw [List.mapM_cons, retiredAt_key hr, ih hrest]
    rfl

/-- What a file without a version was read as. -/
theorem decodeLegacy_eq_some {value : List (JsString × Json)} {at_ : ℤ} {s : State C}
    (h : decodeLegacy C value at_ = some s) :
    s.generation = 0 ∧ s.pending = none ∧
      privateKey C (legacyKeys value).head? = some s.current ∧
      (legacyKeys value).tail.mapM (retiredAt at_) = some s.retired ∧
      (legacyKeys value).length ≤ MAX_RETIRED ∧ s.kids.Nodup := by
  simp only [decodeLegacy, Option.bind_eq_bind, Option.ite_none_left_eq_some,
    Option.bind_eq_some_iff, Option.ite_none_right_eq_some, Option.some.injEq] at h
  obtain ⟨hkeys, current, hcurrent, retired, hretired, rotated_at, -, ⟨hkids, -⟩, rfl⟩ := h
  exact ⟨rfl, rfl, hcurrent, hretired, not_lt.mp fun hlong => hkeys (.inr hlong), hkids⟩

theorem nullable_some {f : Option Json → Option α} {v : Option Json} {a : α}
    (h : nullable f v = some (some a)) : f v = some a := by
  unfold nullable at h
  split at h
  · cases h
  · obtain ⟨b, hb, hsome⟩ := Option.map_eq_some_iff.mp h
    rwa [← Option.some.inj hsome]

theorem pendingOf_consistent {v : Option Json} {p : Pending C} (h : pendingOf C v = some p) :
    p.consistent = true := by
  unfold pendingOf at h
  split at h
  · split at h
    · simp only [Option.bind_eq_bind, Option.dite_none_right_eq_some, Option.bind_eq_some_iff,
        Option.ite_none_right_eq_some, Option.some.injEq] at h
      obtain ⟨_, _, -, _, -, _, -, _, -, hconsistent, rfl⟩ := h
      exact hconsistent
    · cases h
  · cases h

theorem generation?_le {v : Option Json} {n : ℕ} (h : generation? v = some n) :
    n ≤ MAX_GENERATION := by
  unfold generation? at h
  split at h
  · simp only [Option.ite_none_right_eq_some, Option.some.injEq] at h
    obtain ⟨⟨-, hle⟩, rfl⟩ := h
    exact hle
  · cases h

theorem mapM_length {f : α → Option β} {l : List α} {r : List β} (h : l.mapM f = some r) :
    r.length = l.length := by
  induction l generalizing r with
  | nil =>
    rw [List.mapM_nil] at h
    cases h
    rfl
  | cons a l ih =>
    simp only [List.mapM_cons, Option.bind_eq_bind, Option.bind_eq_some_iff, Option.pure_def,
      Option.some.injEq] at h
    obtain ⟨b, -, rest, hrest, rfl⟩ := h
    exact congrArg (· + 1) (ih hrest)

theorem decodeVersion2_sound {value : List (JsString × Json)} {s : State C}
    (h : decodeVersion2 C value = some s) : s.Sound := by
  unfold decodeVersion2 at h
  split at h
  · simp only [Option.bind_eq_bind, Option.ite_none_left_eq_some, Option.bind_eq_some_iff,
      Option.ite_none_right_eq_some, Option.some.injEq] at h
    obtain ⟨hroom, generation, hgeneration, current, -, retired, hretired, pending, hpending,
      rotated_at, -, ⟨-, hkids⟩, rfl⟩ := h
    refine ⟨generation?_le hgeneration, ?_, ?_, hkids⟩
    · rintro p rfl
      exact pendingOf_consistent (nullable_some hpending)
    · rw [mapM_length hretired]
      exact not_lt.mp hroom
  · cases h

theorem decodeLegacy_sound {value : List (JsString × Json)} {at_ : ℤ} {s : State C}
    (h : decodeLegacy C value at_ = some s) : s.Sound := by
  obtain ⟨hgeneration, hpending, -, hretired, hlength, hkids⟩ := decodeLegacy_eq_some h
  refine ⟨hgeneration ▸ Nat.zero_le _, ?_, ?_, hkids⟩
  · intro p hp
    rw [hpending] at hp
    exact absurd hp (Option.not_mem_none p)
  · rw [mapM_length hretired, List.length_tail]
    omega

/-- A file that is accepted holds a sound state. -/
theorem decode_sound {raw : JsString} {at_ : ℤ} {s : State C} (h : decode C raw at_ = some s) :
    s.Sound := by
  unfold decode at h
  split at h
  · split at h
    · exact decodeLegacy_sound h
    · rw [Option.ite_none_right_eq_some] at h
      exact decodeVersion2_sound h.2
  · cases h

/-- Two readings that differ at most in when the retired keys of a file without a
version count as retired. -/
structure State.SameKeys (s s' : State C) : Prop where
  generation : s'.generation = s.generation
  current : s'.current = s.current
  pending : s'.pending = s.pending
  retired : s'.retired.map Retired.key = s.retired.map Retired.key

theorem State.SameKeys.kids {s s' : State C} (h : s.SameKeys s') : s'.kids = s.kids := by
  have hretired := congrArg (List.map PublicKey.kid) h.retired
  rw [List.map_map, List.map_map] at hretired
  rw [State.kids, State.kids, h.current, h.pending]
  exact congrArg _ hretired

/-- The time of reading does not show in the keys. -/
theorem decode_sameKeys {raw : JsString} {at_ at' : ℤ} {s s' : State C}
    (h : decode C raw at_ = some s) (h' : decode C raw at' = some s') : s.SameKeys s' := by
  unfold decode at h h'
  split at h
  · next value hparse =>
    simp only [hparse] at h'
    split at h
    · next hversion =>
      simp only [hversion] at h'
      obtain ⟨hgeneration, hpending, hcurrent, hretired, -⟩ := decodeLegacy_eq_some h
      obtain ⟨hgeneration', hpending', hcurrent', hretired', -⟩ := decodeLegacy_eq_some h'
      refine ⟨hgeneration'.trans hgeneration.symm, ?_, hpending'.trans hpending.symm, ?_⟩
      · exact Option.some.inj (hcurrent'.symm.trans hcurrent)
      · exact Option.some.inj ((mapM_retiredAt hretired').symm.trans (mapM_retiredAt hretired))
    · next version hversion =>
      simp only [hversion] at h'
      rw [h] at h'
      cases h'
      exact ⟨rfl, rfl, rfl, rfl⟩
  · cases h

theorem publicKey_obj {k : List (JsString × Json)} {pub : PublicKey}
    (h : publicKey (some (.obj k)) = some pub) :
    member? k (js "x") = some (.str pub.x) ∧ member? k (js "kid") = some (.str pub.kid) := by
  unfold publicKey at h
  simp only at h
  split at h
  · next x kid hx hkid =>
    simp only [Option.dite_none_right_eq_some, Option.ite_none_right_eq_some,
      Option.some.injEq] at h
    obtain ⟨_, -, rfl⟩ := h
    exact ⟨hx, hkid⟩
  · cases h

theorem privateKey_pub {v : Option Json} {k : PrivateKey C} (h : privateKey C v = some k) :
    publicKey v = some k.pub := by
  unfold privateKey at h
  split at h
  · next pub members hpub =>
    split at h
    · simp only [Option.dite_none_right_eq_some, Option.some.injEq] at h
      obtain ⟨_, rfl⟩ := h
      exact hpub
    · cases h
  · cases h

/-- A generated key is named after its public part. -/
theorem generatedKey_kid {n : ℕ} {k : PrivateKey C} (h : generatedKey C n = some k) :
    k.pub.kid = C.thumbprint (C.generateKeyPair n).1 := by
  obtain ⟨-, hkid⟩ := publicKey_obj (privateKey_pub h)
  rw [member?_js] at hkid
  simp only [List.lookup_cons, String.reduceBEq, Option.some.injEq, Json.str.injEq] at hkid
  exact hkid.symm
end DreamSso.ClientKeys
