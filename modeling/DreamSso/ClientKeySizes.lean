import DreamSso.ClientKeySafety

/-!
How many bytes a state of the client key takes in its file.
-/
namespace DreamSso.ClientKeys

open Interleaving IsoDates JsStrings JsonValues JsonValues.Json Transitions

theorem isKeyText_plain {x : JsString} (h : isKeyText x = true) :
    x.length = 43 ∧ ∀ u ∈ x, Plain u := by
  simp only [isKeyText, Bool.and_eq_true, decide_eq_true_eq, List.all_eq_true, isDigitUnit,
    Bool.or_eq_true] at h
  refine ⟨h.1, fun u hu => ?_⟩
  have hunit := h.2 u hu
  unfold Plain
  omega

section Bytes

variable {C : NodeCrypto} {s : State C} {p : Pending C}

theorem date_bytes (t : Instant) :
    byteLength (stringify (dateJson t)) = (toISOString t).length + 2 :=
  stringify_str_bytes fun _ => toISOString_plain

theorem public_bytes {k : PublicKey} (hkid : ∀ u ∈ k.kid, Plain u) :
    byteLength (stringify k.json) = k.kid.length + 114 := by
  have hx := isKeyText_plain k.shape.1
  have htexts : byteLength (quote (js "kty")) = 5 ∧ byteLength (quote (js "crv")) = 5 ∧
      byteLength (quote (js "x")) = 3 ∧ byteLength (quote (js "kid")) = 5 ∧
      byteLength (quote (js "alg")) = 5 ∧ byteLength (quote (js "use")) = 5 ∧
      byteLength (stringify (text "OKP")) = 5 ∧ byteLength (stringify (text "Ed25519")) = 9 ∧
      byteLength (stringify (text "EdDSA")) = 7 ∧ byteLength (stringify (text "sig")) = 5 := by
    decide +kernel
  rw [PublicKey.json, PublicKey.members, ofObject, stringify_obj_bytes]
  simp only [List.map_cons, List.map_nil, List.sum_cons, List.sum_nil, List.length_cons,
    List.length_nil, memberBytes, htexts, stringify_str_bytes hx.2, hx.1, stringify_str_bytes hkid]
  omega

theorem private_bytes (k : PrivateKey C) :
    byteLength (stringify k.json) = byteLength (stringify k.pub.json) + 50 := by
  have hd : byteLength (stringify (.str k.d)) = 45 := by
    rw [stringify_str_bytes (isKeyText_plain k.valid.1).2, (isKeyText_plain k.valid.1).1]
  have hname : byteLength (quote (js "d")) = 3 := by decide
  rw [PrivateKey.json, PublicKey.json, ofObject_append_bytes (by simp [PublicKey.members])]
  simp only [List.map_cons, List.map_nil, List.sum_cons, List.sum_nil, List.length_cons,
    List.length_nil, memberBytes, hd, hname]
  omega

theorem retired_bytes (r : Retired) : byteLength (stringify r.json) =
    byteLength (stringify r.key.json) + (toISOString r.retired_at).length + 24 := by
  have hkey : byteLength (quote (js "key")) = 5 := by decide
  have hat : byteLength (quote (js "retired_at")) = 12 := by decide
  rw [Retired.json, ofObject, stringify_obj_bytes]
  simp only [List.map_cons, List.map_nil, List.sum_cons, List.sum_nil, List.length_cons,
    List.length_nil, memberBytes, hkey, hat, date_bytes]
  omega

theorem uuid_bytes (id : UuidV4) : byteLength (stringify (.str id.text)) = 38 := by
  obtain ⟨hlength, hunits⟩ : id.text.length = 36 ∧ ∀ u ∈ id.text, Plain u := by
    have hshape : isUuidText id.text = true :=
      (Bool.and_eq_true_iff.mp (Bool.and_eq_true_iff.mp id.shape).1).1
    rw [isUuidText, Bool.and_eq_true, decide_eq_true_eq, List.all_eq_true] at hshape
    refine ⟨hshape.1, fun u hu => ?_⟩
    obtain ⟨i, hi⟩ := List.mem_iff_getElem?.mp hu
    have hunit := hshape.2 (u, i) (List.mk_mem_zipIdx_iff_getElem?.mpr hi)
    simp only at hunit
    split_ifs at hunit
    · rw [of_decide_eq_true hunit]
      exact ⟨by decide, by decide, by decide, by decide⟩
    · simp only [isHexUnit, Bool.or_eq_true, Bool.and_eq_true, decide_eq_true_eq, isDigitUnit]
        at hunit
      unfold Plain
      omega
  rw [stringify_str_bytes hunits, hlength]

theorem pending_bytes (p : Pending C) :
    byteLength (stringify p.json) = byteLength (stringify p.key.json) +
      byteLength (stringify (ofOption dateJson p.published_at)) +
      byteLength (stringify (ofOption dateJson p.activate_after)) +
      (toISOString p.created_at).length + 102 := by
  have hid : byteLength (quote (js "id")) = 4 := by decide
  have hkey : byteLength (quote (js "key")) = 5 := by decide
  have hcreated : byteLength (quote (js "created_at")) = 12 := by decide
  have hpublished : byteLength (quote (js "published_at")) = 14 := by decide
  have hafter : byteLength (quote (js "activate_after")) = 16 := by decide
  rw [Pending.json, ofObject, stringify_obj_bytes]
  simp only [List.map_cons, List.map_nil, List.sum_cons, List.sum_nil, List.length_cons,
    List.length_nil, memberBytes, hid, hkey, hcreated, hpublished, hafter, date_bytes, uuid_bytes]
  omega

/-- The pending key stands in the file as such and among the keys. -/
def pendingBytes (pending : Option (Pending C)) : ℕ :=
  byteLength (stringify (ofOption Pending.json pending)) +
    (pending.elim 0 fun p => byteLength (stringify p.key.pub.json) + 1)

/-- So do the retired ones. -/
def retiredBytes (retired : List Retired) : ℕ :=
  (retired.map fun r => byteLength (stringify r.key.json) + byteLength (stringify r.json)).sum

theorem keys_bytes (s : State C) : byteLength (stringify s.keys) =
    byteLength (stringify s.current.json) +
      (s.pending.elim 0 fun p => byteLength (stringify p.key.pub.json) + 1) +
      (s.retired.map fun r => byteLength (stringify r.key.json)).sum + s.retired.length + 2 := by
  rw [State.keys, stringify_arr_bytes]
  cases s.pending with
  | none =>
    simp only [Option.map_none, Option.toList_none, List.cons_append, List.nil_append,
      List.map_cons, List.map_map, Function.comp_def, List.sum_cons, List.length_cons,
      List.length_map, Option.elim_none]
    omega
  | some p =>
    simp only [Option.map_some, Option.toList_some, List.cons_append, List.nil_append,
      List.map_cons, List.map_map, Function.comp_def, List.sum_cons, List.length_cons,
      List.length_map, Option.elim_some]
    omega

theorem retiredBytes_eq (retired : List Retired) : retiredBytes retired =
    (retired.map fun r => byteLength (stringify r.key.json)).sum +
      (retired.map fun r => byteLength (stringify r.json)).sum := by
  induction retired with
  | nil => rfl
  | cons r rest ih =>
    rw [retiredBytes] at ih ⊢
    simp only [List.map_cons, List.sum_cons, ih]
    omega

theorem retiredBytes_of_forall {retired : List Retired} {n : ℕ}
    (hr : ∀ r ∈ retired, byteLength (stringify r.key.json) + byteLength (stringify r.json) = n) :
    retiredBytes retired = retired.length * n := by
  rw [retiredBytes, List.map_congr_left hr, List.map_const', List.sum_replicate_nat]

theorem encode_bytes (s : State C) : byteLength (encode s) =
    89 + (decimal s.generation).length + 2 * byteLength (stringify s.current.json) +
      byteLength (stringify (ofOption dateJson s.rotated_at)) + pendingBytes s.pending +
      retiredBytes s.retired + s.retired.length + (s.retired.length - 1) := by
  have hversion : byteLength (quote (js "version")) = 9 := by decide
  have hgeneration : byteLength (quote (js "generation")) = 12 := by decide
  have hcurrent : byteLength (quote (js "current")) = 9 := by decide
  have hkeys : byteLength (quote (js "keys")) = 6 := by decide
  have hrotated : byteLength (quote (js "rotated_at")) = 12 := by decide
  have hpending : byteLength (quote (js "pending")) = 9 := by decide
  have hretired : byteLength (quote (js "retired")) = 9 := by decide
  have htwo : byteLength (stringify (int 2)) = 1 := by decide
  have hcounter := stringify_str_bytes (x := decimal s.generation) fun _ => decimal_plain
  have hline : byteLength [0x0a] = 1 := by decide
  rw [encode, byteLength_append _ _ (startsClean_cons _ _ rfl), State.json, ofObject,
    stringify_obj_bytes, retiredBytes_eq, pendingBytes]
  simp only [List.map_cons, List.map_nil, List.sum_cons, List.sum_nil, List.length_cons,
    List.length_nil, memberBytes, hversion, hgeneration, hcurrent, hkeys, hrotated, hpending,
    hretired, htwo, hcounter, hline, keys_bytes, stringify_arr_bytes, List.map_map,
    Function.comp_def, List.length_map]
  omega

/-- A date in the place of null. -/
theorem optional_date_bytes (t : Instant) :
    byteLength (stringify (ofOption dateJson (some t))) = (toISOString t).length + 2 :=
  date_bytes t

theorem null_bytes : byteLength (stringify .null) = 4 := by decide

/-- What the arm write adds: two dates in the place of nulls, and the counter's new digits. -/
theorem armed_bytes (published after : Instant) (hp : s.pending = some p)
    (hpublished : p.published_at = none) (hafter : p.activate_after = none) :
    byteLength (encode (s.armed p published after).counted) + (decimal s.generation).length + 4 =
      byteLength (encode s) + (decimal (s.generation + 1)).length +
        (toISOString published).length + (toISOString after).length := by
  have hbefore : pendingBytes (some p) = byteLength (stringify p.key.json) + 4 + 4 +
      (toISOString p.created_at).length + 102 + (byteLength (stringify p.key.pub.json) + 1) := by
    rw [pendingBytes, ofOption, pending_bytes, hpublished, hafter]
    rfl
  have hbehind : pendingBytes (s.armed p published after).counted.pending =
      byteLength (stringify p.key.json) + ((toISOString published).length + 2) +
        ((toISOString after).length + 2) + (toISOString p.created_at).length + 102 +
        (byteLength (stringify p.key.pub.json) + 1) := by
    simp only [State.counted, State.armed]
    rw [pendingBytes, ofOption, pending_bytes, optional_date_bytes, optional_date_bytes]
    rfl
  rw [encode_bytes, encode_bytes, hp, hbefore, hbehind]
  simp only [State.armed, State.counted]
  omega

theorem retiredBytes_append (first second : List Retired) :
    retiredBytes (first ++ second) = retiredBytes first + retiredBytes second := by
  rw [retiredBytes, List.map_append, List.sum_append]
  rfl

theorem pruned_bytes (s : State C) (at_ : ℤ) :
    retiredBytes (s.pruned at_) ≤ retiredBytes s.retired := by
  rw [State.pruned]
  induction s.retired with
  | nil => exact le_rfl
  | cons r rest ih =>
    have hcons : ∀ retired, retiredBytes (r :: retired) =
        retiredBytes [r] + retiredBytes retired := retiredBytes_append [r]
    cases hkept : r.unexpired at_ with
    | false =>
      rw [List.filter_cons_of_neg (by simp [hkept]), hcons]
      omega
    | true =>
      rw [List.filter_cons_of_pos (by simp [hkept]), hcons (rest.filter _), hcons rest]
      omega

/-- The activate write never takes more bytes than the state it replaces: the new signer stands
there twice as well, and the pending entry goes. -/
theorem activated_bytes {published after rotated : Instant} (hp : s.pending = some p)
    (hpublished : p.published_at = some published) (hafter : p.activate_after = some after) :
    byteLength (encode (s.activated p rotated).counted) ≤ byteLength (encode s) := by
  have hbefore : pendingBytes s.pending = byteLength (stringify p.key.json) +
      ((toISOString published).length + 2) + ((toISOString after).length + 2) +
      (toISOString p.created_at).length + 102 + (byteLength (stringify p.key.pub.json) + 1) := by
    rw [hp, pendingBytes, ofOption, pending_bytes, hpublished, hafter, optional_date_bytes,
      optional_date_bytes]
    rfl
  have hbehind : pendingBytes (none : Option (Pending C)) = 4 := null_bytes
  have hreplaced : retiredBytes [⟨s.current.pub, rotated⟩] =
      2 * byteLength (stringify s.current.pub.json) + (toISOString rotated).length + 24 := by
    rw [retiredBytes, List.map_singleton, List.sum_singleton, retired_bytes]
    dsimp only
    omega
  have hdate : 4 ≤ byteLength (stringify (ofOption dateJson s.rotated_at)) := by
    cases s.rotated_at with
    | none => exact le_rfl
    | some t =>
      rw [optional_date_bytes]
      have := toISOString_length t
      omega
  have hkept : (s.pruned rotated.ms).length ≤ s.retired.length := List.length_filter_le _ _
  have hpruned := pruned_bytes s rotated.ms
  have hcounter := decimal_length_succ s.generation
  have hlengths := And.intro (toISOString_length published) (And.intro (toISOString_length after)
    (And.intro (toISOString_length p.created_at) (toISOString_length rotated)))
  rw [encode_bytes, encode_bytes, hbefore]
  simp only [State.activated, State.counted, hbehind, retiredBytes_append, hreplaced,
    optional_date_bytes, private_bytes, List.length_append, List.length_singleton]
  omega

end Bytes

end DreamSso.ClientKeys
