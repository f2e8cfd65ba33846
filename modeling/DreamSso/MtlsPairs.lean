import DreamSso.MtlsIdentity

/-!
When the outbound certificate and key are a pair. The installation that promotes a key
stores its certificate in a later step; between the two, or for good after a crash there,
the stored pair is torn.
-/
namespace DreamSso.Mtls

open Interleaving JsStrings TextSearch Transitions
open SettingsCache (storedValue)

section Blocks

/-- A block ends at its first end mark, whatever stands behind it. -/
def IsBlock (b : JsString) : Prop :=
  ∃ body, b = BEGIN_MARK ++ body ++ END_MARK ∧
    ∀ behind, cut END_MARK (body ++ END_MARK ++ behind) = some (body, behind)

theorem isBlock_of_mem {fuel : ℕ} {s b : JsString} (h : b ∈ pemBlocksFrom fuel s) : IsBlock b := by
  induction fuel generalizing s with
  | zero => cases h
  | succ fuel ih =>
    unfold pemBlocksFrom at h
    split at h
    · cases h
    · split at h
      · cases h
      · rename_i body behind hcut
        rcases List.mem_cons.mp h with rfl | hrest
        · exact ⟨body, rfl, cut_same (by decide) hcut⟩
        · exact ih hrest

theorem head_pemBlocks {b : JsString} (h : IsBlock b) (behind : JsString) :
    (pemBlocks (b ++ behind)).head? = some b := by
  obtain ⟨body, rfl, hcut⟩ := h
  have hbegin : cut BEGIN_MARK (BEGIN_MARK ++ body ++ END_MARK ++ behind) =
      some ([], body ++ END_MARK ++ behind) := by
    rw [List.append_assoc, List.append_assoc, ← List.append_assoc body]
    exact cut_mark (by decide) _
  have hlength : (BEGIN_MARK ++ body ++ END_MARK ++ behind).length =
      (body ++ END_MARK ++ behind).length + 26 + 1 := by
    have hmark : BEGIN_MARK.length = 27 := by decide
    simp only [List.length_append, hmark]
    omega
  rw [pemBlocks, hlength, pemBlocksFrom, hbegin]
  dsimp only
  rw [hcut behind]
  rfl

theorem joinLines_cons (line : JsString) (rest : List JsString) :
    ∃ behind, joinLines (line :: rest) = line ++ behind := by
  cases rest with
  | nil => exact ⟨[], (List.append_nil line).symm⟩
  | cons next rest => exact ⟨_, rfl⟩

theorem mapM_getElem {α β : Type} {f : α → Option β} {l : List α} {r : List β}
    (h : l.mapM f = some r) {n : ℕ} {a : α} {b : β} (ha : l[n]? = some a) (hb : r[n]? = some b) :
    f a = some b := by
  induction l generalizing r n with
  | nil => cases ha
  | cons x rest ih =>
    rw [List.mapM_cons, Option.bind_eq_bind, Option.bind_eq_some_iff] at h
    obtain ⟨y, hy, h⟩ := h
    rw [Option.bind_eq_bind, Option.bind_eq_some_iff] at h
    obtain ⟨ys, hys, h⟩ := h
    obtain rfl := Option.some.inj h
    cases n with
    | zero =>
      obtain rfl := Option.some.inj ha
      obtain rfl := Option.some.inj hb
      exact hy
    | succ n => exact ih hys ha hb

/-- A chain that passed is led by the leaf of the key. -/
theorem leaf_of_valid {crypto : Crypto} {now : ℤ} {certPem keyPem chain : JsString}
    (h : validateCertAgainstKey crypto now certPem keyPem = .ok chain) :
    LeafMatches crypto chain keyPem := by
  unfold validateCertAgainstKey at h
  dsimp only at h
  split at h
  · cases h
  · cases hparsed : (pemBlocks certPem).mapM crypto.certificate with
    | none => simp [hparsed] at h
    | some parsed =>
      cases hkey : crypto.publicKey keyPem with
      | none => simp [hparsed, hkey] at h
      | some keySpki =>
        simp only [hparsed, hkey] at h
        split at h
        · rename_i c leaf hc hleaf
          split at h
          · cases h
          · cases h
            have hspki : c.spki = some keySpki := by
              obtain ⟨hlt, hget⟩ := List.getElem?_eq_some_iff.mp hc
              have := List.findIdx_getElem (w := hlt)
              rw [hget] at this
              exact of_decide_eq_true this
            obtain ⟨behind, hjoin⟩ := joinLines_cons leaf ((pemBlocks certPem).eraseIdx _)
            refine ⟨leaf, c, ?_, mapM_getElem hparsed hleaf hc, by simp [hspki],
              by rw [hspki, hkey]⟩
            rw [hjoin]
            exact head_pemBlocks (isBlock_of_mem (List.mem_of_getElem? hleaf)) behind
        · cases h

end Blocks

section Programs

variable {crypto : Crypto}

/-- A reader that returns a pair has read it. -/
def Finished (g : Phase) (a : Option Answer) : Prop :=
  ∀ cert key, a = some (.identity cert key) → g = .pairRead (some cert) (some key)

theorem finished_of_ne {g : Phase} {a : Option Answer} (h : ∀ cert key, a ≠ some (.identity cert key)) :
    Finished g a := fun cert key ha => (h cert key ha).elim

/-- One step of a call: allowed, and what follows its reply. -/
theorem obeys_ask {α : Type} {g : Phase} {c : MtlsCommand} {post : Phase → Option α → Prop}
    {f : c.Reply → MtlsProg α} (hallowed : g.Allows crypto c) (hthrown : post (g.next c none) none)
    (hnext : ∀ r, (mtlsProtocol crypto).Obeys post (g.next c (some r)) (f r)) :
    (mtlsProtocol crypto).Obeys post g (ask c >>= f) :=
  Protocol.obeys_await_bind.mpr ⟨hallowed, hthrown, hnext⟩

theorem obeys_orThrow {α β : Type} {g : Phase} {post : Phase → Option β → Prop} {o : Option α}
    {f : α → MtlsProg β} (hthrown : post g none)
    (hnext : ∀ a, (mtlsProtocol crypto).Obeys post g (f a)) :
    (mtlsProtocol crypto).Obeys post g (orThrow o >>= f) := by
  cases o with
  | none => exact hthrown
  | some a => exact hnext a

theorem startSetup_obeys (cnInput : Option JsString) (randomCn privateKeyPem : JsString) :
    (mtlsProtocol crypto).Obeys Finished .setup
      (startSetup crypto cnInput randomCn privateKeyPem) := by
  refine obeys_ask (.inl rfl) (finished_of_ne (by simp)) fun _ => ?_
  refine obeys_ask (.inr rfl) (finished_of_ne (by simp)) fun _ => ?_
  exact finished_of_ne (by simp)

/-- The last writes of an installation. -/
theorem writes_obeys {g : Phase} {key chain : JsString} (hg : g = .promoted key ∨ g = .renewing (some key))
    (hleaf : LeafMatches crypto chain key) (now : ℤ) :
    (mtlsProtocol crypto).Obeys Finished g (do
      let info ← orThrow (certInfo crypto now chain)
      ask (.put .cert (some chain))
      ask (.put .cn (some (info.cn.getD [])))
      ask (.put .enforce (some (js "true")))
      pure (.installed info)) := by
  refine obeys_orThrow (finished_of_ne (by simp)) fun info => ?_
  rcases hg with rfl | rfl
  · refine obeys_ask ⟨chain, rfl, hleaf⟩ (finished_of_ne (by simp)) fun _ => ?_
    refine obeys_ask trivial (finished_of_ne (by simp)) fun _ => ?_
    refine obeys_ask trivial (finished_of_ne (by simp)) fun _ => ?_
    exact finished_of_ne (by simp)
  · refine obeys_ask ⟨chain, rfl, hleaf⟩ (finished_of_ne (by simp)) fun _ => ?_
    refine obeys_ask (.inl rfl) (finished_of_ne (by simp)) fun _ => ?_
    refine obeys_ask (.inr rfl) (finished_of_ne (by simp)) fun _ => ?_
    exact finished_of_ne (by simp)

theorem store_obeys {key chain : JsString} {pendingKey : Option JsString} {g : Phase}
    (hg : (pendingKey = some key ∧ g = .pending (some key)) ∨
      (pendingKey = none ∧ g = .renewing (some key)))
    (hleaf : LeafMatches crypto chain key) :
    (mtlsProtocol crypto).Obeys Finished g (store crypto pendingKey chain) := by
  rcases hg with ⟨rfl, rfl⟩ | ⟨rfl, rfl⟩
  · refine obeys_ask rfl (finished_of_ne (by simp)) fun _ => ?_
    refine obeys_ask rfl (finished_of_ne (by simp)) fun _ => ?_
    refine obeys_ask trivial (finished_of_ne (by simp)) fun _ => ?_
    refine obeys_ask trivial (finished_of_ne (by simp)) fun now => ?_
    exact writes_obeys (.inl rfl) hleaf now
  · refine obeys_ask trivial (finished_of_ne (by simp)) fun now => ?_
    exact writes_obeys (.inr rfl) hleaf now

theorem install_obeys {pem : JsString} {pendingKey key : Option JsString} {g : Phase}
    (hg : (pendingKey = key ∧ g = .pending key ∧ key.isSome = true) ∨
      (pendingKey = none ∧ g = .renewing key)) :
    (mtlsProtocol crypto).Obeys Finished g (install crypto pem pendingKey key) := by
  cases key with
  | none => exact finished_of_ne (by simp)
  | some key =>
    have hsame : ∀ now, g.next .now (some now) = g := by
      intro now
      rcases hg with ⟨-, rfl, -⟩ | ⟨-, rfl⟩ <;> rfl
    refine obeys_ask ?_ (finished_of_ne (by simp)) fun now => ?_
    · cases g <;> trivial
    rw [hsame]
    cases hvalid : validateCertAgainstKey crypto now pem key with
    | error reason => exact finished_of_ne (by simp)
    | ok chain =>
      refine store_obeys ?_ (leaf_of_valid hvalid)
      rcases hg with ⟨rfl, rfl, -⟩ | ⟨rfl, rfl⟩
      · exact .inl ⟨rfl, rfl⟩
      · exact .inr ⟨rfl, rfl⟩

theorem installCert_obeys (certPem : Option JsString) :
    (mtlsProtocol crypto).Obeys Finished .install (installCert crypto certPem) := by
  unfold installCert
  dsimp only
  split_ifs
  · exact finished_of_ne (by simp)
  · refine obeys_ask trivial (finished_of_ne (by simp)) fun pendingKey => ?_
    cases pendingKey with
    | some key => exact install_obeys (.inl ⟨rfl, rfl, rfl⟩)
    | none =>
      refine obeys_ask trivial (finished_of_ne (by simp)) fun key => ?_
      exact install_obeys (.inr ⟨rfl, rfl⟩)

theorem setEnforce_obeys (enabled : Bool) :
    (mtlsProtocol crypto).Obeys Finished .other (setEnforce crypto enabled) := by
  cases enabled with
  | false =>
    refine obeys_ask rfl (finished_of_ne (by simp)) fun _ => ?_
    exact finished_of_ne (by simp)
  | true =>
    refine obeys_ask trivial (finished_of_ne (by simp)) fun cert => ?_
    cases cert with
    | none => exact finished_of_ne (by simp)
    | some cert =>
      refine obeys_ask trivial (finished_of_ne (by simp)) fun now => ?_
      refine obeys_orThrow (finished_of_ne (by simp)) fun info => ?_
      split
      · exact finished_of_ne (by simp)
      · refine obeys_ask rfl (finished_of_ne (by simp)) fun _ => ?_
        exact finished_of_ne (by simp)

theorem reset_obeys : (mtlsProtocol crypto).Obeys Finished .resetting reset := by
  refine obeys_ask (.inl rfl) (finished_of_ne (by simp)) fun _ => ?_
  refine obeys_ask (.inl rfl) (finished_of_ne (by simp)) fun _ => ?_
  refine obeys_ask (.inl rfl) (finished_of_ne (by simp)) fun _ => ?_
  refine obeys_ask (.inl rfl) (finished_of_ne (by simp)) fun _ => ?_
  refine obeys_ask (.inl rfl) (finished_of_ne (by simp)) fun _ => ?_
  refine obeys_ask (.inr rfl) (finished_of_ne (by simp)) fun _ => ?_
  exact finished_of_ne (by simp)

theorem outboundIdentity_obeys :
    (mtlsProtocol crypto).Obeys Finished .outbound (outboundIdentity crypto) := by
  refine obeys_ask trivial (finished_of_ne (by simp)) fun enforce => ?_
  split
  · exact finished_of_ne (by simp)
  · refine obeys_ask trivial (finished_of_ne (by simp)) fun cert => ?_
    refine obeys_ask trivial (finished_of_ne (by simp)) fun key => ?_
    cases cert with
    | none => exact finished_of_ne (by simp)
    | some cert =>
      cases key with
      | none => exact finished_of_ne (by simp)
      | some key =>
        refine obeys_ask trivial (finished_of_ne (by simp)) fun now => ?_
        refine obeys_orThrow (finished_of_ne (by simp)) fun info => ?_
        split
        · exact finished_of_ne (by simp)
        · intro cert' key' heq
          cases heq
          rfl

theorem getStatus_obeys :
    (mtlsProtocol crypto).Obeys Finished .other (getStatus crypto) := by
  refine obeys_ask trivial (finished_of_ne (by simp)) fun cert => ?_
  cases cert with
  | none =>
    refine obeys_ask trivial (finished_of_ne (by simp)) fun pending => ?_
    exact finished_of_ne (by simp)
  | some cert =>
    refine obeys_ask trivial (finished_of_ne (by simp)) fun now => ?_
    refine obeys_orThrow (finished_of_ne (by simp)) fun info => ?_
    refine obeys_ask trivial (finished_of_ne (by simp)) fun enforce => ?_
    exact finished_of_ne (by simp)

theorem call_obeys (call : Call) :
    (mtlsProtocol crypto).Obeys Finished call.start (call.program crypto) := by
  cases call with
  | startSetup cnInput randomCn privateKeyPem => exact startSetup_obeys ..
  | installCert certPem => exact installCert_obeys certPem
  | setEnforce enabled => exact setEnforce_obeys enabled
  | reset => exact reset_obeys
  | outboundIdentity => exact outboundIdentity_obeys
  | getStatus => exact getStatus_obeys

end Programs

variable {ι : Type} [DecidableEq ι]

abbrev MtlsEntry (ι : Type) := Entry ι MtlsCommand MtlsCommand.Reply

abbrev MtlsConfig (ι : Type) := Config ι MtlsCommand MtlsCommand.Reply Settings Answer

abbrev MtlsMove (ι : Type) := Move ι Unit ℤ

def phaseOf (crypto : Crypto) (calls : ι → Call) (log : List (MtlsEntry ι)) (i : ι) : Phase :=
  phases (fun _ => mtlsProtocol crypto) (fun i => (calls i).start) log i

/-- Any calls at once, where nothing has been set up. -/
def mtlsRuns (crypto : Crypto) (calls : ι → Call) : System (MtlsConfig ι) (MtlsMove ι) :=
  settingsServer.system (fun s => ∀ setting, s.value setting = none)
    fun i => (calls i).program crypto

/-- What the steps so far have done to the pair: the active key, whether another key was
promoted since the certificate was stored, and for each reader whether one was promoted
since the certificate it has read was stored. -/
structure Seen (ι : Type) where
  active : Option JsString
  torn : Bool
  stale : ι → Bool

def Seen.next (seen : Seen ι) : MtlsEntry ι → Seen ι
  | ⟨_, .put .activeKey v, some _⟩ =>
      if storedValue v = seen.active then seen
      else if storedValue v = none then { seen with active := none }
      else ⟨storedValue v, true, fun _ => true⟩
  | ⟨_, .put .cert _, some _⟩ => { seen with torn := false }
  | ⟨i, .get .cert, some _⟩ => { seen with stale := Function.update seen.stale i seen.torn }
  | _ => seen

def seen (log : List (MtlsEntry ι)) : Seen ι := log.foldl Seen.next ⟨none, false, fun _ => false⟩

theorem seen_append (log : List (MtlsEntry ι)) (x : MtlsEntry ι) :
    seen (log ++ [x]) = (seen log).next x := by
  simp [seen, List.foldl_append]

/-- The key an installation validated its certificate against. -/
def Phase.key? : Phase → Option JsString
  | .promoted key => some key
  | .renewing key => key
  | _ => none

/-- An installation stores its certificate while its key is the active one, or none is; it
clears the pending entry while that holds the key it promoted; and a reader reads the
active key only when no other key was promoted since its certificate was stored. -/
def undisturbed (crypto : Crypto) (calls : ι → Call) :
    Condition ι MtlsCommand MtlsCommand.Reply Settings ℤ where
  act s log i c := match c with
    | .put .cert (some _) => s.value .activeKey = none ∨
        s.value .activeKey = (phaseOf crypto calls log i).key?
    | .put .pendingKey none => ∀ key, phaseOf crypto calls log i = .promoted key →
        s.value .pendingKey = none ∨ s.value .pendingKey = some key
    | .get .activeKey => ∀ cert, phaseOf crypto calls log i = .certRead (some cert) →
        s.value .activeKey ≠ none → (seen log).stale i = false
    | _ => True
  drift _ _ _ := True

section Invariant

variable {crypto : Crypto} {calls : ι → Call} {s : Settings} {log : List (MtlsEntry ι)}

/-- Unless it is torn the stored pair matches, and so does what a reader may still read. -/
structure Paired (crypto : Crypto) (calls : ι → Call) (s : Settings) (log : List (MtlsEntry ι)) :
    Prop where
  active : s.value .activeKey = (seen log).active
  matched : (seen log).torn = false → ∀ cert key, s.value .cert = some cert →
    s.value .activeKey = some key → LeafMatches crypto cert key
  reader : ∀ i cert key, phaseOf crypto calls log i = .certRead (some cert) →
    (seen log).stale i = false → s.value .activeKey = some key → LeafMatches crypto cert key
  pair : ∀ i cert key, phaseOf crypto calls log i = .pairRead (some cert) (some key) →
    LeafMatches crypto cert key

theorem phaseOf_self (log : List (MtlsEntry ι)) (i : ι) (c : MtlsCommand) (r : Option c.Reply) :
    phaseOf crypto calls (log ++ [⟨i, c, r⟩]) i = (phaseOf crypto calls log i).next c r := by
  show phases (fun _ => mtlsProtocol crypto) (fun i => (calls i).start) (log ++ [⟨i, c, r⟩]) i =
    (mtlsProtocol crypto).next
      (phases (fun _ => mtlsProtocol crypto) (fun i => (calls i).start) log i) c r
  exact phases_self ..

theorem phaseOf_other {i j : ι} (h : j ≠ i) (log : List (MtlsEntry ι)) (c : MtlsCommand)
    (r : Option c.Reply) :
    phaseOf crypto calls (log ++ [⟨i, c, r⟩]) j = phaseOf crypto calls log j := by
  unfold phaseOf
  exact phases_other (Ne.symm h) ..

/-- A step that neither replaces the pair nor reads it. -/
theorem Paired.outside (h : Paired crypto calls s log) {s' : Settings} {i : ι} {c : MtlsCommand}
    {r : Option c.Reply} (hactive : s'.value .activeKey = s.value .activeKey)
    (hcert : s'.value .cert = s.value .cert) (hseen : (seen log).next ⟨i, c, r⟩ = seen log)
    (hreads : ∀ cert, (phaseOf crypto calls log i).next c r = .certRead cert →
      phaseOf crypto calls log i = .certRead cert)
    (hpairs : ∀ cert key, (phaseOf crypto calls log i).next c r = .pairRead cert key →
      phaseOf crypto calls log i = .pairRead cert key) :
    Paired crypto calls s' (log ++ [⟨i, c, r⟩]) := by
  have hreader : ∀ j cert, phaseOf crypto calls (log ++ [⟨i, c, r⟩]) j = .certRead cert →
      phaseOf crypto calls log j = .certRead cert := by
    intro j cert hj
    by_cases hij : j = i
    · subst hij
      rw [phaseOf_self] at hj
      exact hreads cert hj
    · rwa [phaseOf_other hij] at hj
  have hpair : ∀ j cert key, phaseOf crypto calls (log ++ [⟨i, c, r⟩]) j = .pairRead cert key →
      phaseOf crypto calls log j = .pairRead cert key := by
    intro j cert key hj
    by_cases hij : j = i
    · subst hij
      rw [phaseOf_self] at hj
      exact hpairs cert key hj
    · rwa [phaseOf_other hij] at hj
  refine ⟨?_, ?_, ?_, fun j cert key hj => h.pair j cert key (hpair j _ _ hj)⟩
  · rw [seen_append, hseen, hactive]
    exact h.active
  · rw [seen_append, hseen, hactive, hcert]
    exact h.matched
  · rw [seen_append, hseen, hactive]
    exact fun j cert key hj => h.reader j cert key (hreader j _ hj)

/-- The commands that neither change nor read the pair lead into no reading phase. -/
theorem Phase.next_reading {g : Phase} {c : MtlsCommand} {r : Option c.Reply}
    (hcert : c ≠ .get .cert) (hkey : c ≠ .get .activeKey) :
    (∀ cert, g.next c r = .certRead cert → g = .certRead cert) ∧
      ∀ cert key, g.next c r = .pairRead cert key → g = .pairRead cert key := by
  unfold Phase.next
  split
  · simp
  · exact (hkey rfl).elim
  · simp
  · exact (hcert rfl).elim
  · exact (hkey rfl).elim
  · exact ⟨fun _ h => h, fun _ _ h => h⟩

theorem Paired.other (h : Paired crypto calls s log) (i : ι) {c : MtlsCommand}
    (hc : c = .now ∨ (∃ setting, c = .get setting ∧ setting ≠ .cert ∧ setting ≠ .activeKey) ∨
      ∃ setting v, c = .put setting v ∧ setting ≠ .cert ∧ setting ≠ .activeKey) :
    Paired crypto calls (performSettings c s).2 (log ++ [⟨i, c, (performSettings c s).1⟩]) := by
  rcases hc with rfl | ⟨setting, rfl, hcert, hkey⟩ | ⟨setting, v, rfl, hcert, hkey⟩
  · have hreading := Phase.next_reading (g := phaseOf crypto calls log i) (c := .now)
      (r := (performSettings .now s).1) (by simp) (by simp)
    exact h.outside rfl rfl rfl hreading.1 hreading.2
  · have hreading := Phase.next_reading (g := phaseOf crypto calls log i) (c := .get setting)
      (r := (performSettings (.get setting) s).1) (by simpa using hcert) (by simpa using hkey)
    refine h.outside rfl rfl ?_ hreading.1 hreading.2
    cases setting <;> first | rfl | contradiction
  · have hreading := Phase.next_reading (g := phaseOf crypto calls log i) (c := .put setting v)
      (r := (performSettings (.put setting v) s).1) (by simp) (by simp)
    refine h.outside (Function.update_of_ne (Ne.symm hkey) ..)
      (Function.update_of_ne (Ne.symm hcert) ..) ?_ hreading.1 hreading.2
    cases setting <;> first | rfl | contradiction

theorem Phase.allows_getCert {g : Phase} (h : g.Allows crypto (.get .cert)) :
    g = .outbound ∨ g = .other := by
  unfold Phase.Allows at h
  split at h <;> simp_all

theorem Phase.allows_getKey {g : Phase} (h : g.Allows crypto (.get .activeKey)) :
    (∃ cert, g = .certRead cert) ∨ g = .pending none ∨ g = .other := by
  unfold Phase.Allows at h
  split at h <;> simp_all

theorem Phase.allows_putKey {g : Phase} {v : Option JsString}
    (h : g.Allows crypto (.put .activeKey v)) :
    (∃ key, g = .pending (some key) ∧ v = some key) ∨ (g = .resetting ∧ v = none) := by
  unfold Phase.Allows at h
  split at h <;> grind

theorem Phase.allows_putCert {g : Phase} {v : Option JsString}
    (h : g.Allows crypto (.put .cert v)) :
    (∃ chain key, g.key? = some key ∧ v = some chain ∧ LeafMatches crypto chain key) ∨
      (g = .resetting ∧ v = none) := by
  unfold Phase.Allows at h
  split at h <;> grind [Phase.key?]

theorem Phase.allows_putPending {g : Phase} {v : Option JsString}
    (h : g.Allows crypto (.put .pendingKey v)) :
    g = .setup ∨ g = .resetting ∨ ((∃ key, g = .promoted key) ∧ v = none) := by
  unfold Phase.Allows at h
  split at h <;> grind

theorem Paired.getCert (h : Paired crypto calls s log) (i : ι)
    (hok : (phaseOf crypto calls log i).Allows crypto (.get .cert)) :
    Paired crypto calls s (log ++ [⟨i, .get .cert, some (s.value .cert)⟩]) := by
  have hseen : seen (log ++ [⟨i, .get .cert, some (s.value .cert)⟩]) =
      { seen log with stale := Function.update (seen log).stale i (seen log).torn } := by
    rw [seen_append]
    rfl
  have hself := @phaseOf_self _ _ crypto calls log i (.get .cert)
    (some (s.value .cert))
  refine ⟨?_, ?_, fun j cert key hj hfresh hkey => ?_, fun j cert key hj => ?_⟩
  · rw [hseen]
    exact h.active
  · rw [hseen]
    exact h.matched
  · rw [hseen] at hfresh
    by_cases hij : j = i
    · subst hij
      simp only [Function.update_self] at hfresh
      rw [hself] at hj
      rcases Phase.allows_getCert hok with hg | hg <;> rw [hg] at hj
      · exact h.matched hfresh cert key (Phase.certRead.inj hj) hkey
      · cases hj
    · simp only [Function.update_of_ne hij] at hfresh
      rw [phaseOf_other hij] at hj
      exact h.reader j cert key hj hfresh hkey
  · by_cases hij : j = i
    · subst hij
      rw [hself] at hj
      rcases Phase.allows_getCert hok with hg | hg <;> rw [hg] at hj <;> cases hj
    · rw [phaseOf_other hij] at hj
      exact h.pair j cert key hj

theorem Paired.getKey (h : Paired crypto calls s log) (i : ι)
    (hok : (phaseOf crypto calls log i).Allows crypto (.get .activeKey))
    (hundisturbed : ∀ cert, phaseOf crypto calls log i = .certRead (some cert) →
      s.value .activeKey ≠ none → (seen log).stale i = false) :
    Paired crypto calls s (log ++ [⟨i, .get .activeKey, some (s.value .activeKey)⟩]) := by
  have hseen : seen (log ++ [⟨i, .get .activeKey, some (s.value .activeKey)⟩]) = seen log := by
    rw [seen_append]
    rfl
  have hself := @phaseOf_self _ _ crypto calls log i (.get .activeKey)
    (some (s.value .activeKey))
  refine ⟨?_, ?_, fun j cert key hj hfresh hkey => ?_, fun j cert key hj => ?_⟩
  · rw [hseen]
    exact h.active
  · rw [hseen]
    exact h.matched
  · rw [hseen] at hfresh
    by_cases hij : j = i
    · subst hij
      rw [hself] at hj
      rcases Phase.allows_getKey hok with ⟨cert', hg⟩ | hg | hg <;> rw [hg] at hj <;> cases hj
    · rw [phaseOf_other hij] at hj
      exact h.reader j cert key hj hfresh hkey
  · by_cases hij : j = i
    · subst hij
      rw [hself] at hj
      rcases Phase.allows_getKey hok with ⟨cert', hg⟩ | hg | hg <;> rw [hg] at hj
      · obtain ⟨rfl, hkey⟩ := Phase.pairRead.inj hj
        exact h.reader j cert key hg (hundisturbed cert hg (by simp [hkey])) hkey
      · cases hj
      · cases hj
    · rw [phaseOf_other hij] at hj
      exact h.pair j cert key hj

theorem Paired.putKey (h : Paired crypto calls s log) (i : ι) {v : Option JsString}
    (hok : (phaseOf crypto calls log i).Allows crypto (.put .activeKey v)) :
    Paired crypto calls (performSettings (.put .activeKey v) s).2
      (log ++ [⟨i, .put .activeKey v, some ()⟩]) := by
  have hvalue : (performSettings (.put .activeKey v) s).2.value .activeKey = storedValue v := by
    change Function.update s.value .activeKey (storedValue v) .activeKey = storedValue v
    exact Function.update_self ..
  have hcert : (performSettings (.put .activeKey v) s).2.value .cert = s.value .cert := by
    change Function.update s.value .activeKey (storedValue v) .cert = s.value .cert
    exact Function.update_of_ne (by decide) ..
  have hreading : ∀ j cert, phaseOf crypto calls (log ++ [⟨i, .put .activeKey v, some ()⟩]) j =
      .certRead cert → phaseOf crypto calls log j = .certRead cert := by
    intro j cert hj
    by_cases hij : j = i
    · subst hij
      rw [phaseOf_self] at hj
      exact (Phase.next_reading (by simp) (by simp)).1 cert hj
    · rwa [phaseOf_other hij] at hj
  have hpairs : ∀ j cert key, phaseOf crypto calls (log ++ [⟨i, .put .activeKey v, some ()⟩]) j =
      .pairRead cert key → phaseOf crypto calls log j = .pairRead cert key := by
    intro j cert key hj
    by_cases hij : j = i
    · subst hij
      rw [phaseOf_self] at hj
      exact (Phase.next_reading (by simp) (by simp)).2 cert key hj
    · rwa [phaseOf_other hij] at hj
  have hseen : seen (log ++ [⟨i, .put .activeKey v, some ()⟩]) =
      if storedValue v = (seen log).active then seen log
      else if storedValue v = none then { seen log with active := none }
      else ⟨storedValue v, true, fun _ => true⟩ := by
    rw [seen_append]
    rfl
  by_cases hsame : storedValue v = (seen log).active
  · -- the key is the one that was active
    rw [if_pos hsame] at hseen
    have hkept : (performSettings (.put .activeKey v) s).2.value .activeKey =
        s.value .activeKey := by rw [hvalue, hsame, h.active]
    refine ⟨?_, ?_, fun j cert key hj hfresh hkey => ?_,
      fun j cert key hj => h.pair j cert key (hpairs j _ _ hj)⟩
    · rw [hseen, hvalue, hsame]
    · rw [hseen, hkept, hcert]
      exact h.matched
    · rw [hseen] at hfresh
      rw [hkept] at hkey
      exact h.reader j cert key (hreading j _ hj) hfresh hkey
  · rw [if_neg hsame] at hseen
    by_cases hnone : storedValue v = none
    · rw [if_pos hnone] at hseen
      refine ⟨?_, fun _ cert key _ hkey => ?_, fun j cert key _ _ hkey => ?_,
        fun j cert key hj => h.pair j cert key (hpairs j _ _ hj)⟩
      · rw [hseen, hvalue, hnone]
      · rw [hvalue, hnone] at hkey
        cases hkey
      · rw [hvalue, hnone] at hkey
        cases hkey
    · rw [if_neg hnone] at hseen
      refine ⟨?_, fun htorn => ?_, fun j cert key _ hfresh _ => ?_,
        fun j cert key hj => h.pair j cert key (hpairs j _ _ hj)⟩
      · rw [hseen, hvalue]
      · rw [hseen] at htorn
        cases htorn
      · rw [hseen] at hfresh
        cases hfresh

theorem Paired.putCert (h : Paired crypto calls s log) (i : ι) {v : Option JsString}
    (hok : (phaseOf crypto calls log i).Allows crypto (.put .cert v))
    (hundisturbed : v ≠ none → s.value .activeKey = none ∨
      s.value .activeKey = (phaseOf crypto calls log i).key?) :
    Paired crypto calls (performSettings (.put .cert v) s).2
      (log ++ [⟨i, .put .cert v, some ()⟩]) := by
  have hvalue : (performSettings (.put .cert v) s).2.value .cert = storedValue v := by
    change Function.update s.value .cert (storedValue v) .cert = storedValue v
    exact Function.update_self ..
  have hactive : (performSettings (.put .cert v) s).2.value .activeKey = s.value .activeKey := by
    change Function.update s.value .cert (storedValue v) .activeKey = s.value .activeKey
    exact Function.update_of_ne (by decide) ..
  have hseen : seen (log ++ [⟨i, .put .cert v, some ()⟩]) = { seen log with torn := false } := by
    rw [seen_append]
    rfl
  refine ⟨?_, fun _ cert key hcert hkey => ?_, fun j cert key hj hfresh hkey => ?_,
    fun j cert key hj => ?_⟩
  · rw [hseen, hactive]
    exact h.active
  · rw [hvalue] at hcert
    rw [hactive] at hkey
    rcases Phase.allows_putCert hok with ⟨chain, key', hphase, rfl, hleaf⟩ | ⟨-, rfl⟩
    · obtain rfl : chain = cert := (Option.filter_eq_some_iff.mp hcert).1 |> Option.some.inj
      rcases hundisturbed (by simp) with hnone | hsame
      · rw [hnone] at hkey
        cases hkey
      · rw [hphase, hkey] at hsame
        rwa [Option.some.inj hsame]
    · cases hcert
  · rw [hseen] at hfresh
    rw [hactive] at hkey
    by_cases hij : j = i
    · subst hij
      rw [phaseOf_self] at hj
      exact h.reader j cert key ((Phase.next_reading (by simp) (by simp)).1 _ hj) hfresh hkey
    · rw [phaseOf_other hij] at hj
      exact h.reader j cert key hj hfresh hkey
  · by_cases hij : j = i
    · subst hij
      rw [phaseOf_self] at hj
      exact h.pair j cert key ((Phase.next_reading (by simp) (by simp)).2 _ _ hj)
    · rw [phaseOf_other hij] at hj
      exact h.pair j cert key hj

theorem Paired.act (h : Paired crypto calls s log) (i : ι) {c : MtlsCommand}
    (hok : (phaseOf crypto calls log i).Allows crypto c)
    (hmeets : (undisturbed crypto calls).act s log i c) :
    Paired crypto calls (performSettings c s).2 (log ++ [⟨i, c, (performSettings c s).1⟩]) := by
  cases c with
  | now => exact h.other i (.inl rfl)
  | get setting =>
    by_cases hcert : setting = .cert
    · subst hcert
      exact h.getCert i hok
    by_cases hkey : setting = .activeKey
    · subst hkey
      exact h.getKey i hok hmeets
    exact h.other i (.inr (.inl ⟨setting, rfl, hcert, hkey⟩))
  | put setting v =>
    by_cases hcert : setting = .cert
    · subst hcert
      refine h.putCert i hok fun hsome => ?_
      cases v with
      | none => exact (hsome rfl).elim
      | some chain => exact hmeets
    by_cases hkey : setting = .activeKey
    · subst hkey
      exact h.putKey i hok
    exact h.other i (.inr (.inr ⟨setting, v, rfl, hcert, hkey⟩))

theorem Paired.initial (h : ∀ setting, s.value setting = none) : Paired crypto calls s [] := by
  refine ⟨h .activeKey, fun _ cert key hcert => ?_, fun i cert key hi => ?_,
    fun i cert key hi => ?_⟩
  · rw [h] at hcert
    cases hcert
  · change (calls i).start = _ at hi
    cases hcall : calls i <;> rw [hcall] at hi <;> cases hi
  · change (calls i).start = _ at hi
    cases hcall : calls i <;> rw [hcall] at hi <;> cases hi

end Invariant

section Origins

variable {crypto : Crypto} {calls : ι → Call}

/-- Where the phases of a call begin. -/
def Phase.origin : Phase → Phase
  | .pending _ | .renewing _ | .promoted _ => .install
  | .certRead _ | .pairRead _ _ => .outbound
  | g => g

theorem Phase.next_origin (g : Phase) (c : MtlsCommand) (r : Option c.Reply) :
    (g.next c r).origin = g.origin := by
  unfold Phase.next
  split <;> rfl

theorem phaseOf_origin (log : List (MtlsEntry ι)) (i : ι) :
    (phaseOf crypto calls log i).origin = (calls i).start := by
  induction log using List.reverseRecOn with
  | nil =>
    change (calls i).start.origin = (calls i).start
    cases calls i <;> rfl
  | append_singleton log x ih =>
    obtain ⟨j, c, r⟩ := x
    by_cases hij : i = j
    · subst hij
      rw [phaseOf_self, Phase.next_origin, ih]
    · rw [phaseOf_other hij, ih]

/-- An installation that has promoted a key has written it. -/
theorem promoted_in_log {log : List (MtlsEntry ι)} {i : ι} {key : JsString}
    (h : phaseOf crypto calls log i = .promoted key) :
    (⟨i, .put .activeKey (some key), some ()⟩ : MtlsEntry ι) ∈ log := by
  induction log using List.reverseRecOn with
  | nil =>
    change (calls i).start = _ at h
    cases hcall : calls i <;> rw [hcall] at h <;> cases h
  | append_singleton log x ih =>
    obtain ⟨j, c, r⟩ := x
    by_cases hij : i = j
    · subst hij
      rw [phaseOf_self] at h
      unfold Phase.next at h
      split at h
      · cases h
      · cases h
      · cases h
        exact List.mem_append_right _ (List.mem_singleton_self _)
      · cases h
      · cases h
      · exact List.mem_append_left _ (ih h)
    · rw [phaseOf_other hij] at h
      exact List.mem_append_left _ (ih h)

end Origins

end DreamSso.Mtls
