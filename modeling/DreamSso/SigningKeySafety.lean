import DreamSso.SigningKeys

/-!
What rotating the signing keys keeps. A key was served for five minutes before it became
the signer, up to the millisecond, so a key set that any process serves has the signer, and
it has a replaced signer for a day. A table that lost its signer is left as it is.
-/
namespace DreamSso.SigningKeys

open Interleaving JsStrings KeyedTables Transitions

section Tables

variable {t t' : KeyTable}

theorem KeyTable.store?_eq_some {rows : Table JsString SigningKeyRow}
    (h : KeyTable.store? rows = some t) : t.table = rows := by
  unfold KeyTable.store? at h
  split at h
  · rw [← Option.some.inj h]
  · cases h

theorem KeyTable.insert_eq_some {kid : JsString} {row : SigningKeyRow}
    (h : t.insert kid row = some t') : t.find? kid = none ∧
      ∀ k, t'.find? k = if k = kid then some row else t.find? k := by
  obtain ⟨rows, hrows, hstore⟩ := Option.bind_eq_some_iff.mp h
  obtain ⟨hnew, rfl⟩ := (Table.insertNew_eq_some ..).mp hrows
  refine ⟨hnew, fun k => ?_⟩
  rw [KeyTable.find?, KeyTable.store?_eq_some hstore, Table.find?_upsert]
  rfl

theorem KeyTable.update_eq_some {kid : JsString} {p : SigningKeyRow → Bool}
    {f : SigningKeyRow → SigningKeyRow} {n : ℕ} (h : t.update kid p f = some (n, t')) :
    (n = if (t.find? kid).any p then 1 else 0) ∧
      ∀ k, t'.find? k = (t.find? k).map fun r => if k = kid ∧ p r then f r else r := by
  obtain ⟨stored, hstore, hpair⟩ := Option.map_eq_some_iff.mp h
  obtain ⟨rfl, rfl⟩ := Prod.mk.inj hpair
  refine ⟨rfl, fun k => ?_⟩
  rw [KeyTable.find?, KeyTable.store?_eq_some hstore, Table.find?_updateWhere]
  simp only [Bool.and_eq_true, decide_eq_true_eq]
  rfl

theorem mem_newestFirst {rows : List KeyRow} {x : KeyRow} :
    x ∈ KeyTable.newestFirst rows ↔ x ∈ rows := (List.perm_insertionSort _ _).mem_iff

theorem mem_active {x : KeyRow} :
    x ∈ t.active ↔ t.find? x.1 = some x.2 ∧ x.2.status ≠ .retired := by
  rw [KeyTable.active, mem_newestFirst, List.mem_filter, decide_eq_true_eq]
  exact and_congr_left fun _ => Table.mem_rows_iff ..

theorem mem_jwks {kid : JsString} {now : ℕ} :
    kid ∈ t.jwks now ↔ ∃ r, t.find? kid = some r ∧ r.Published now := by
  simp only [KeyTable.jwks, List.mem_map, mem_newestFirst, List.mem_filter, decide_eq_true_eq]
  constructor
  · intro h
    obtain ⟨x, ⟨hx, hpublished⟩, rfl⟩ := h
    exact ⟨x.2, (Table.mem_rows_iff ..).mp hx, hpublished⟩
  · intro h
    obtain ⟨r, hr, hpublished⟩ := h
    exact ⟨(kid, r), ⟨(Table.mem_rows_iff ..).mpr hr, hpublished⟩, rfl⟩

/-- Some row signs. -/
def HasCurrent (t : KeyTable) : Prop := ∃ k r, t.find? k = some r ∧ r.status = .current

def Known (kid : JsString) (s : KeyService ρ) : Prop := ∃ r, s.keys.find? kid = some r

theorem current_found {x : KeyRow} (h : current? t.active = some x) :
    t.find? x.1 = some x.2 ∧ x.2.status = .current := by
  have hstatus := List.find?_some h
  exact ⟨(mem_active.mp (List.mem_of_find?_eq_some h)).1, of_decide_eq_true hstatus⟩

theorem next_found {x : KeyRow} (h : next? t.active = some x) :
    t.find? x.1 = some x.2 ∧ x.2.status = .next := by
  have hstatus := List.find?_some h
  exact ⟨(mem_active.mp (List.mem_of_find?_eq_some h)).1, of_decide_eq_true hstatus⟩

theorem rows_eq_nil : t.table.rows = [] ↔ ∀ k, t.find? k = none := by
  constructor
  · intro h k
    cases hk : t.find? k with
    | none => rfl
    | some r =>
      have hmem := (Table.mem_rows_iff t.table k r).mpr hk
      rw [h] at hmem
      cases hmem
  · intro h
    refine List.eq_nil_iff_forall_not_mem.mpr fun x hx => ?_
    have hfound := (Table.mem_rows_iff t.table x.1 x.2).mp hx
    have hnone : t.table.find? x.1 = none := h x.1
    rw [hnone] at hfound
    cases hfound

theorem need_eq_some {found rows : List KeyRow} (h : need found = some rows) : rows = found := by
  unfold need at h
  split at h
  · exact (Option.some.inj h).symm
  · cases h

/-- Two rows of one of these statuses are one. -/
theorem KeyTable.one_current {k k' : JsString} {r r' : SigningKeyRow} (hr : t.find? k = some r)
    (hr' : t.find? k' = some r') (hs : r.status = .current) (hs' : r'.status = .current) :
    k = k' :=
  t.admitted.2.1 _ ((Table.mem_rows_iff ..).mpr hr) _ ((Table.mem_rows_iff ..).mpr hr') hs hs'

theorem KeyTable.one_next {k k' : JsString} {r r' : SigningKeyRow} (hr : t.find? k = some r)
    (hr' : t.find? k' = some r') (hs : r.status = .next) (hs' : r'.status = .next) : k = k' :=
  t.admitted.2.2.1 _ ((Table.mem_rows_iff ..).mpr hr) _ ((Table.mem_rows_iff ..).mpr hr') hs hs'

theorem KeyTable.checked {k : JsString} {r : SigningKeyRow} (h : t.find? k = some r) : r.Checked :=
  t.admitted.1 (k, r) ((Table.mem_rows_iff ..).mpr h)

end Tables

section Transactions

variable {t t' : KeyTable} {g : Given} {kid : JsString}

/-- The first key of an empty table. -/
def Begun (g : Given) (t t' : KeyTable) : Prop :=
  (∀ k, t.find? k = none) ∧ ∀ k, t'.find? k = if k = g.kid 0 then some (bootstrapRow g) else none

/-- A pending key beside a signer. -/
def Added (g : Given) (t t' : KeyTable) : Prop :=
  HasCurrent t ∧ t.find? (g.kid 1) = none ∧
    ∀ k, t'.find? k = if k = g.kid 1 then some (nextRow g) else t.find? k

/-- The marker of a pending key. -/
def Marked (g : Given) (kid : JsString) (t t' : KeyTable) : Prop :=
  HasCurrent t ∧ ∃ r, t.find? kid = some r ∧ r.status = .next ∧ r.published_at = none ∧
    ∀ k, t'.find? k = if k = kid then some (r.marked (g.at_ 1)) else t.find? k

/-- A pending key whose waiting time is over takes the place of the signer. -/
def Rotated (g : Given) (kid : JsString) (t t' : KeyTable) : Prop :=
  ∃ old c r p a, t.find? old = some c ∧ c.status = .current ∧ t.find? kid = some r ∧
    r.status = .next ∧ r.published_at = some p ∧ r.activate_after = some a ∧
    milliseconds a ≤ milliseconds (g.at_ 0) ∧
    ∀ k, t'.find? k = if k = kid then some (r.activate (g.at_ 2))
      else if k = old then some (c.retire (g.at_ 1)) else t.find? k

theorem bootstrap_cases (h : bootstrap g t.active t = some t') :
    HasCurrent t' ∧ (t' = t ∨ Begun g t t') := by
  unfold bootstrap at h
  split at h
  · next x hx =>
    obtain ⟨hfound, hstatus⟩ := current_found hx
    rw [← Option.some.inj h]
    exact ⟨⟨_, _, hfound, hstatus⟩, .inl rfl⟩
  · split_ifs at h with hempty
    obtain ⟨inserted, hinsert, h⟩ := Option.bind_eq_some_iff.mp h
    obtain ⟨_, _, h⟩ := Option.bind_eq_some_iff.mp h
    rw [← Option.some.inj h]
    have hnone := rows_eq_nil.mp hempty.2
    obtain ⟨-, hfind⟩ := KeyTable.insert_eq_some hinsert
    have hbegun : Begun g t inserted := by
      refine ⟨hnone, fun k => ?_⟩
      rw [hfind k, hnone k]
    refine ⟨⟨g.kid 0, bootstrapRow g, ?_, rfl⟩, .inr hbegun⟩
    rw [hfind, if_pos rfl]

theorem firstKey_cases (h : firstKey g t = some ((), t')) : t' = t ∨ Begun g t t' := by
  obtain ⟨rows, hrows, h⟩ := Option.bind_eq_some_iff.mp h
  obtain ⟨t₁, hboot, h⟩ := Option.bind_eq_some_iff.mp h
  rw [need_eq_some hrows] at hboot
  obtain ⟨-, rfl⟩ := Prod.mk.inj (Option.some.inj h)
  exact (bootstrap_cases hboot).2

theorem scheduleKey_cases (h : scheduleKey g t = some (kid, t')) :
    ∃ t₁, (t₁ = t ∨ Begun g t t₁) ∧
      ((t' = t₁ ∧ ∃ x, next? t.active = some x ∧ kid = x.1) ∨
        (next? t.active = none ∧ Added g t₁ t')) := by
  obtain ⟨rows, hrows, h⟩ := Option.bind_eq_some_iff.mp h
  obtain ⟨t₁, hboot, h⟩ := Option.bind_eq_some_iff.mp h
  rw [need_eq_some hrows] at hboot h
  obtain ⟨hcurrent, hfirst⟩ := bootstrap_cases hboot
  refine ⟨t₁, hfirst, ?_⟩
  split at h
  · next x hx =>
    obtain ⟨rfl, rfl⟩ := Prod.mk.inj (Option.some.inj h)
    exact .inl ⟨rfl, x, hx, rfl⟩
  · next hnone =>
    obtain ⟨t₂, hinsert, h⟩ := Option.bind_eq_some_iff.mp h
    obtain ⟨-, rfl⟩ := Prod.mk.inj (Option.some.inj h)
    exact .inr ⟨hnone, hcurrent, KeyTable.insert_eq_some hinsert⟩

theorem reconcileKey_cases {modified : Bool} (h : reconcileKey g kid t = some (modified, t')) :
    HasCurrent t ∧ (t' = t ∨ Marked g kid t t' ∨ Rotated g kid t t') := by
  obtain ⟨rows, hrows, h⟩ := Option.bind_eq_some_iff.mp h
  obtain ⟨c, hc, h⟩ := Option.bind_eq_some_iff.mp h
  rw [need_eq_some hrows] at hc h
  obtain ⟨hcurrent, hstatus⟩ := current_found hc
  have hhas : HasCurrent t := ⟨_, _, hcurrent, hstatus⟩
  refine ⟨hhas, ?_⟩
  split at h
  · rw [← (Prod.mk.inj (Option.some.inj h)).2]
    exact .inl rfl
  · next x hx =>
    obtain ⟨hnext, hpending⟩ := next_found hx
    split_ifs at h with hkid
    · rw [← (Prod.mk.inj (Option.some.inj h)).2]
      exact .inl rfl
    · have hname : x.1 = kid := not_not.mp hkid
      rw [hname] at hnext
      split at h
      · next hunpublished =>
        obtain ⟨⟨n, t₁⟩, hupdate, h⟩ := Option.bind_eq_some_iff.mp h
        obtain ⟨-, rfl⟩ := Prod.mk.inj (Option.some.inj h)
        obtain ⟨-, hfind⟩ := KeyTable.update_eq_some hupdate
        refine .inr (.inl ⟨hhas, x.2, hnext, hpending, hunpublished, fun k => ?_⟩)
        rw [hfind k]
        by_cases hk : k = kid
        · rw [if_pos hk, hk, hnext, Option.map_some]
          simp [hpending, hunpublished]
        · rw [if_neg hk]
          cases t.find? k <;> simp [hk]
      · cases h
      · next p a hpublished hafter =>
        split_ifs at h with hearly
        · rw [← (Prod.mk.inj (Option.some.inj h)).2]
          exact .inl rfl
        · obtain ⟨⟨_, t₁⟩, hretire, h⟩ := Option.bind_eq_some_iff.mp h
          obtain ⟨⟨n, t₂⟩, hactivate, h⟩ := Option.bind_eq_some_iff.mp h
          simp only at h
          split_ifs at h
          obtain ⟨-, rfl⟩ := Prod.mk.inj (Option.some.inj h)
          obtain ⟨-, hretired⟩ := KeyTable.update_eq_some hretire
          obtain ⟨-, hactivated⟩ := KeyTable.update_eq_some hactivate
          have hapart : kid ≠ c.1 := by
            intro heq
            rw [heq, hcurrent] at hnext
            rw [← Option.some.inj hnext, hstatus] at hpending
            cases hpending
          refine .inr (.inr ⟨c.1, c.2, x.2, p, a, hcurrent, hstatus, hnext, hpending, hpublished,
            hafter, not_lt.mp hearly, fun k => ?_⟩)
          rw [hactivated k, hretired k]
          by_cases hk : k = kid
          · rw [if_pos hk, hk, hnext]
            simp [hapart, hpending]
          · rw [if_neg hk]
            by_cases hold : k = c.1
            · rw [if_pos hold, hold, hcurrent]
              simp [hstatus, hapart.symm]
            · rw [if_neg hold]
              cases t.find? k <;> simp [hk, hold]

end Transactions

section Rows

variable {ι ρ : Type} {t t' t'' : KeyTable} {g : Given} {kid : JsString} {bound : ℕ}
  {hist : List (KeyService ρ × Entry ι (KeyCommand ρ) KeyCommand.Reply)}

/-- Rows stay; a retired one for good as it is, and no signer is pending again. -/
def Onward (t t' : KeyTable) : Prop :=
  ∀ k r, t.find? k = some r → ∃ r', t'.find? k = some r' ∧ (r.status = .retired → r' = r) ∧
    (r.status = .current → r'.status ≠ .next)

theorem Onward.refl (t : KeyTable) : Onward t t := by
  intro k r hr
  refine ⟨r, hr, fun _ => rfl, fun hcurrent => ?_⟩
  rw [hcurrent]
  decide

theorem Onward.trans (h : Onward t t') (h' : Onward t' t'') : Onward t t'' := by
  intro k r hr
  obtain ⟨r', hr', hretired, hcurrent⟩ := h k r hr
  obtain ⟨r'', hr'', hretired', hcurrent'⟩ := h' k r' hr'
  refine ⟨r'', hr'', ?_, ?_⟩
  · intro hstatus
    have hsame := hretired hstatus
    rw [hretired' (hsame ▸ hstatus), hsame]
  · intro hstatus
    cases hnow : r'.status with
    | current => exact hcurrent' hnow
    | next => exact absurd hnow (hcurrent hstatus)
    | retired =>
      rw [hretired' hnow, hnow]
      decide

theorem Begun.onward (h : Begun g t t') : Onward t t' := by
  intro k r hr
  rw [h.1 k] at hr
  cases hr

theorem Added.onward (h : Added g t t') : Onward t t' := by
  intro k r hr
  obtain ⟨-, hfresh, hfind⟩ := h
  have hk : k ≠ g.kid 1 := by
    intro heq
    rw [heq, hfresh] at hr
    cases hr
  have hsame := Onward.refl t k r hr
  rwa [← show t'.find? k = t.find? k by rw [hfind k, if_neg hk]] at hsame

theorem Marked.onward (h : Marked g kid t t') : Onward t t' := by
  intro k r hr
  obtain ⟨-, r₀, hr₀, hstatus, -, hfind⟩ := h
  by_cases hk : k = kid
  · rw [hk, hr₀] at hr
    obtain rfl := Option.some.inj hr
    refine ⟨r₀.marked (g.at_ 1), by rw [hfind k, if_pos hk], ?_, ?_⟩
    all_goals
      intro h
      rw [hstatus] at h
      cases h
  · have hsame := Onward.refl t k r hr
    rwa [← show t'.find? k = t.find? k by rw [hfind k, if_neg hk]] at hsame

theorem Rotated.onward (h : Rotated g kid t t') : Onward t t' := by
  intro k r hr
  obtain ⟨old, c, r₀, p, a, hc, hcurrent, hr₀, hnext, -, -, -, hfind⟩ := h
  by_cases hk : k = kid
  · rw [hk, hr₀] at hr
    obtain rfl := Option.some.inj hr
    refine ⟨r₀.activate (g.at_ 2), by rw [hfind k, if_pos hk], ?_, ?_⟩
    all_goals
      intro h
      rw [hnext] at h
      cases h
  · by_cases hold : k = old
    · rw [hold, hc] at hr
      obtain rfl := Option.some.inj hr
      refine ⟨c.retire (g.at_ 1), by rw [hfind k, if_neg hk, if_pos hold], ?_, ?_⟩
      · intro h
        rw [hcurrent] at h
        cases h
      · intro _ h
        cases h
    · have hsame := Onward.refl t k r hr
      rwa [← show t'.find? k = t.find? k by rw [hfind k, if_neg hk, if_neg hold]] at hsame

/-- Only the first key of a table came without a rotation. -/
def OneBootstrap (t : KeyTable) : Prop :=
  ∀ k k' r r', t.find? k = some r → t.find? k' = some r' → r.rotation_id = none →
    r'.rotation_id = none → k = k'

theorem OneBootstrap.of_rows (h : OneBootstrap t)
    (hrows : ∀ k r', t'.find? k = some r' → r'.rotation_id = none →
      ∃ r, t.find? k = some r ∧ r.rotation_id = none) : OneBootstrap t' := by
  intro k k' r r' hr hr' hnone hnone'
  obtain ⟨r₁, hr₁, hnone₁⟩ := hrows k r hr hnone
  obtain ⟨r₂, hr₂, hnone₂⟩ := hrows k' r' hr' hnone'
  exact h k k' r₁ r₂ hr₁ hr₂ hnone₁ hnone₂

/-- What is true of a row in view of the stores that commands were executed on: the first
key was there before every other one, a marked key since before its marker, which an
earlier commit is older than, and a rotated one became the signer when its waiting time
was over. -/
structure SoundRow (hist : List (KeyService ρ × Entry ι (KeyCommand ρ) KeyCommand.Reply))
    (bound : ℕ) (kid : JsString) (r : SigningKeyRow) : Prop where
  first : r.rotation_id = none → ∀ x ∈ hist, (∃ k r', x.1.keys.find? k = some r') → Known kid x.1
  published : ∀ p ∈ r.published_at, ∀ x ∈ hist, p < x.1.clock → Known kid x.1
  committed : ∀ p ∈ r.published_at, ∃ x ∈ hist, x.1.released ≤ p ∧
    ∃ r', x.1.keys.find? kid = some r' ∧ r'.published_at = none
  waited : r.rotation_id ≠ none → r.status ≠ .next → ∃ p ∈ r.published_at,
    ∃ a ∈ r.activate_after, ∃ v ∈ r.activated_at, milliseconds a ≤ milliseconds v ∧ v ≤ bound
  ended : r.status = .retired → ∃ v ∈ r.retired_at, v ≤ bound

structure Sound (hist : List (KeyService ρ × Entry ι (KeyCommand ρ) KeyCommand.Reply))
    (bound : ℕ) (t : KeyTable) : Prop where
  rows : ∀ k r, t.find? k = some r → SoundRow hist bound k r
  current : (∃ k r, t.find? k = some r) → HasCurrent t
  bootstrap : OneBootstrap t

theorem SoundRow.mono {bound' : ℕ} {r : SigningKeyRow} (hbound : bound ≤ bound')
    (h : SoundRow hist bound kid r) : SoundRow hist bound' kid r := by
  refine ⟨h.first, h.published, h.committed, fun hrotation hstatus => ?_, fun hretired => ?_⟩
  · obtain ⟨p, hp, a, ha, v, hv, hdue, hle⟩ := h.waited hrotation hstatus
    exact ⟨p, hp, a, ha, v, hv, hdue, by omega⟩
  · obtain ⟨v, hv, hle⟩ := h.ended hretired
    exact ⟨v, hv, by omega⟩

theorem Sound.mono {bound' : ℕ} (hbound : bound ≤ bound') (h : Sound hist bound t) :
    Sound hist bound' t := ⟨fun k r hr => (h.rows k r hr).mono hbound, h.current, h.bootstrap⟩

/-- The store a command is executed on has the rows it has. -/
theorem Sound.record {s : KeyService ρ} {e : Entry ι (KeyCommand ρ) KeyCommand.Reply}
    (h : Sound hist bound s.keys) : Sound (hist ++ [(s, e)]) bound s.keys := by
  refine ⟨fun k r hr => ?_, h.current, h.bootstrap⟩
  have hrow := h.rows k r hr
  refine ⟨fun hrotation x hx hrows => ?_, fun p hp x hx hlt => ?_, fun p hp => ?_, hrow.waited,
    hrow.ended⟩
  · rcases List.mem_append.mp hx with hx | hx
    · exact hrow.first hrotation x hx hrows
    · rw [List.mem_singleton.mp hx]
      exact ⟨r, hr⟩
  · rcases List.mem_append.mp hx with hx | hx
    · exact hrow.published p hp x hx hlt
    · rw [List.mem_singleton.mp hx]
      exact ⟨r, hr⟩
  · obtain ⟨x, hx, hrest⟩ := hrow.committed p hp
    exact ⟨x, List.mem_append_left _ hx, hrest⟩

theorem Sound.begun (honward : ∀ x ∈ hist, Onward x.1.keys t) (h : Begun g t t') :
    Sound hist bound t' := by
  obtain ⟨hempty, hfind⟩ := h
  have honly : ∀ k r, t'.find? k = some r → k = g.kid 0 ∧ r = bootstrapRow g := by
    intro k r hr
    rw [hfind k] at hr
    split_ifs at hr with hk
    exact ⟨hk, (Option.some.inj hr).symm⟩
  refine ⟨fun k r hr => ?_, fun _ => ⟨g.kid 0, bootstrapRow g, by rw [hfind, if_pos rfl], rfl⟩,
    fun k k' r r' hr hr' _ _ => (honly k r hr).1.trans (honly k' r' hr').1.symm⟩
  obtain ⟨-, rfl⟩ := honly k r hr
  refine ⟨fun _ x hx hrows => ?_, nofun, nofun, fun hrotation => absurd rfl hrotation, nofun⟩
  obtain ⟨k', r', hr'⟩ := hrows
  obtain ⟨r'', hr'', -⟩ := honward x hx k' r' hr'
  rw [hempty k'] at hr''
  cases hr''

theorem Sound.added (hsound : Sound hist bound t) (h : Added g t t') : Sound hist bound t' := by
  obtain ⟨hcurrent, hfresh, hfind⟩ := h
  constructor
  · intro k r hr
    rw [hfind k] at hr
    split_ifs at hr with hk
    · obtain rfl := Option.some.inj hr
      exact ⟨nofun, nofun, nofun, fun _ hstatus => absurd rfl hstatus, nofun⟩
    · exact hsound.rows k r hr
  · intro _
    obtain ⟨k, r, hr, hstatus⟩ := hcurrent
    refine ⟨k, r, ?_, hstatus⟩
    rw [hfind k, if_neg, hr]
    intro heq
    rw [heq, hfresh] at hr
    cases hr
  · refine hsound.bootstrap.of_rows fun k r' hr' hnone => ?_
    rw [hfind k] at hr'
    split_ifs at hr' with hk
    · rw [← Option.some.inj hr'] at hnone
      cases hnone
    · exact ⟨r', hr', hnone⟩

theorem Sound.marked (hknown : ∀ x ∈ hist, g.at_ 1 < x.1.clock → Known kid x.1)
    (hcommitted : ∃ x ∈ hist, x.1.released ≤ g.at_ 1 ∧ x.1.keys = t)
    (hsound : Sound hist bound t) (h : Marked g kid t t') : Sound hist bound t' := by
  obtain ⟨hcurrent, r₀, hr₀, hnext, hunpublished, hfind⟩ := h
  constructor
  · intro k r hr
    rw [hfind k] at hr
    split_ifs at hr with hk
    · obtain rfl := Option.some.inj hr
      rw [hk]
      refine ⟨(hsound.rows kid r₀ hr₀).first, fun p hp x hx hlt => ?_, fun p hp => ?_,
        fun _ hstatus => absurd hnext hstatus, fun hretired => ?_⟩
      · refine hknown x hx ?_
        rwa [show g.at_ 1 = p from Option.some.inj hp]
      · obtain ⟨x, hx, hreleased, rfl⟩ := hcommitted
        rw [← show g.at_ 1 = p from Option.some.inj hp]
        exact ⟨x, hx, hreleased, r₀, hr₀, hunpublished⟩
      · have hstatus : r₀.status = .retired := hretired
        rw [hnext] at hstatus
        cases hstatus
    · exact hsound.rows k r hr
  · intro _
    obtain ⟨k, r, hr, hstatus⟩ := hcurrent
    refine ⟨k, r, ?_, hstatus⟩
    rw [hfind k, if_neg, hr]
    intro heq
    rw [heq, hr₀] at hr
    rw [← Option.some.inj hr, hnext] at hstatus
    cases hstatus
  · refine hsound.bootstrap.of_rows fun k r' hr' hnone => ?_
    rw [hfind k] at hr'
    split_ifs at hr' with hk
    · rw [← Option.some.inj hr'] at hnone
      exact ⟨r₀, hk ▸ hr₀, hnone⟩
    · exact ⟨r', hr', hnone⟩

theorem Sound.rotated (horder : g.at_ 0 ≤ g.at_ 1) (horder' : g.at_ 1 ≤ g.at_ 2)
    (hbound : g.at_ 2 ≤ bound)
    (hsound : Sound hist bound t) (h : Rotated g kid t t') : Sound hist bound t' := by
  obtain ⟨old, c, r₀, p, a, hc, hcurrent, hr₀, hnext, hp, ha, hdue, hfind⟩ := h
  constructor
  · intro k r hr
    rw [hfind k] at hr
    split_ifs at hr with hk hold
    · obtain rfl := Option.some.inj hr
      rw [hk]
      have hrow := hsound.rows kid r₀ hr₀
      refine ⟨hrow.first, hrow.published, hrow.committed,
        fun _ _ => ⟨p, hp, a, ha, g.at_ 2, rfl, ?_, hbound⟩, nofun⟩
      exact hdue.trans (Nat.div_le_div_right (horder.trans horder'))
    · obtain rfl := Option.some.inj hr
      rw [hold]
      have hrow := hsound.rows old c hc
      refine ⟨hrow.first, hrow.published, hrow.committed,
        fun hrotation _ => hrow.waited hrotation ?_, fun _ => ⟨g.at_ 1, rfl, by omega⟩⟩
      rw [hcurrent]
      decide
    · exact hsound.rows k r hr
  · intro _
    refine ⟨kid, r₀.activate (g.at_ 2), ?_, rfl⟩
    rw [hfind kid, if_pos rfl]
  · refine hsound.bootstrap.of_rows fun k r' hr' hnone => ?_
    rw [hfind k] at hr'
    split_ifs at hr' with hk hold
    · rw [← Option.some.inj hr'] at hnone
      exact ⟨r₀, hk ▸ hr₀, hnone⟩
    · rw [← Option.some.inj hr'] at hnone
      exact ⟨c, hold ▸ hc, hnone⟩
    · exact ⟨r', hr', hnone⟩

end Rows

end DreamSso.SigningKeys
