import DreamSso.Library.JsStrings
import DreamSso.Library.Transitions
import Mathlib.Logic.Function.Basic

/-!
Key sets fetched from the endpoints of clients. Each client and endpoint has one set: a
document with the time its fetch completed and the promise of the fetch in flight.
Resolutions overlap; between two awaits a resolution runs alone. A promise that has
settled is cleared in a step of its own.
-/
namespace DreamSso.RemoteKeys

open JsStrings Transitions

/-- The key of the resolver's map, `JSON.stringify([client_id, jwks_uri])`. -/
structure CacheKey where
  clientId : JsString
  jwksUri : JsString
  deriving DecidableEq

/-- What jose finds in a document for a header. -/
inductive Selection (K : Type)
  | key (k : K)
  | noMatchingKey
  | failed
  deriving DecidableEq

inductive Cause
  | refresh
  | unknownKid
  deriving DecidableEq

inductive Settled (Doc : Type)
  | succeeded (d : Doc) (at_ : ℤ)
  | failed
  deriving DecidableEq

structure Fetch (Doc : Type) where
  cacheKey : CacheKey
  cause : Cause
  issuedAt : ℤ
  settled : Option (Settled Doc)
  deriving DecidableEq

/-- `document` is `local`, with the number of the fetch that brought it. -/
structure RemoteSet (Doc : Type) where
  document : Option (Doc × ℕ)
  fetchedAt : Option ℤ
  pending : Option ℕ

/-- Where a resolution is: it awaits a fetch, for the first time or `again` after an
unknown kid, or it looks for its key in a document. `checked` is when it passed the
freshness check, or when the fetch it awaited completed. -/
inductive Phase (Doc K : Type)
  | idle
  | waiting (n : ℕ) (again : Bool)
  | matching (d : Doc) (source : ℕ) (checked : ℤ) (again : Bool)
  | returned (d : Doc) (source : ℕ) (checked : ℤ) (k : K)
  | failed
  deriving DecidableEq

structure State (ι Doc K : Type) where
  clock : ℤ
  sets : CacheKey → RemoteSet Doc
  fetches : ℕ → Option (Fetch Doc)
  next : ℕ
  phases : ι → Phase Doc K

/-- A resolution is for a client's endpoint and a header. -/
structure Request (H : Type) where
  cacheKey : CacheKey
  header : H

def FRESH_MS : ℤ := 600000
def COOLDOWN_MS : ℤ := 30000

section Steps

variable {ι Doc K H : Type} [DecidableEq ι]

def RemoteSet.ageBelow (r : RemoteSet Doc) (clock ms : ℤ) : Bool :=
  r.fetchedAt.any fun t => decide (clock < t + ms)

def State.issue (s : State ι Doc K) (key : CacheKey) (cause : Cause) : State ι Doc K :=
  let set := { s.sets key with pending := some s.next }
  let fetch : Fetch Doc := ⟨key, cause, s.clock, none⟩
  { s with
    sets := Function.update s.sets key set
    fetches := Function.update s.fetches s.next (some fetch)
    next := s.next + 1 }

/-- Join the fetch in flight or issue one. -/
def State.reload (s : State ι Doc K) (key : CacheKey) (cause : Cause) : ℕ × State ι Doc K :=
  match (s.sets key).pending with
  | some n => (n, s)
  | none => (s.next, s.issue key cause)

def State.goes (s : State ι Doc K) (i : ι) (phase : Phase Doc K) : State ι Doc K :=
  { s with phases := Function.update s.phases i phase }

def State.awaits (s : State ι Doc K) (i : ι) (key : CacheKey) (cause : Cause) (again : Bool) :
    State ι Doc K := (s.reload key cause).2.goes i (.waiting (s.reload key cause).1 again)

inductive Label (ι Doc : Type)
  | tick (clock : ℤ)
  | resolve (i : ι)
  | resume (i : ι)
  | selected (i : ι)
  | succeed (n : ℕ) (d : Doc)
  | fail (n : ℕ)
  | clear (key : CacheKey)

variable (requests : ι → Request H) (select : Doc → H → Selection K)

/-- The first part of a resolution. -/
def State.resolve (s : State ι Doc K) (i : ι) : State ι Doc K :=
  let key := (requests i).cacheKey
  match (s.sets key).document with
  | some (d, source) =>
      if (s.sets key).ageBelow s.clock FRESH_MS then s.goes i (.matching d source s.clock false)
      else s.awaits i key .refresh false
  | none => s.awaits i key .refresh false

/-- The continuation behind a fetch that has settled and been cleared. -/
def State.resume (s : State ι Doc K) (i : ι) (n : ℕ) (again : Bool) : Option (State ι Doc K) :=
  let set := s.sets (requests i).cacheKey
  if set.pending = some n then none
  else match (s.fetches n).bind fun f => f.settled with
    | some (.succeeded _ completed) =>
        set.document.map fun (d, source) => s.goes i (.matching d source completed again)
    | some .failed => some (s.goes i .failed)
    | none => none

/-- What follows the search for the key. -/
def State.selected (s : State ι Doc K) (i : ι) (d : Doc) (source : ℕ) (checked : ℤ)
    (again : Bool) : State ι Doc K :=
  let key := (requests i).cacheKey
  match select d (requests i).header with
  | .key k => s.goes i (.returned d source checked k)
  | .failed => s.goes i .failed
  | .noMatchingKey =>
      if again || (s.sets key).ageBelow s.clock COOLDOWN_MS then s.goes i .failed
      else s.awaits i key .unknownKid true

def State.settle (s : State ι Doc K) (n : ℕ) (f : Fetch Doc) (outcome : Settled Doc) :
    State ι Doc K :=
  let fetch := { f with settled := some outcome }
  { s with fetches := Function.update s.fetches n (some fetch) }

def State.store (s : State ι Doc K) (n : ℕ) (f : Fetch Doc) (d : Doc) : State ι Doc K :=
  let set := { s.sets f.cacheKey with document := some (d, n), fetchedAt := some s.clock }
  { s with sets := Function.update s.sets f.cacheKey set }

/-- The promise of a settled fetch is cleared before those who await it go on. -/
def State.clear (s : State ι Doc K) (key : CacheKey) : State ι Doc K :=
  let set := { s.sets key with pending := none }
  { s with sets := Function.update s.sets key set }

def State.step (s : State ι Doc K) : Label ι Doc → Option (State ι Doc K)
  | .tick clock => if s.clock ≤ clock then some { s with clock := clock } else none
  | .resolve i =>
    match s.phases i with
    | .idle => some (s.resolve requests i)
    | _ => none
  | .resume i =>
    match s.phases i with
    | .waiting n again => s.resume requests i n again
    | _ => none
  | .selected i =>
    match s.phases i with
    | .matching d source checked again =>
        some (s.selected requests select i d source checked again)
    | _ => none
  | .succeed n d => (s.fetches n).bind fun f =>
      if f.settled = none then some ((s.store n f d).settle n f (.succeeded d s.clock)) else none
  | .fail n => (s.fetches n).bind fun f =>
      if f.settled = none then some (s.settle n f .failed) else none
  | .clear key => (s.sets key).pending.bind fun n =>
      if ((s.fetches n).any fun f => f.settled.isSome) = true then some (s.clear key) else none

/-- Any resolutions at once, from empty sets. -/
def resolutions : System (State ι Doc K) (Label ι Doc) where
  initial s := (∀ key, s.sets key = ⟨none, none, none⟩) ∧ (∀ n, s.fetches n = none) ∧
    ∀ i, s.phases i = .idle
  step s l s' := s.step requests select l = some s'

end Steps

end DreamSso.RemoteKeys
