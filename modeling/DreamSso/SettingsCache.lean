import DreamSso.Library.GuardedRuns
import DreamSso.Library.JsStrings

/-!
The in-process cache of one settings key. Between two awaits a call runs alone, so the
look into the cache, each SQL statement and the continuation behind it are one step
each. A statement may be refused, or executed without an answer; `link` says what
happens to the next one. A version that every invalidation raises keeps a read that
began before it from filling the cache.
-/
namespace DreamSso.SettingsCache

open Interleaving JsStrings

structure Cached where
  value : Option JsString
  storedAt : ℤ
  deriving DecidableEq

/-- The stored row, the connection to it, and the memory of the process. -/
structure Process where
  row : Option JsString
  link : Interleaving.Outcome
  clock : ℤ
  cache : Option Cached
  version : ℕ
  deriving DecidableEq

def TTL_MS : ℤ := 5000

inductive Lookup
  | hit (v : Option JsString)
  | miss (version : ℕ)
  deriving DecidableEq

inductive CacheCommand
  | lookup
  | select
  | publish (v : Option JsString) (version : ℕ)
  | execute (v : Option JsString)
  | store (v : Option JsString)
  | commit (v : Option JsString)
  | invalidate
  deriving DecidableEq

abbrev CacheCommand.Reply : CacheCommand → Type
  | .lookup => Lookup
  | .select => Option JsString
  | _ => Unit

def Process.lookup (s : Process) : Lookup :=
  match s.cache with
  | some hit => if s.clock - hit.storedAt < TTL_MS then .hit hit.value else .miss s.version
  | none => .miss s.version

/-- `cache.delete(key)` and the next version. -/
def Process.invalidate (s : Process) : Process := { s with cache := none, version := s.version + 1 }

def Process.fill (s : Process) (v : Option JsString) : Process :=
  { s with cache := some ⟨v, s.clock⟩ }

/-- A statement that replaces or deletes the row. -/
def Process.write (s : Process) (v : Option JsString) : Option Unit × Process :=
  match s.link with
  | .answered => (some (), { s with row := v })
  | .refused => (none, s)
  | .lost => (none, { s with row := v })

def performCache : (c : CacheCommand) → Process → Option c.Reply × Process
  | .lookup, s => (some s.lookup, s)
  | .select, s => (if s.link = .answered then some s.row else none, s)
  | .publish v version, s => (some (), if s.version = version then s.fill v else s)
  | .execute v, s => s.write v
  | .store v, s => (some (), s.invalidate.fill v)
  | .commit v, s => s.write v
  | .invalidate, s => (some (), s.invalidate)

inductive CacheDrift
  | tick (clock : ℤ)
  | connect (link : Interleaving.Outcome)

def cacheServer : Server CacheCommand CacheCommand.Reply Process Unit CacheDrift where
  perform _ c s := performCache c s
  drift e s := match e with
    | .tick clock => some { s with clock := clock }
    | .connect link => some { s with link := link }

/-- An empty value deletes the row. -/
def storedValue (value : Option JsString) : Option JsString := value.filter fun v => decide (v ≠ [])

inductive CacheAnswer
  | read (v : Option JsString)
  | written
  | invalidated
  deriving DecidableEq

abbrev CacheProg (α : Type) := Prog CacheCommand CacheCommand.Reply α

def await (c : CacheCommand) : CacheProg c.Reply := Prog.await c

def readRaw : CacheProg CacheAnswer := do
  match ← await .lookup with
  | .hit v => pure (.read v)
  | .miss version => do
      let v ← await .select
      await (.publish v version)
      pure (.read v)

def writeRaw (value : Option JsString) : CacheProg CacheAnswer := do
  await (.execute (storedValue value))
  await (.store (storedValue value))
  pure .written

/-- `invalidateSettingCache`, after a transaction that commits the setting through its
own connection if there is one. -/
def invalidateSettingCache (committed : Option (Option JsString)) : CacheProg CacheAnswer := do
  match committed with
  | some v => await (.commit v)
  | none => pure ()
  await .invalidate
  pure .invalidated

inductive CacheCall
  | readRaw
  | writeRaw (value : Option JsString)
  | invalidate (committed : Option (Option JsString))

def CacheCall.program : CacheCall → CacheProg CacheAnswer
  | .readRaw => SettingsCache.readRaw
  | .writeRaw value => SettingsCache.writeRaw value
  | .invalidate committed => invalidateSettingCache committed

/-- Where a call is between its steps: a read has missed the cache or has the row it
selected, a write has replaced the row but not yet told the cache. -/
inductive CachePhase
  | idle
  | looked (version : ℕ)
  | selected (v : Option JsString) (version : ℕ)
  | read (v : Option JsString)
  | executed (v : Option JsString)
  | committed
  deriving DecidableEq

def CachePhase.afterLookup : Option Lookup → CachePhase
  | some (.hit v) => .read v
  | some (.miss version) => .looked version
  | none => .idle

def CachePhase.next : CachePhase → (c : CacheCommand) → Option c.Reply → CachePhase
  | _, .lookup, r => .afterLookup r
  | .looked version, .select, some v => .selected v version
  | _, .publish v _, some _ => .read v
  | _, .execute v, some _ => .executed v
  | _, .commit _, some _ => .committed
  | _, _, _ => .idle

def CachePhase.Allows : CachePhase → CacheCommand → Prop
  | .idle, .lookup => True
  | .idle, .execute _ => True
  | .idle, .commit _ => True
  | .idle, .invalidate => True
  | .looked _, .select => True
  | .selected v version, .publish v' version' => v' = v ∧ version' = version
  | .executed v, .store v' => v' = v
  | .committed, .invalidate => True
  | _, _ => False

def cacheProtocol : Protocol CacheCommand CacheCommand.Reply CachePhase where
  next := CachePhase.next
  ok := CachePhase.Allows

/-- The row has been replaced and the cache has not been told. -/
def CachePhase.Open : CachePhase → Prop
  | .executed _ => True
  | .committed => True
  | _ => False

instance : DecidablePred CachePhase.Open
  | .idle => inferInstanceAs (Decidable False)
  | .looked _ => inferInstanceAs (Decidable False)
  | .selected _ _ => inferInstanceAs (Decidable False)
  | .read _ => inferInstanceAs (Decidable False)
  | .executed _ => inferInstanceAs (Decidable True)
  | .committed => inferInstanceAs (Decidable True)

end DreamSso.SettingsCache
