import DreamSso.Library.CanonicalJson
import DreamSso.Library.PrettyJson
import DreamSso.Library.NumberValues
import DreamSso.Library.ThrowingStore

/-!
The draft of a client form that one browser tab keeps: what of a form may be kept, and how
a draft is written, read, cleared and settled. The URL parser of the browser is a parameter.
-/
namespace DreamSso.ClientDrafts

open JsStrings JsonValues JsonValues.Json JsConversions JsonText PrettyJson ThrowingStore
  NumberValues

def draftTtl : ℕ := 2 * 60 * 60000

def draftMax : ℕ := 64 * 1024

/-- The members of an object. -/
abbrev Members := List (JsString × Json)

inductive Field
  | clientId | name | hostname | redirectPaths | eventsPath | keyMode | jwksPath | jwksText
  | allowedScopes | isFirstParty | entryPolicy
  deriving DecidableEq

def Field.key : Field → String
  | .clientId => "client_id"
  | .name => "name"
  | .hostname => "hostname"
  | .redirectPaths => "redirect_paths"
  | .eventsPath => "events_path"
  | .keyMode => "key_mode"
  | .jwksPath => "jwks_path"
  | .jwksText => "jwks_text"
  | .allowedScopes => "allowed_scopes"
  | .isFirstParty => "is_first_party"
  | .entryPolicy => "entry_policy"

def fields : List Field :=
  [.clientId, .name, .hostname, .redirectPaths, .eventsPath, .keyMode, .jwksPath, .jwksText,
    .allowedScopes, .isFirstParty, .entryPolicy]

def fieldKeys : List JsString := fields.map fun key => js key.key

/-- Two values with the same text; an absent one has none. -/
def same (a b : Option Json) : Bool := decide (a.map stringify = b.map stringify)

def oversized (raw : JsString) : Bool :=
  decide (draftMax < raw.length) || decide (draftMax < byteLength raw)

def short : Json → Bool
  | .str s => decide (s.length ≤ 4096)
  | _ => false

section PublicKeys

def isPublicUnit (u : ℕ) : Bool :=
  isDigitUnit u || decide (0x41 ≤ u ∧ u ≤ 0x5a) || decide (0x61 ≤ u ∧ u ≤ 0x7a) ||
    decide (u = 0x5f) || decide (u = 0x2d)

def publicPart : Option Json → Bool
  | some (.str s) => !s.isEmpty && s.all isPublicUnit && decide (s.length ≤ 16384)
  | _ => false

/-- The members that make up the key of a type. -/
def keyParts (kty : Option Json) : Option (List String) :=
  if kty = some (text "RSA") then some ["n", "e"]
  else if kty = some (text "EC") then some ["x", "y"]
  else if kty = some (text "OKP") then some ["x"]
  else none

def signatureAlgs : List String :=
  ["RS256", "RS384", "RS512", "PS256", "PS384", "PS512", "ES256", "ES384", "ES512", "EdDSA"]

/-- An absent member passes. -/
def passes (check : Json → Bool) : Option Json → Bool
  | none => true
  | some v => check v

def isKid : Json → Bool
  | .str s => decide (s.length ≤ 4096) && decide (s.length ≤ 256)
  | _ => false

def oneOf (texts : List String) (v : Json) : Bool := decide (v ∈ texts.map text)

def allowedMembers (kty : Option Json) (parts : List String) : List JsString :=
  (["kty", "kid", "use", "alg", "key_ops"] ++ parts ++
    if kty = some (text "RSA") then [] else ["crv"]).map js

def publicKey : Json → Bool
  | .obj key =>
      let get := fun name : String => member? key (js name)
      match keyParts (get "kty") with
      | none => false
      | some parts =>
          parts.all (fun p => publicPart (get p)) &&
            key.all (fun m => decide (m.1 ∈ allowedMembers (get "kty") parts)) &&
            passes isKid (get "kid") && passes (oneOf ["sig"]) (get "use") &&
            passes (oneOf signatureAlgs) (get "alg") &&
            passes (fun v => decide (v = .arr [text "verify"])) (get "key_ops") &&
            (decide (get "kty" ≠ some (text "EC")) ||
              (get "crv").any (oneOf ["P-256", "P-384", "P-521"])) &&
            (decide (get "kty" ≠ some (text "OKP")) ||
              decide (get "crv" = some (text "Ed25519")))
  | _ => false

/-- The public key set of a parsed text. -/
def publicSet : Json → Bool
  | .obj j =>
      j.all (fun m => decide (m.1 = js "keys")) &&
        match member? j (js "keys") with
        | some (.arr keys) => !keys.isEmpty && decide (keys.length ≤ 20) && keys.all publicKey
        | _ => false
  | _ => false

def publicJwks (s : JsString) : Option JsString :=
  if s = [] then some []
  else if draftMax < s.length then none
  else
    match parse s with
    | none => none
    | some j => if publicSet j then some (pretty 0 j) else none

end PublicKeys

section UrlParts

/-- What the URL parser of the browser tells about a URL. -/
structure UrlView where
  protocol : JsString
  username : JsString
  password : JsString
  search : JsString
  hash : JsString

abbrev UrlParser := JsString → Option UrlView

def lower (u : ℕ) : ℕ := if 0x41 ≤ u ∧ u ≤ 0x5a then u + 0x20 else u

def isLetterUnit (u : ℕ) : Bool := decide (0x41 ≤ u ∧ u ≤ 0x5a) || decide (0x61 ≤ u ∧ u ≤ 0x7a)

/-- One of `?#@\`, white space or a control. -/
def isUnsafeUnit (u : ℕ) : Bool :=
  [0x3f, 0x23, 0x40, 0x5c].contains u || isSpaceUnit u || decide (u ≤ 0x1f)

/-- An escaped question mark, number sign or at sign is somewhere in the text. -/
def hasEscapedMark : JsString → Bool
  | [] => false
  | u :: rest =>
      (decide (u = 0x25) && [js "3f", js "23", js "40"].contains ((rest.take 2).map lower)) ||
        hasEscapedMark rest

def isHostnameUnit (u : ℕ) : Bool :=
  isLetterUnit u || isDigitUnit u || decide (u = 0x2e) || decide (u = 0x2d)

/-- The text behind `http://` or `https://`. -/
def dropHttp (s : JsString) : JsString :=
  let lowered := s.map lower
  if (js "https://").isPrefixOf lowered then s.drop 8
  else if (js "http://").isPrefixOf lowered then s.drop 7
  else s

/-- A name with or without a scheme, and perhaps one slash behind it. -/
def isHostText (s : JsString) : Bool :=
  let rest := dropHttp s
  let name := if rest.getLast? = some 0x2f then rest.dropLast else rest
  !name.isEmpty && name.all isHostnameUnit

def isSchemeUnit (u : ℕ) : Bool :=
  isLetterUnit u || isDigitUnit u || [0x2b, 0x2e, 0x2d].contains u

/-- A scheme and two slashes. -/
def startsScheme (s : JsString) : Bool :=
  s.head?.any isLetterUnit && (js "://").isPrefixOf (s.dropWhile isSchemeUnit)

def isPathUnit (u : ℕ) : Bool :=
  isLetterUnit u || isDigitUnit u || (js "/._~!$&'()*+,;=:%-").contains u

def safeUrl (parseUrl : UrlParser) (s : JsString) : Bool :=
  match parseUrl (if (js "//").isPrefixOf s then js "https:" ++ s else s) with
  | none => false
  | some u => decide (u.protocol = js "https:") && u.username.isEmpty && u.password.isEmpty &&
      u.search.isEmpty && u.hash.isEmpty

def safeUrlPart (parseUrl : UrlParser) (isHost : Bool) : Json → Bool
  | .str s =>
      if 4096 < s.length ∨ s.any isUnsafeUnit = true ∨ hasEscapedMark s = true then false
      else if s = [] then true
      else if isHost then isHostText s
      else if startsScheme s || (js "//").isPrefixOf s then safeUrl parseUrl s
      else s.all isPathUnit
  | _ => false

end UrlParts

section Sanitize

/-- The value itself when it passes. -/
def keep (check : Json → Bool) (v : Json) : Option Json := if check v then some v else none

def isList (limit : ℕ) (check : Json → Bool) : Json → Bool
  | .arr items => decide (items.length ≤ limit) && items.all check
  | _ => false

def isBool : Json → Bool
  | .bool _ => true
  | _ => false

/-- What is kept of one field. -/
def sanitizeField (parseUrl : UrlParser) : Field → Json → Option Json
  | .jwksText => fun v =>
      match v with
      | .str s => (publicJwks s).map .str
      | _ => none
  | .hostname => keep (safeUrlPart parseUrl true)
  | .eventsPath | .jwksPath => keep (safeUrlPart parseUrl false)
  | .redirectPaths => keep (isList 50 (safeUrlPart parseUrl false))
  | .allowedScopes => keep (isList 3 (oneOf ["openid", "profile", "email"]))
  | .isFirstParty => keep isBool
  | .keyMode => keep (oneOf ["uri", "inline"])
  | .entryPolicy => keep (oneOf ["opt_in", "baseline"])
  | .clientId | .name => keep short

/-- The members of the fields that have a value, in the order of the fields. -/
def entries (value : Field → Option Json) : Members :=
  fields.filterMap fun key => (value key).map fun v => (js key.key, v)

def get (form : Members) (key : Field) : Option Json := member? form (js key.key)

def sanitize (parseUrl : UrlParser) (form : Members) : Members :=
  entries fun key => (get form key).bind (sanitizeField parseUrl key)

end Sanitize

/-- A finite number, which is read back from its own text. -/
structure Instant where
  number : JsNumber
  reads : readsBack (.num number) = true
  deriving DecidableEq

def Instant.value (t : Instant) : ℚ := numberValue t.number

/-- The time is outside the life of what was created then. -/
def isOver (now : Instant) (savedAt : ℚ) : Bool :=
  decide (now.value < savedAt) || decide ((draftTtl : ℚ) ≤ now.value - savedAt)

section Storage

abbrev Tab := Store JsString

/-- `target ?? storage()`; the storage is asked for when there is none at hand. -/
def atHand (held : Bool) : Script JsString Unit := if held then pure () else access

def isIdentity (owner route : JsString) (d : Members) : Bool :=
  decide (member? d (js "owner") = some (.str owner)) &&
    decide (member? d (js "route") = some (.str route))

def isText : Option Json → Bool
  | some (.str _) => true
  | _ => false

def clearClientDraft (held : Bool) (owner route : JsString) : Script JsString Bool :=
  tryCatch (do
    atHand held
    match ← getItem with
    | none | some [] => pure true
    | some raw =>
        match parse raw with
        | some (.obj d) =>
            if !isText (member? d (js "owner")) || !isText (member? d (js "route")) then removeItem
            else if isIdentity owner route d then removeItem
            pure true
        | _ => do
            removeItem
            pure true)
    fun _ => pure false

def isOperationUnit (u : ℕ) : Bool := isLetterUnit u || isDigitUnit u || decide (u = 0x2d)

def isOperationId (s : JsString) : Bool :=
  !s.isEmpty && decide (s.length ≤ 80) && s.all isOperationUnit

/-- Null, or a text of the shape of an operation's id. -/
def operationPasses : Option Json → Bool
  | some .null => true
  | some (.str s) => isOperationId s
  | _ => false

def timePasses (now : Instant) : Option Json → Bool
  | some (.num (.infinite _)) => false
  | some (.num n) => !isOver now (numberValue n)
  | _ => false

def omittedPasses : Option Json → Bool
  | some (.arr keys) => keys.all fun key => decide (key ∈ fieldKeys.map .str)
  | _ => false

def contentPasses (parseUrl : UrlParser) : Option Json → Option Json → Bool
  | some (.obj base), some (.obj changes) =>
      decide (stringify (.obj (sanitize parseUrl base)) = stringify (.obj base)) &&
        decide (stringify (.obj (sanitize parseUrl changes)) = stringify (.obj changes)) &&
        changes.all fun m => (member? base m.1).isSome
  | _, _ => false

/-- The checks of a draft that was parsed. -/
def accepted (parseUrl : UrlParser) (owner : JsString) (now : Instant) (d : Members) : Bool :=
  let get := fun name : String => member? d (js name)
  decide (get "version" = some (int 1)) && decide (get "owner" = some (.str owner)) &&
    (get "route").any short && timePasses now (get "savedAt") &&
    (get "uncertain").any isBool && (get "priorUnknown").any isBool &&
    operationPasses (get "operationId") && omittedPasses (get "omitted") &&
    contentPasses parseUrl (get "base") (get "changes")

def readClientDraft (parseUrl : UrlParser) (held : Bool) (owner route : JsString) (now : Instant) :
    Script JsString (Option Members) :=
  tryCatch (do
    atHand held
    tryCatch (do
      match ← getItem with
      | none | some [] => pure none
      | some raw =>
          if oversized raw then throw ()
          else
            match parse raw with
            | some (.obj d) =>
                if accepted parseUrl owner now d then
                  pure (if member? d (js "route") = some (.str route) then some d else none)
                else throw ()
            | _ => throw ())
      -- The handler has the storage at hand.
      fun _ => do
        removeItem
        pure none)
    fun _ => pure none

end Storage

section Writing

structure WriteArgs where
  owner : JsString
  route : JsString
  form : Members
  base : Members
  externalJwksUri : Option JsString := none
  uncertain : Bool := false
  omitted : List JsString := []
  createdAt : Option Instant := none
  operationId : Option JsString := none
  priorUnknown : Option Bool := none
  now : Instant

inductive Reason
  | expired | size | empty | unavailable
  deriving DecidableEq

structure WriteResult where
  saved : Bool
  omitted : List JsString
  savedAt : Option Instant := none
  reason : Option Reason := none
  deriving DecidableEq

def truthy (s : Option JsString) : Bool := s.any fun s => !s.isEmpty

structure Draft where
  owner : JsString
  route : JsString
  savedAt : Instant
  base : Members
  changes : Members
  omitted : List JsString
  uncertain : Bool
  operationId : Option JsString
  priorUnknown : Bool

def Draft.members (d : Draft) : List (String × Json) :=
  [("version", int 1), ("owner", .str d.owner), ("route", .str d.route),
    ("savedAt", .num d.savedAt.number), ("base", .obj d.base), ("changes", .obj d.changes),
    ("omitted", .arr (d.omitted.map .str)), ("uncertain", .bool d.uncertain),
    ("operationId", ofOption .str d.operationId), ("priorUnknown", .bool d.priorUnknown)]

/-- The draft as the object that is written. -/
def Draft.object (d : Draft) : Members := d.members.map fun m => (js m.1, m.2)

def Draft.text (d : Draft) : JsString := stringify (.obj d.object)

section Args

variable (parseUrl : UrlParser) (args : WriteArgs)

def dirty : List Field := fields.filter fun key => !same (get args.form key) (get args.base key)

def keyFields : List Field := [.keyMode, .jwksPath, .jwksText]

/-- A changed field that may not be kept. -/
def withheld (key : Field) : Bool :=
  (get (sanitize parseUrl args.form) key).isNone || (get (sanitize parseUrl args.base) key).isNone ||
    (truthy args.externalJwksUri && keyFields.contains key)

def omittedKeys : List JsString :=
  (args.omitted.filter fieldKeys.contains ++
    ((dirty args).filter (withheld parseUrl args)).map fun key => js key.key).eraseDups

def changes : Members :=
  ((dirty args).filter fun key => !(omittedKeys parseUrl args).contains (js key.key)).filterMap
    fun key => (get (sanitize parseUrl args.form) key).map fun v => (js key.key, v)

/-- The draft of a form with the time it was created. -/
def composed (savedAt : Instant) : Draft where
  owner := args.owner
  route := args.route
  savedAt := savedAt
  base := sanitize parseUrl args.base
  changes := changes parseUrl args
  omitted := omittedKeys parseUrl args
  uncertain := args.uncertain
  operationId := args.operationId
  priorUnknown := args.priorUnknown.getD (args.uncertain && !truthy args.operationId)

end Args

/-- The time of a draft that was read. -/
def savedAt? (d : Members) : Option Instant :=
  match member? d (js "savedAt") with
  | some (.num n) => if h : readsBack (.num n) = true then some ⟨n, h⟩ else none
  | _ => none

def store (parseUrl : UrlParser) (args : WriteArgs) (savedAt : Instant) :
    Script JsString WriteResult :=
  if isOver args.now savedAt.value then do
    let _ ← clearClientDraft true args.owner args.route
    pure ⟨false, args.omitted, some savedAt, some .expired⟩
  else
    let omitted := omittedKeys parseUrl args
    let raw := (composed parseUrl args savedAt).text
    if oversized raw || ((dirty args).isEmpty && !args.uncertain && omitted.isEmpty) then do
      let _ ← clearClientDraft true args.owner args.route
      pure ⟨false, omitted, some savedAt, some (if oversized raw then .size else .empty)⟩
    else do
      setItem raw
      pure ⟨true, omitted, some savedAt, none⟩

def unavailable (held : Bool) (args : WriteArgs) : Script JsString WriteResult := do
  let _ ← clearClientDraft held args.owner args.route
  pure ⟨false, args.omitted, none, some .unavailable⟩

def writeClientDraft (parseUrl : UrlParser) (args : WriteArgs) : Script JsString WriteResult :=
  tryCatch (do
    atHand false
    tryCatch
      (if args.owner = [] ∨ 4096 < args.route.length then pure ⟨false, [], none, none⟩
      else
        match args.createdAt with
        | some savedAt => store parseUrl args savedAt
        | none => do
            let found ← readClientDraft parseUrl true args.owner args.route args.now
            store parseUrl args ((found.bind savedAt?).getD args.now))
      fun _ => unavailable true args)
    fun _ => unavailable false args

end Writing

section Settling

structure SettleArgs where
  owner : JsString
  route : JsString
  operationId : Option JsString
  success : Bool := false
  uncertain : Bool := false
  now : Instant

/-- The draft is of this owner and route and waits for this operation. -/
def awaits (args : SettleArgs) (d : Json) : Bool :=
  match d with
  | .obj d => isIdentity args.owner args.route d &&
      decide (member? d (js "operationId") = args.operationId.map .str) && truthy args.operationId
  | _ => false

/-- The draft without its operation. -/
def settled (uncertain : Bool) (d : Members) : Members :=
  let unknown := decide (member? d (js "priorUnknown") = some (.bool true)) || uncertain
  setMember (setMember (setMember d (js "operationId") .null) (js "uncertain") (.bool unknown))
    (js "priorUnknown") (.bool unknown)

def settleClientDraft (parseUrl : UrlParser) (args : SettleArgs) : Script JsString Bool :=
  tryCatch (do
    atHand false
    match ← getItem with
    | none | some [] => pure false
    | some raw =>
        match parse raw with
        | none => throw ()
        | some identity =>
            if !awaits args identity then pure false
            else
              match ← readClientDraft parseUrl true args.owner args.route args.now with
              | none => pure false
              | some d => do
                  if args.success then removeItem
                  else setItem (stringify (.obj (settled args.uncertain d)))
                  pure true)
    fun _ => pure false

end Settling

end DreamSso.ClientDrafts
