import DreamSso.Library.CanonicalJson
import DreamSso.Library.Interleaving

/-!
Edits of a registered client. The row stores full URLs, the form has one hostname and
paths under it. A PATCH reads the row, merges the fields it sets over the form of the
row, validates the whole, may fetch the keys of a new jwks_uri, and writes every column
of the row; a catalog sync writes the name.
-/
namespace DreamSso.ClientForm

open Interleaving JsConversions JsStrings JsonValues

/-- The parts of a parsed URL. -/
structure Url where
  protocol : JsString
  hostname : JsString
  port : JsString
  pathname : JsString
  search : JsString
  deriving DecidableEq

/-- `new URL`, `none` where it throws, and `toLowerCase`. -/
structure Primitives where
  parseUrl : JsString → Option Url
  toLowerCase : JsString → JsString

-- clientNormalize.ts

structure Norm where
  value : JsString
  error : Option JsString
  deriving DecidableEq

def slash : ℕ := 0x2f

def strip (s : JsString) : JsString :=
  (s.filter fun u => !isSpaceUnit u).map fun u => if u = 0x5c then slash else u

def isLetterUnit (u : ℕ) : Bool := decide (0x41 ≤ u ∧ u ≤ 0x5a) || decide (0x61 ≤ u ∧ u ≤ 0x7a)

/-- What is behind the letters of a scheme, if the text starts with one. -/
def behindScheme (s : JsString) : Option JsString :=
  match s with
  | [] => none
  | u :: rest =>
      if isLetterUnit u then
        some (rest.dropWhile fun u => isLetterUnit u || isDigitUnit u || [0x2b, 0x2e, 0x2d].contains u)
      else none

def dropScheme (s : JsString) : JsString :=
  match (behindScheme s).filter fun rest => (js "://").isPrefixOf rest with
  | some rest => rest.drop 3
  | none => s

def isHostLabel (label : JsString) : Bool :=
  let plain u := isDigitUnit u || decide (0x61 ≤ u ∧ u ≤ 0x7a)
  (label.head?.any plain) && (label.getLast?.any plain) &&
    label.all fun u => plain u || decide (u = 0x2d)

/-- Labels of lower-case letters, digits and inner hyphens, with points between them. -/
def isHostname (s : JsString) : Bool := (s.splitOn 0x2e).all isHostLabel

def portsNotAllowed : JsString := js "Ports aren’t allowed — clients are reached over https (443)"

def checkHostname (v : JsString) : Norm :=
  if v = [] then ⟨v, some (js "Required")⟩
  else if (v.reverse.dropWhile isDigitUnit).head? = some 0x3a then ⟨v, some portsNotAllowed⟩
  else if v.contains 0x3a then ⟨v, some (js "Invalid hostname")⟩
  else if !isHostname v then ⟨v, some (js "Invalid hostname")⟩
  else ⟨v, none⟩

/-- The input without a scheme and without a path, query or fragment. -/
def hostPart (input : JsString) : JsString :=
  let v := dropScheme (strip input)
  let v := if (js "//").isPrefixOf v then v.drop 2 else v
  v.takeWhile fun u => !([slash, 0x3f, 0x23].contains u)

def normalizeHostname (P : Primitives) (input : JsString) : Norm :=
  checkHostname (P.toLowerCase (hostPart input))

def isFullUrl (s : JsString) : Bool :=
  (js "//").isPrefixOf s || (behindScheme s).any fun rest => (js "://").isPrefixOf rest

/-- Runs of slashes become one slash. -/
def collapseSlashes : JsString → JsString
  | [] => []
  | u :: rest =>
      if u = slash ∧ rest.head? = some slash then collapseSlashes rest
      else u :: collapseSlashes rest

/-- The path with a slash in front and single slashes inside. -/
def rooted (v : JsString) : JsString :=
  collapseSlashes (if v.head? = some slash then v else slash :: v)

def normalizeRelative (v : JsString) : Norm :=
  if (rooted v).tail.all fun u => decide (0x21 ≤ u ∧ u ≤ 0x7e) then ⟨rooted v, none⟩
  else ⟨rooted v, some (js "Invalid characters in path")⟩

/-- The path of a URL that was given in full. -/
def pathOfUrl (P : Primitives) (v hostname : JsString) : Norm :=
  match P.parseUrl (if (js "//").isPrefixOf v then js "https:" ++ v else v) with
  | none => ⟨v, some (js "Invalid URL")⟩
  | some u =>
      if hostname = [] then ⟨v, some (js "Set the hostname first")⟩
      else if P.toLowerCase u.hostname ≠ hostname then
        ⟨v, some (js "Belongs to a different host (" ++ P.toLowerCase u.hostname ++ js ")")⟩
      else if u.port ≠ [] then ⟨v, some portsNotAllowed⟩
      else normalizeRelative (u.pathname ++ u.search)

def normalizePath (P : Primitives) (input hostname : JsString) (required : Bool) : Norm :=
  if strip input = [] then ⟨[], if required then some (js "Required") else none⟩
  else if isFullUrl (strip input) then pathOfUrl P (strip input) hostname
  else normalizeRelative (strip input)

def normalizeName (input : JsString) : Norm :=
  let v := trim input
  if v = [] then ⟨v, some (js "Required")⟩
  else if 100 < v.length then ⟨v, some (js "Max 100 characters")⟩
  else ⟨v, none⟩

def composeUrl (hostname path : JsString) : JsString := js "https://" ++ hostname ++ path

def decomposeUrl (P : Primitives) (url hostname : JsString) : Option JsString :=
  match P.parseUrl url with
  | none => none
  | some u => if P.toLowerCase u.hostname = hostname then some (u.pathname ++ u.search) else none

-- routes/admin.ts

def SCOPES : List JsString := [js "openid", js "profile", js "email"]

inductive EntryPolicy
  | optIn
  | baseline
  deriving DecidableEq

def EntryPolicy.text : EntryPolicy → JsString
  | .optIn => js "opt_in"
  | .baseline => js "baseline"

/-- The columns a PATCH writes. -/
structure ClientColumns where
  name : JsString
  isFirstParty : Bool
  entryPolicy : EntryPolicy
  redirectUris : List JsString
  eventsUri : Option JsString
  jwksUri : Option JsString
  jwks : Option Json
  allowedScopes : List JsString
  deriving DecidableEq

structure ClientInput where
  name : JsString
  hostname : JsString
  redirectPaths : List JsString
  eventsPath : Option JsString
  jwksUri : Option JsString
  jwks : Option Json
  allowedScopes : List JsString
  isFirstParty : Bool
  entryPolicy : EntryPolicy
  deriving DecidableEq

inductive Field
  | name
  | hostname
  | redirectPaths
  | eventsPath
  | jwksUri
  | jwks
  | allowedScopes
  | isFirstParty
  | entryPolicy
  deriving DecidableEq

def Field.key : Field → String
  | .name => "name"
  | .hostname => "hostname"
  | .redirectPaths => "redirect_paths"
  | .eventsPath => "events_path"
  | .jwksUri => "jwks_uri"
  | .jwks => "jwks"
  | .allowedScopes => "allowed_scopes"
  | .isFirstParty => "is_first_party"
  | .entryPolicy => "entry_policy"

abbrev Field.Value : Field → Type
  | .name => JsString
  | .hostname => JsString
  | .redirectPaths => List JsString
  | .eventsPath => Option JsString
  | .jwksUri => Option JsString
  | .jwks => Option Json
  | .allowedScopes => List JsString
  | .isFirstParty => Bool
  | .entryPolicy => EntryPolicy

def ClientInput.get (v : ClientInput) : (f : Field) → f.Value
  | .name => v.name
  | .hostname => v.hostname
  | .redirectPaths => v.redirectPaths
  | .eventsPath => v.eventsPath
  | .jwksUri => v.jwksUri
  | .jwks => v.jwks
  | .allowedScopes => v.allowedScopes
  | .isFirstParty => v.isFirstParty
  | .entryPolicy => v.entryPolicy

/-- The text of a value that is one. -/
def stringOr : Json → JsString
  | .str s => s
  | _ => []

def isUrl (P : Primitives) : Json → Bool
  | .str s => match P.parseUrl s with
      | none => false
      | some u => decide (u.protocol = js "https:") ||
          (decide (u.protocol = js "http:") &&
            (decide (u.hostname = js "localhost") || decide (u.hostname = js "127.0.0.1")))
  | _ => false

/-- An object with keys. -/
def isKeySet : Json → Bool
  | .obj members => match Json.member? members (js "keys") with
      | some (.arr keys) => !keys.isEmpty
      | _ => false
  | _ => false

def notNull (v : Json) : Option Json := if v = .null then none else some v

def scopeTexts : Json → Option (List JsString)
  | .arr items => items.mapM fun
      | .str s => if s ∈ SCOPES then some s else none
      | _ => none
  | _ => none

def entryPolicy? (v : Json) : Option EntryPolicy :=
  if v = .str (js "opt_in") then some .optIn
  else if v = .str (js "baseline") then some .baseline
  else none

/-- What the validation makes of one field. A value that is refused does not matter. -/
def valueOf (P : Primitives) (hostname : JsString) : (f : Field) → Json → f.Value
  | .name, v => (normalizeName (stringOr v)).value
  | .hostname, v => (normalizeHostname P (stringOr v)).value
  | .redirectPaths, .arr items =>
      items.map fun raw => (normalizePath P (stringOr raw) hostname true).value
  | .redirectPaths, _ => []
  | .eventsPath, v =>
      let path := (normalizePath P (stringOr v) hostname false).value
      if path = [] then none else some path
  | .jwksUri, .str s => some s
  | .jwksUri, _ => none
  | .jwks, v => notNull v
  | .allowedScopes, v => (scopeTexts v).getD SCOPES
  | .isFirstParty, v => decide (v = .bool true)
  | .entryPolicy, v => (entryPolicy? v).getD .optIn

def normError (key : JsString) (n : Norm) : List (JsString × JsString) :=
  (n.error.map fun text => (key, text)).toList

def pathErrors (P : Primitives) (hostname : JsString) (items : List Json) :
    List (JsString × JsString) :=
  items.zipIdx.flatMap fun p => normError (js "redirect_paths." ++ decimal p.2)
    (normalizePath P (stringOr p.1) hostname true)

def errorsOf (P : Primitives) (hostname : JsString) : Field → Json → List (JsString × JsString)
  | .name, v => normError (js "name") (normalizeName (stringOr v))
  | .hostname, v => normError (js "hostname") (normalizeHostname P (stringOr v))
  | .redirectPaths, .arr (item :: items) => pathErrors P hostname (item :: items)
  | .redirectPaths, _ => [(js "redirect_paths", js "At least one redirect path")]
  | .eventsPath, v => normError (js "events_path") (normalizePath P (stringOr v) hostname false)
  | .jwksUri, v => if v = .null ∨ isUrl P v = true then []
      else [(js "jwks_uri", js "Valid https:// URL or null")]
  | .jwks, v => if v = .null ∨ isKeySet v = true then []
      else [(js "jwks", js "JWKS object with a non-empty keys array, or null")]
  | .allowedScopes, v => if (scopeTexts v).any fun scopes => !scopes.isEmpty then []
      else [(js "allowed_scopes", js "Subset of: openid, profile, email")]
  | .isFirstParty, v => if v = .bool true ∨ v = .bool false then []
      else [(js "is_first_party", js "Must be boolean")]
  | .entryPolicy, v => if (entryPolicy? v).isSome then []
      else [(js "entry_policy", js "opt_in or baseline")]

def FIELDS : List Field :=
  [.name, .hostname, .redirectPaths, .eventsPath, .jwksUri, .jwks, .allowedScopes, .isFirstParty,
    .entryPolicy]

def noKeyError : List (JsString × JsString) :=
  [(js "jwks",
    js "Provide jwks_uri or an inline JWKS (the client cannot authenticate without a key)")]

def validateClientInput (P : Primitives) (body : Field → Json) :
    List (JsString × JsString) × ClientInput :=
  let hostname := valueOf P [] .hostname (body .hostname)
  let value f := valueOf P hostname f (body f)
  let keyless f := decide (f = .jwks ∧ body .jwksUri = .null ∧ body .jwks = .null)
  (FIELDS.flatMap fun f => errorsOf P hostname f (body f) ++ if keyless f then noKeyError else [],
    { name := value .name
      hostname := hostname
      redirectPaths := value .redirectPaths
      eventsPath := value .eventsPath
      jwksUri := value .jwksUri
      jwks := value .jwks
      allowedScopes := value .allowedScopes
      isFirstParty := value .isFirstParty
      entryPolicy := value .entryPolicy })

/-- The hostname of the first redirect URL; empty without one. -/
def hostnameOfRow (P : Primitives) (row : ClientColumns) : JsString :=
  ((row.redirectUris.head?.bind P.parseUrl).map fun u => P.toLowerCase u.hostname).getD []

/-- The field of the form that a row is shown as. -/
def decomposeRow (P : Primitives) (row : ClientColumns) : Field → Json
  | .name => .str row.name
  | .hostname => .str (hostnameOfRow P row)
  | .redirectPaths => .arr
      ((row.redirectUris.filterMap fun url => decomposeUrl P url (hostnameOfRow P row)).map .str)
  | .eventsPath =>
      Json.ofOption .str ((row.eventsUri.filter fun url => decide (url ≠ [])).bind fun url =>
        decomposeUrl P url (hostnameOfRow P row))
  | .jwksUri => Json.ofOption .str row.jwksUri
  | .jwks => row.jwks.getD .null
  | .allowedScopes => .arr (row.allowedScopes.map .str)
  | .isFirstParty => .bool row.isFirstParty
  | .entryPolicy => .str row.entryPolicy.text

/-- The members of a request body. -/
abbrev Body := List (JsString × Json)

def Body.field (body : Body) (f : Field) : Option Json := Json.member? body (js f.key)

def Body.sets (body : Body) (f : Field) : Bool := (body.field f).isSome

def merge (P : Primitives) (row : ClientColumns) (body : Body) (f : Field) : Json :=
  (body.field f).getD (decomposeRow P row f)

def ClientInput.columns (v : ClientInput) : ClientColumns where
  name := v.name
  isFirstParty := v.isFirstParty
  entryPolicy := v.entryPolicy
  redirectUris := v.redirectPaths.map (composeUrl v.hostname)
  eventsUri := v.eventsPath.map (composeUrl v.hostname)
  jwksUri := v.jwksUri
  jwks := v.jwks
  allowedScopes := v.allowedScopes

/-- The keys of a jwks_uri, or why they could not be fetched. -/
abbrev Fetched := Except JsString Json

inductive Command
  | selectClient (clientId : JsString)
  | verifyJwksUri (url : JsString)
  | updateClient (clientId : JsString) (value : ClientInput)
  | syncName (clientId siteName : JsString)

abbrev Command.Reply : Command → Type
  | .selectClient _ => Option ClientColumns
  | .verifyJwksUri _ => Fetched
  | .updateClient _ _ => Unit
  | .syncName _ _ => Unit

abbrev Clients := JsString → Option ClientColumns

/-- `UPDATE` of one client. -/
def Clients.update (s : Clients) (clientId : JsString) (f : ClientColumns → ClientColumns) : Clients :=
  Function.update s clientId ((s clientId).map f)

def perform (fetched : Fetched) : (c : Command) → Clients → Option c.Reply × Clients
  | .selectClient clientId, s => (some (s clientId), s)
  | .verifyJwksUri _, s => (some fetched, s)
  | .updateClient clientId value, s => (some (), s.update clientId fun _ => value.columns)
  | .syncName clientId siteName, s =>
    (some (), s.update clientId fun row => { row with name := siteName })

/-- What a fetch returns is part of its step. -/
def clientServer : Server Command Command.Reply Clients Fetched Unit where
  perform := perform
  drift _ s := some s

abbrev Handler := Prog Command Command.Reply

def await (c : Command) : Handler c.Reply := Prog.await c

inductive Response
  | notFound
  | errors (fields : List (JsString × JsString))
  | noContent
  deriving DecidableEq

/-- The uri to fetch keys from: the request sets it, and it differs from that of the row. -/
def refetches (row : ClientColumns) (body : Body) (value : ClientInput) : Option JsString :=
  if body.sets .jwksUri ∧ value.jwksUri ≠ row.jwksUri then value.jwksUri else none

def updateClient (clientId : JsString) (value : ClientInput) : Handler Response := do
  await (.updateClient clientId value)
  pure .noContent

def fetchAndUpdate (clientId url : JsString) (value : ClientInput) : Handler Response := do
  match ← await (.verifyJwksUri url) with
  | .error text => pure (.errors [(js "jwks_uri", text)])
  | .ok keys => updateClient clientId { value with jwks := some keys }

def writeClient (clientId : JsString) (row : ClientColumns) (body : Body) (value : ClientInput) :
    Handler Response :=
  match refetches row body value with
  | none => updateClient clientId value
  | some url => fetchAndUpdate clientId url value

/-- PATCH /admin/api/clients/:id -/
def patchClient (P : Primitives) (clientId : JsString) (body : Body) : Handler Response := do
  match ← await (.selectClient clientId) with
  | none => pure .notFound
  | some row =>
      let validated := validateClientInput P (merge P row body)
      if validated.1 ≠ [] then pure (.errors validated.1)
      else writeClient clientId row body validated.2

/-- What the transaction of a catalog with a site name does to the row of its client. -/
def applySiteName (clientId siteName : JsString) : Handler Response := do
  await (.syncName clientId siteName)
  pure .noContent

end DreamSso.ClientForm
