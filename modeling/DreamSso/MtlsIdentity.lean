import DreamSso.SettingsCache
import DreamSso.Library.JsConversions
import DreamSso.Library.TextSearch

/-!
The client certificate for outbound calls. Its private key, the key of a certificate
request that is still open, and the certificate are settings of their own, and every read
or write of one is a step. A call that stops between two steps is one whose process
crashed there.
-/
namespace DreamSso.Mtls

open Interleaving JsStrings JsConversions TextSearch
open SettingsCache (storedValue)

inductive Setting
  | cert
  | cn
  | enforce
  | activeKey
  | pendingKey
  | pendingCn
  deriving DecidableEq

/-- What `new X509Certificate` reads out of a block; the export of its key may throw. -/
structure Certificate where
  spki : Option JsString
  cn : Option JsString
  issuer : Option JsString
  notBefore : JsString
  notAfter : JsString
  validTo : ℤ
  deriving DecidableEq

/-- `node:crypto` and the builder of certificate requests. `none` is an exception. -/
structure Crypto where
  certificate : JsString → Option Certificate
  publicKey : JsString → Option JsString
  csr : JsString → JsString → JsString

def BEGIN_MARK : JsString := js "-----BEGIN CERTIFICATE-----"
def END_MARK : JsString := js "-----END CERTIFICATE-----"

/-- The matches of `PEM_CERT_RE`, from left to right. -/
def pemBlocksFrom : ℕ → JsString → List JsString
  | 0, _ => []
  | fuel + 1, s =>
    match cut BEGIN_MARK s with
    | none => []
    | some (_, rest) =>
      match cut END_MARK rest with
      | none => []
      | some (body, behind) => (BEGIN_MARK ++ body ++ END_MARK) :: pemBlocksFrom fuel behind

def pemBlocks (s : JsString) : List JsString := pemBlocksFrom s.length s

structure CertInfo where
  cn : Option JsString
  issuer : Option JsString
  notBefore : JsString
  notAfter : JsString
  expired : Bool
  deriving DecidableEq

def certInfo (crypto : Crypto) (now : ℤ) (certPem : JsString) : Option CertInfo :=
  (crypto.certificate ((pemBlocks certPem).headD certPem)).map fun c =>
    ⟨c.cn, c.issuer, c.notBefore, c.notAfter, decide (c.validTo < now)⟩

inductive Refusal
  | noCert
  | noKey
  | parseFailed
  | expired
  | keyMismatch
  | notConfigured
  deriving DecidableEq

/-- `Array.prototype.join` with a line feed. -/
def joinLines : List JsString → JsString
  | [] => []
  | [line] => line
  | line :: rest => line ++ 0x0a :: joinLines rest

def validateCertAgainstKey (crypto : Crypto) (now : ℤ) (certPem keyPem : JsString) :
    Except Refusal JsString :=
  let blocks := pemBlocks certPem
  if blocks = [] then .error .parseFailed
  else match blocks.mapM crypto.certificate with
    | none => .error .parseFailed
    | some parsed =>
      match crypto.publicKey keyPem with
      | none => .error .keyMismatch
      | some keySpki =>
        let idx := parsed.findIdx fun c => decide (c.spki = some keySpki)
        match parsed[idx]?, blocks[idx]? with
        | some c, some leaf =>
            if c.validTo < now then .error .expired
            else .ok (joinLines (leaf :: blocks.eraseIdx idx))
        | _, _ => .error .keyMismatch

inductive MtlsCommand
  | get (key : Setting)
  | put (key : Setting) (value : Option JsString)
  | now
  deriving DecidableEq

abbrev MtlsCommand.Reply : MtlsCommand → Type
  | .get _ => Option JsString
  | .put _ _ => Unit
  | .now => ℤ

structure Settings where
  value : Setting → Option JsString
  clock : ℤ

/-- What is sealed opens to what it was. -/
def performSettings : (c : MtlsCommand) → Settings → Option c.Reply × Settings
  | .get key, s => (some (s.value key), s)
  | .put key value, s =>
      (some (), { s with value := Function.update s.value key (storedValue value) })
  | .now, s => (some s.clock, s)

def settingsServer : Server MtlsCommand MtlsCommand.Reply Settings Unit ℤ where
  perform _ c s := performSettings c s
  drift clock s := some { s with clock := clock }

inductive Answer
  | csr (cn csr : JsString)
  | installed (info : CertInfo)
  | identity (cert key : JsString)
  | noIdentity
  | status (configured pending enforce : Bool) (info : Option CertInfo)
  | ok
  | refused (reason : Refusal)
  deriving DecidableEq

abbrev MtlsProg (α : Type) := Prog MtlsCommand MtlsCommand.Reply α

def ask (c : MtlsCommand) : MtlsProg c.Reply := Prog.await c

/-- A value that may be an exception. -/
def orThrow {α : Type} : Option α → MtlsProg α
  | some a => .done a
  | none => .thrown

/-- The name for the request: the trimmed input cut to 64 units, or a random one. -/
def requestName (cnInput : Option JsString) (randomCn : JsString) : JsString :=
  match cnInput with
  | some cn => if trim cn = [] then randomCn else (trim cn).take 64
  | none => randomCn

/-- `privateKeyPem` is the key that was generated. -/
def startSetup (crypto : Crypto) (cnInput : Option JsString) (randomCn privateKeyPem : JsString) :
    MtlsProg Answer := do
  let cn := requestName cnInput randomCn
  ask (.put .pendingKey (some privateKeyPem))
  ask (.put .pendingCn (some cn))
  pure (.csr cn (crypto.csr cn privateKeyPem))

/-- What follows a valid certificate. -/
def store (crypto : Crypto) (pendingKey : Option JsString) (chain : JsString) :
    MtlsProg Answer := do
  match pendingKey with
  | some key => do
      ask (.put .activeKey (some key))
      ask (.put .pendingKey none)
      ask (.put .pendingCn none)
  | none => pure ()
  let now ← ask .now
  let info ← orThrow (certInfo crypto now chain)
  ask (.put .cert (some chain))
  ask (.put .cn (some (info.cn.getD [])))
  ask (.put .enforce (some (js "true")))
  pure (.installed info)

def install (crypto : Crypto) (pem : JsString) (pendingKey key : Option JsString) :
    MtlsProg Answer :=
  match key with
  | none => pure (.refused .noKey)
  | some key => do
      let now ← ask .now
      match validateCertAgainstKey crypto now pem key with
      | .error reason => pure (.refused reason)
      | .ok chain => store crypto pendingKey chain

def installCert (crypto : Crypto) (certPem : Option JsString) : MtlsProg Answer := do
  let pem := trim (certPem.getD [])
  if pem = [] then pure (.refused .noCert)
  else do
    let pendingKey ← ask (.get .pendingKey)
    match pendingKey with
    | some key => install crypto pem pendingKey (some key)
    | none => do
        let key ← ask (.get .activeKey)
        install crypto pem none key

def setEnforce (crypto : Crypto) (enabled : Bool) : MtlsProg Answer :=
  if enabled then do
    let cert ← ask (.get .cert)
    match cert with
    | none => pure (.refused .notConfigured)
    | some cert => do
        let now ← ask .now
        let info ← orThrow (certInfo crypto now cert)
        if info.expired then pure (.refused .expired)
        else do
          ask (.put .enforce (some (js "true")))
          pure .ok
  else do
    ask (.put .enforce (some (js "false")))
    pure .ok

def reset : MtlsProg Answer := do
  ask (.put .cert none)
  ask (.put .cn none)
  ask (.put .activeKey none)
  ask (.put .pendingKey none)
  ask (.put .pendingCn none)
  ask (.put .enforce (some (js "false")))
  pure .ok

def outboundIdentity (crypto : Crypto) : MtlsProg Answer := do
  let enforce ← ask (.get .enforce)
  if enforce.getD (js "false") ≠ js "true" then pure .noIdentity
  else do
    let cert ← ask (.get .cert)
    let key ← ask (.get .activeKey)
    match cert, key with
    | some cert, some key => do
        let now ← ask .now
        let info ← orThrow (certInfo crypto now cert)
        if info.expired then pure .noIdentity else pure (.identity cert key)
    | _, _ => pure .noIdentity

def getStatus (crypto : Crypto) : MtlsProg Answer := do
  let cert ← ask (.get .cert)
  match cert with
  | none => do
      let pending ← ask (.get .pendingKey)
      pure (.status false pending.isSome false none)
  | some cert => do
      let now ← ask .now
      let info ← orThrow (certInfo crypto now cert)
      let enforce ← ask (.get .enforce)
      pure (.status true false
        (decide (enforce.getD (js "false") = js "true") && !info.expired) (some info))

inductive Call
  | startSetup (cnInput : Option JsString) (randomCn privateKeyPem : JsString)
  | installCert (certPem : Option JsString)
  | setEnforce (enabled : Bool)
  | reset
  | outboundIdentity
  | getStatus

def Call.program (crypto : Crypto) : Call → MtlsProg Answer
  | .startSetup cnInput randomCn privateKeyPem =>
      Mtls.startSetup crypto cnInput randomCn privateKeyPem
  | .installCert certPem => Mtls.installCert crypto certPem
  | .setEnforce enabled => Mtls.setEnforce crypto enabled
  | .reset => Mtls.reset
  | .outboundIdentity => Mtls.outboundIdentity crypto
  | .getStatus => Mtls.getStatus crypto

/-- The leaf of a chain, its first block, carries the public key of a private key. -/
def LeafMatches (crypto : Crypto) (certPem keyPem : JsString) : Prop :=
  ∃ leaf c, (pemBlocks certPem).head? = some leaf ∧ crypto.certificate leaf = some c ∧
    c.spki.isSome = true ∧ c.spki = crypto.publicKey keyPem

/-- Where a call is. An installation has read the pending key or, without one, the active
key, or has promoted the key it read; a reader has the certificate, then both. -/
inductive Phase
  | setup
  | resetting
  | other
  | install
  | pending (key : Option JsString)
  | renewing (key : Option JsString)
  | promoted (key : JsString)
  | outbound
  | certRead (cert : Option JsString)
  | pairRead (cert key : Option JsString)
  deriving DecidableEq

def Call.start : Call → Phase
  | .startSetup _ _ _ => .setup
  | .installCert _ => .install
  | .reset => .resetting
  | .outboundIdentity => .outbound
  | .setEnforce _ => .other
  | .getStatus => .other

def Phase.next : Phase → (c : MtlsCommand) → Option c.Reply → Phase
  | .install, .get .pendingKey, some key => .pending key
  | .pending none, .get .activeKey, some key => .renewing key
  | .pending _, .put .activeKey (some key), some _ => .promoted key
  | .outbound, .get .cert, some cert => .certRead cert
  | .certRead cert, .get .activeKey, some key => .pairRead cert key
  | g, _, _ => g

/-- A certificate is stored when it was validated against the key that was read, and a key
is cleared by a setup, a reset or an installation that promoted one. -/
def Phase.Allows (crypto : Crypto) : Phase → MtlsCommand → Prop
  | _, .now => True
  | .outbound, .get .enforce => True
  | .outbound, .get .cert => True
  | .certRead _, .get .activeKey => True
  | .install, .get .pendingKey => True
  | .pending none, .get .activeKey => True
  | .pending (some key), .put .activeKey value => value = some key
  | .renewing (some key), .put .cert value => ∃ chain, value = some chain ∧
      LeafMatches crypto chain key
  | .renewing (some _), .put setting _ => setting = .cn ∨ setting = .enforce
  | .promoted key, .put .cert value => ∃ chain, value = some chain ∧ LeafMatches crypto chain key
  | .promoted _, .put .activeKey _ => False
  | .promoted _, .put .pendingKey value => value = none
  | .promoted _, .put _ _ => True
  | .setup, .put setting _ => setting = .pendingKey ∨ setting = .pendingCn
  | .resetting, .put setting value => value = none ∨ setting = .enforce
  | .other, .get _ => True
  | .other, .put setting _ => setting = .enforce
  | _, _ => False

def mtlsProtocol (crypto : Crypto) : Protocol MtlsCommand MtlsCommand.Reply Phase where
  next := Phase.next
  ok := Phase.Allows crypto

end DreamSso.Mtls
