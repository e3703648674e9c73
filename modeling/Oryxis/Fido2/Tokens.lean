/-
This file models asking a security key for an assertion, and the search for the key that holds a
credential. A token is what it answers to the messages sent so far; the dialogs are those of the
protocol: the probe without a touch, the request with and without proof of the user, the PIN
exchange, and the U2F request that is repeated until the key is touched.
-/

import Oryxis.Fido2.Cbor

namespace Oryxis.Fido2

/-! ### Tokens and dialogs -/

/-- A message to a token: the CTAPHID command and the payload. -/
structure Message where
  command : UInt8
  payload : List UInt8
  deriving DecidableEq, Repr

/-- A token by what it says: its capability flags on opening a channel, and its answer to the last
of the messages it was sent. -/
structure Token where
  init : Except Error UInt8
  answer : List Message → Except Error (List UInt8)

/-- A piece of a conversation with a token, from the messages sent before it. -/
def Dialog (Result : Type) : Type :=
  Token → List Message → Except Error Result × List Message

namespace Dialog

variable {Result Next : Type}

def succeed (result : Result) : Dialog Result := fun _ sent => (.ok result, sent)

def andThen (dialog : Dialog Result) (next : Result → Dialog Next) : Dialog Next :=
  fun token sent =>
    match dialog token sent with
    | (.error error, later) => (.error error, later)
    | (.ok result, later) => next result token later

instance : Monad Dialog where
  pure := succeed
  bind := andThen

def fail (error : Error) : Dialog Result := fun _ sent => (.error error, sent)

def ofExcept : Except Error Result → Dialog Result
  | .ok result => succeed result
  | .error error => fail error

/-- The outcome of a dialog, an error being one of them. -/
def attempt (dialog : Dialog Result) : Dialog (Except Error Result) := fun token sent =>
  match dialog token sent with
  | (outcome, later) => (.ok outcome, later)

end Dialog

open Dialog

def callCommandFor (command : UInt8) (payload : List UInt8) : Dialog (List UInt8) :=
  fun token sent =>
    (token.answer (sent ++ [⟨command, payload⟩]), sent ++ [⟨command, payload⟩])

def call (payload : List UInt8) : Dialog (List UInt8) := callCommandFor cmdCbor payload

def capflagCbor : UInt8 := 0x04

/-- Open a channel: whether the token speaks CTAP2. -/
def openChannel : Dialog Bool := fun token sent =>
  match token.init with
  | .ok capabilities => (.ok (capabilities &&& capflagCbor != 0), sent)
  | .error error => (.error error, sent)

/-! ### Status codes -/

def ctap2Ok : UInt8 := 0x00

def ctap2ErrNoCredentials : UInt8 := 0x2e

def ctap2ErrPinInvalid : UInt8 := 0x31

def ctap2ErrPuatRequired : UInt8 := 0x36

def ctap2ErrPinPolicyViolation : UInt8 := 0x37

def mapCtapError (code : UInt8) : Error :=
  match code.toNat with
  | 0x2e => .credentialNotFound
  | 0x2d | 0x27 => .cancelled
  | 0x05 | 0x2f | 0x3a => .touchTimeout
  | 0x36 => .pinRequired
  | 0x35 => .pinNotSet
  | 0x31 | 0x33 => .pinInvalid 0
  | 0x32 => .pinBlocked "reset the key with a FIDO2 tool"
  | 0x34 => .pinBlocked "unplug the key and plug it back in"
  | 0x3c => .userVerificationBlocked
  | 0x3b => .transport "the security key requires a touch but none was requested"
  | 0x11 => .malformed "the security key rejected the request's CBOR"
  | 0x12 => .malformed "the security key could not decode the request's CBOR"
  | 0x14 => .malformed "the security key wanted a parameter the request left out"
  | 0x2b | 0x2c => .malformed ("the security key does not accept one of the options the " ++
      "request asked for")
  | 0x26 => .malformed "the security key does not support this key's algorithm"
  | 0x39 => .malformed "the request was larger than the security key accepts"
  | _ => .transport ("the security key returned CTAP2 status 0x" ++ hex code)

/-- A call no person takes part in: the entries of the reply's map, or the status code. -/
def callMap (command : UInt8) (parameters : Option (List UInt8)) :
    Dialog (Except UInt8 (List (Value × Value))) := do
  let response ← call (command :: parameters.getD [])
  match response with
  | [] => fail (.malformed "empty CTAP2 response")
  | code :: rest =>
    if code = ctap2Ok then
      if rest = [] then pure (.ok [])
      else do
        let (value, _) ← ofExcept (decode rest)
        let entries ← ofExcept value.intoMap
        pure (.ok entries)
    else pure (.error code)

/-! ### What a token says of itself -/

structure Info where
  options : List (String × Bool)
  pinProtocols : List Nat

namespace Info

def option (name : String) (info : Info) : Option Bool :=
  info.options.findSome? fun (key, value) => if key = name then some value else none

def flag : Value × Value → Option (String × Bool)
  | (.text name, .bool flag) => some (name, flag)
  | _ => none

/-- One entry of the reply. -/
def read (info : Info) : Value × Value → Info
  | (.uint 0x04, .map options) => { info with options := info.options ++ options.filterMap flag }
  | (.uint 0x06, .array protocols) => { info with pinProtocols := protocols.filterMap Value.asUint }
  | _ => info

end Info

def ctap2GetInfo : UInt8 := 0x04

def getInfo : Dialog Info := do
  match ← callMap ctap2GetInfo none with
  | .ok entries => pure (entries.foldl Info.read ⟨[], []⟩)
  | .error code => fail (mapCtapError code)

/-! ### The PIN exchange -/

/-- The platform's half of a key agreement: what to send, and the two ways of the shared secret. -/
structure Agreement where
  x : Hash
  y : Hash
  encrypt : List UInt8 → Except Error (List UInt8)
  decrypt : List UInt8 → Except Error (List UInt8)

/-- The algorithms the exchange rests on. -/
structure Crypto where
  sha256 : List UInt8 → Hash
  hmac : List UInt8 → List UInt8 → Hash
  agree : Protocol → List UInt8 → List UInt8 → Except Error Agreement

structure PinPrompt where
  retries : Option Nat
  retry : Bool

/-- Who is asked for a PIN, and how often a U2F key is asked again before the time for a touch is
over. -/
structure Interaction where
  pin : Option (PinPrompt → Option String)
  patience : Nat

/-- The first protocol of the token's list that is spoken here. -/
def Protocol.negotiate (offered : List Nat) : Option Protocol :=
  if offered = [] then some .one
  else offered.findSome? fun id =>
    if id = 1 then some .one else if id = 2 then some .two else none

def ctap2ClientPin : UInt8 := 0x06

def pinGetRetries : Nat := 0x01

def pinGetKeyAgreement : Nat := 0x02

def pinGetPinToken : Nat := 0x05

def pinGetTokenWithPermissions : Nat := 0x09

def permissionGetAssertion : Nat := 0x02

def maxPinAttempts : Nat := 3

/-- The first value under a key that it is one of. -/
def valueUnder {Result : Type} (key : Nat) (read : Value → Option Result)
    (entries : List (Value × Value)) : Option Result :=
  entries.findSome? fun (name, value) => if name.asUint = some key then read value else none

def pinRetries (protocol : Protocol) : Dialog (Option Nat) := do
  let parameters :=
    ((((Cbor.new.map 2).uint 0x01).uint protocol.id).uint 0x02).uint pinGetRetries
  match ← attempt (callMap ctap2ClientPin (some parameters.bytes)) with
  | .ok (.ok entries) =>
    pure (valueUnder 0x03 (fun value => value.asUint.filter fun n => n < 2 ^ 32) entries)
  | .ok (.error _) | .error _ => pure none

/-- A coordinate of the token's public key. -/
def coordinate (label : Int) (key : List (Value × Value)) : Except Error (List UInt8) :=
  match key.findSome? fun (name, value) =>
      if name.asInt = some label then value.asBytes else none with
  | some bytes => .ok bytes
  | none => .error (.malformed "the keyAgreement key lacks a coordinate")

def keyAgreement (protocol : Protocol) : Dialog (List UInt8 × List UInt8) := do
  let parameters :=
    ((((Cbor.new.map 2).uint 0x01).uint protocol.id).uint 0x02).uint pinGetKeyAgreement
  match ← callMap ctap2ClientPin (some parameters.bytes) with
  | .error code => fail (mapCtapError code)
  | .ok entries =>
    match valueUnder 0x01 some entries with
    | none => fail (.malformed "no keyAgreement in the PIN response")
    | some value => do
      let key ← ofExcept value.intoMap
      let x ← ofExcept (coordinate (-2) key)
      let y ← ofExcept (coordinate (-3) key)
      pure (x, y)

/-- The platform key-agreement key, its keys in canonical order. -/
def coseKey (x y : Hash) (cbor : Cbor) : Cbor :=
  let cbor := cbor.map 5
  let cbor := (cbor.uint 1).uint 2
  let cbor := (cbor.uint 3).int (-25)
  let cbor := (cbor.int (-1)).uint 1
  let cbor := (cbor.int (-2)).byteString x.bytes
  (cbor.int (-3)).byteString y.bytes

/-- The request that trades a PIN for a token. -/
def pinTokenParameters (protocol : Protocol) (permitted : Bool) (agreement : Agreement)
    (pinHashEnc : List UInt8) (rpId : String) : List UInt8 :=
  let cbor := Cbor.new.map (if permitted then 6 else 4)
  let cbor := (cbor.uint 0x01).uint protocol.id
  let cbor := (cbor.uint 0x02).uint (if permitted then pinGetTokenWithPermissions else pinGetPinToken)
  let cbor := coseKey agreement.x agreement.y (cbor.uint 0x03)
  let cbor := (cbor.uint 0x06).byteString pinHashEnc
  if permitted then
    ((((cbor.uint 0x09).uint permissionGetAssertion).uint 0x0a).text rpId).bytes
  else cbor.bytes

section Asking

variable (crypto : Crypto) (interaction : Interaction)

/-- Ask for the PIN, so many times at most. -/
def pinAttempts (source : PinPrompt → Option String) (protocol : Protocol) (permitted : Bool)
    (rpId : String) : Nat → Option Nat → Bool → Dialog (List UInt8)
  | 0, retries, _ => fail (.pinInvalid (retries.getD 0))
  | attempts + 1, retries, retry => do
    if retries = some 0 then fail (.pinBlocked "reset the key with a FIDO2 tool")
    else
      match source ⟨retries, retry⟩ with
      | none => fail .cancelled
      | some pin => do
        let (x, y) ← keyAgreement protocol
        let agreement ← ofExcept (crypto.agree protocol x y)
        let pinHash := (crypto.sha256 (Library.utf8Bytes pin.toList)).bytes.take 16
        let pinHashEnc ← ofExcept (agreement.encrypt pinHash)
        match ← callMap ctap2ClientPin
            (some (pinTokenParameters protocol permitted agreement pinHashEnc rpId)) with
        | .ok entries =>
          match valueUnder 0x02 Value.asBytes entries with
          | none => fail (.malformed "no pinUvAuthToken in the PIN response")
          | some encrypted => ofExcept (agreement.decrypt encrypted)
        | .error code =>
          if code = ctap2ErrPinInvalid then do
            let retries ← pinRetries protocol
            pinAttempts source protocol permitted rpId attempts retries true
          else if code = ctap2ErrPinPolicyViolation then
            pinAttempts source protocol permitted rpId attempts retries true
          else fail (mapCtapError code)

/-- Ask for the PIN and trade it for a pinUvAuthToken. -/
def pinToken (protocol : Protocol) (info : Info) (rpId : String) : Dialog (List UInt8) := do
  match interaction.pin with
  | none => fail .pinRequired
  | some source => do
    let permitted := info.option "pinUvAuthToken" = some true
    let retries ← pinRetries protocol
    pinAttempts crypto source protocol permitted rpId maxPinAttempts retries false

/-- Built-in verification when the token has it configured, else the PIN. -/
def Verification.choose (info : Info) (request : AssertionRequest) : Dialog Verification :=
  if info.option "uv" = some true then pure .builtIn
  else
    match info.option "clientPin" with
    | some false => fail .pinNotSet
    | none => fail (.unsupportedByToken ("it has neither a PIN nor built-in verification, and " ++
        "this key requires user verification"))
    | some true =>
      match Protocol.negotiate info.pinProtocols with
      | none => fail (.malformed "the security key speaks no PIN protocol this build knows")
      | some protocol => do
        let token ← pinToken crypto interaction protocol info request.application
        pure (.pin protocol token)

/-! ### Asking for the assertion -/

structure Assertion where
  signature : List UInt8
  flags : UInt8
  counter : Nat
  deriving DecidableEq, Repr

/-- The flags and the counter of authenticator data, which begins with a hash. -/
def assertionOf (authData : List UInt8) (signature : List UInt8) : Assertion where
  signature := signature
  flags := authData.getD 32 0
  counter := fromBe32 (authData.getD 33 0) (authData.getD 34 0) (authData.getD 35 0)
    (authData.getD 36 0)

/-- The last bytes under a key; later entries take the place of earlier ones. -/
def lastBytes (key : Nat) (entries : List (Value × Value)) : Option (List UInt8) :=
  entries.reverse.findSome? fun (name, value) =>
    if name.asUint = some key then value.asBytes else none

def parseGetAssertion (bytes : List UInt8) : Except Error Assertion :=
  match decode (bytes.drop 1) with
  | .error error => .error error
  | .ok (value, _) =>
    match value.intoMap with
    | .error error => .error error
    | .ok entries =>
      match lastBytes 0x02 entries with
      | none => .error (.malformed "no authData")
      | some authData =>
        if authData.length < 37 then
          .error (.malformed ("authData is " ++ toString authData.length ++
            " bytes, too short to carry flags and a counter"))
        else
          match lastBytes 0x03 entries with
          | none => .error (.malformed "no signature")
          | some signature => .ok (assertionOf authData signature)

/-- What is made of a reply, where a demand for verification can be met by going on. -/
def answered (reply : List UInt8) (demanded : Option (Dialog Assertion)) : Dialog Assertion :=
  match reply with
  | [] => fail (.malformed "empty CTAP2 response")
  | code :: _ =>
    if code = ctap2Ok then ofExcept (parseGetAssertion reply)
    else
      match demanded with
      | some again => if code = ctap2ErrPuatRequired then again else fail (mapCtapError code)
      | none => fail (mapCtapError code)

/-- Ask the token itself how the user can be verified, and verify. -/
def verify (request : AssertionRequest) : Dialog Verification := do
  let info ← getInfo
  Verification.choose crypto interaction info request

/-- The request with a proof of the user. -/
def askVerified (request : AssertionRequest) (hash : Hash) (verification : Verification) :
    Dialog Assertion := do
  let payload ← ofExcept (encodeGetAssertion crypto.hmac request hash (some verification))
  let reply ← call payload
  answered reply none

/-- The request without one, unless the token turns out to demand it. -/
def askUnverified (request : AssertionRequest) (hash : Hash) : Dialog Assertion := do
  let payload ← ofExcept (encodeGetAssertion crypto.hmac request hash none)
  let reply ← call payload
  answered reply (some (do
    let verification ← verify crypto interaction request
    askVerified crypto request hash verification))

/-! ### U2F -/

def u2fEnforcePresence : UInt8 := 0x03

def u2fCheckOnly : UInt8 := 0x07

def swOk : Nat := 0x9000

def swConditionsNotSatisfied : Nat := 0x6985

def swWrongData : Nat := 0x6a80

/-- An authentication request in extended-length form. -/
def u2fApdu (control : UInt8) (hash : Hash) (application : String) (handle : List UInt8) :
    Except Error (List UInt8) :=
  if handle.length < 256 then
    .ok ([0x00, 0x02, control, 0x00, 0x00] ++ toBe16 (32 + 32 + 1 + handle.length) ++ hash.bytes
      ++ (crypto.sha256 (Library.utf8Bytes application.toList)).bytes
      ++ [UInt8.ofNat handle.length] ++ handle ++ [0x00, 0x00])
  else .error (.malformed "a U2F key handle is at most 255 bytes")

/-- The trailing status word of a reply. -/
def statusWord (reply : List UInt8) : Except Error Nat :=
  match reply.reverse with
  | low :: high :: _ => .ok (fromBe16 high low)
  | _ => .error (.malformed "U2F response shorter than a status word")

/-- A signed reply: the user presence, the counter and the signature before the status word. -/
def u2fAssertion (reply : List UInt8) : Except Error Assertion :=
  let body := reply.take (reply.length - 2)
  if body.length < 6 then .error (.malformed "U2F signature response too short")
  else .ok {
    signature := body.drop 5
    flags := body.getD 0 0
    counter := fromBe32 (body.getD 1 0) (body.getD 2 0) (body.getD 3 0) (body.getD 4 0) }

/-- Ask for a signature; what is done while the key waits for a touch is given. -/
def u2fTurn (apdu : List UInt8) (waiting : Dialog Assertion) : Dialog Assertion := do
  let reply ← callCommandFor cmdMsg apdu
  let status ← ofExcept (statusWord reply)
  if status = swOk then ofExcept (u2fAssertion reply)
  else if status = swConditionsNotSatisfied then waiting
  else if status = swWrongData then fail .credentialNotFound
  else fail (.transport ("the U2F security key answered status 0x" ++
    hex (UInt8.ofNat (status / 256)) ++ hex (UInt8.ofNat status)))

/-- Ask for a signature, and again while the key waits for a touch and there is time. -/
def u2fSign (apdu : List UInt8) : Nat → Dialog Assertion
  | 0 => u2fTurn apdu (fail .touchTimeout)
  | patience + 1 => u2fTurn apdu (u2fSign apdu patience)

def u2fAuthenticate (request : AssertionRequest) (hash : Hash) : Dialog Assertion :=
  if request.userVerification then
    fail (.unsupportedByToken "it is a U2F-only key, and this credential requires user verification")
  else
    match request.allow with
    | none => fail .credentialNotFound
    | some handle => do
      let apdu ← ofExcept (u2fApdu crypto u2fEnforcePresence hash request.application handle)
      u2fSign apdu interaction.patience

/-! ### The search -/

/-- Ask a token for the assertion. -/
def getAssertion (request : AssertionRequest) : Dialog Assertion := do
  let hash := crypto.sha256 request.message
  let cbor ← openChannel
  if !cbor then u2fAuthenticate crypto interaction request hash
  else if request.userVerification then do
    let verification ← verify crypto interaction request
    askVerified crypto request hash verification
  else askUnverified crypto interaction request hash

/-- The request that neither asks for a touch nor for verification. -/
def AssertionRequest.silent (request : AssertionRequest) : AssertionRequest :=
  { request with userPresence := false, userVerification := false }

/-- Whether the token holds the handle, asked without a touch. -/
def holdsCredential (request : AssertionRequest) (handle : List UInt8) : Dialog Bool := do
  let hash := crypto.sha256 request.message
  let cbor ← openChannel
  if !cbor then do
    let apdu ← ofExcept (u2fApdu crypto u2fCheckOnly hash request.application handle)
    let reply ← callCommandFor cmdMsg apdu
    let status ← ofExcept (statusWord reply)
    pure (status == swConditionsNotSatisfied)
  else do
    let payload ← ofExcept (encodeGetAssertion crypto.hmac request.silent hash none)
    let reply ← call payload
    match reply with
    | [] => pure false
    | code :: _ => pure (code == ctap2Ok || code == ctap2ErrPuatRequired)

/-- Probe the devices one after the other, and ask the first that may hold the handle. -/
def search (request : AssertionRequest) (handle : List UInt8) :
    List Token → Except Error Assertion
  | [] => .error .credentialNotFound
  | device :: devices =>
    match holdsCredential crypto request handle device [] with
    | (.ok true, sent) => (getAssertion crypto interaction request device sent).1
    | (.ok false, _) => search request handle devices
    | (.error .cancelled, _) => .error .cancelled
    | (.error _, _) => search request handle devices

/-- Run the request on whichever of the devices holds the credential. -/
def getAssertionFrom (request : AssertionRequest) (devices : List Token) :
    Except Error Assertion :=
  match request.allow, decide (1 < devices.length) with
  | some handle, true => search crypto interaction request handle devices
  | _, _ =>
    match devices with
    | [] => .error (.deviceNotFound "no FIDO security key is plugged in")
    | first :: _ => (getAssertion crypto interaction request first []).1

end Asking

end Oryxis.Fido2
