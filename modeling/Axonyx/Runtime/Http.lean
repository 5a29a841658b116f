import Axonyx.Text
import Axonyx.Wire

/-! The parts of an HTTP request that credentials are read from, and the two kinds of
tags on them: signed session cookies and mutation proofs. `Mac` stands for HMAC-SHA256. -/
namespace Axonyx.Runtime

open Text (hexDigit)

inductive AxRuntimeError where
  | message (text : String)
  | database (resource : String) (detail : String)
  deriving DecidableEq, Repr

abbrev AxRuntimeResult := Except AxRuntimeError

/-- A computation that succeeds succeeded at every `?`. -/
theorem bind_eq_ok {ε α β : Type} {first : Except ε α} {next : α → Except ε β} {value : β}
    (done : (first >>= next) = .ok value) : ∃ a, first = .ok a ∧ next a = .ok value := by
  cases first with
  | error error => cases done
  | ok a => exact ⟨a, rfl, done⟩

structure AxMultipartForm where
  fields : List (String × String)

/-- Headers stand in the order of the map that holds them. -/
structure AxHttpRequest where
  method : String
  headers : List (String × String)
  body : List UInt8
  multipart : Option AxMultipartForm

def hexEncode (bytes : List UInt8) : String :=
  .ofList (bytes.flatMap fun byte => [hexDigit (byte.toNat / 16), hexDigit (byte.toNat % 16)])

/-- Pairs of bytes through a reader of one hexadecimal digit. -/
def hexPairs (digit : UInt8 → Option UInt8) : List UInt8 → Option (List UInt8)
  | [] => some []
  | [_] => none
  | high :: low :: rest => do
    let high ← digit high
    let low ← digit low
    return (high * 16 + low) :: (← hexPairs digit rest)

/-- `nibble` of the proof module: lower-case digits only. -/
def nibble (value : UInt8) : Option UInt8 :=
  if 0x30 ≤ value ∧ value ≤ 0x39 then some (value - 0x30)
  else if 0x61 ≤ value ∧ value ≤ 0x66 then some (value - 0x61 + 10)
  else none

def hexValue (byte : UInt8) : Option UInt8 :=
  if 0x30 ≤ byte ∧ byte ≤ 0x39 then some (byte - 0x30)
  else if 0x61 ≤ byte ∧ byte ≤ 0x66 then some (byte - 0x61 + 10)
  else if 0x41 ≤ byte ∧ byte ≤ 0x46 then some (byte - 0x41 + 10)
  else none

def hexDecode (input : String) : Option (List UInt8) := hexPairs hexValue (Wire.utf8 input)

namespace AxHttpRequest

def headerValue (request : AxHttpRequest) (name : String) : Option String :=
  (request.headers.find? fun header => Text.eqIgnoreAsciiCase header.1 name).map Prod.snd

/-- One `key=value` pair of a `Cookie` header. -/
def cookiePair (name pair : String) : Option String :=
  match Text.splitOnce (Text.trim pair) "=" with
  | some (key, value) => if key = name then some value else none
  | none => none

def cookieValue (request : AxHttpRequest) (name : String) : Option String :=
  (request.headerValue "Cookie").bind fun cookies =>
    (Text.split cookies ';').findSome? (cookiePair name)

/-- `url_decode` on bytes; a percent sign needs two hexadecimal digits after it. -/
def urlDecodeBytes : List UInt8 → List UInt8
  | [] => []
  | 0x2B :: rest => 0x20 :: urlDecodeBytes rest
  | 0x25 :: high :: low :: rest =>
    match hexValue high, hexValue low with
    | some high, some low => (high * 16 + low) :: urlDecodeBytes rest
    | _, _ => 0x25 :: urlDecodeBytes (high :: low :: rest)
  | byte :: rest => byte :: urlDecodeBytes rest

def urlDecode (value : String) : String := Text.fromUtf8Lossy (urlDecodeBytes (Wire.utf8 value))

def parseUrlencodedFields (body : String) : List (String × String) :=
  ((Text.split body '&').filter (!·.isEmpty)).map fun pair =>
    let (key, value) := (Text.splitOnce pair "=").getD (pair, "")
    (urlDecode key, urlDecode value)

/-- The last of several fields with one name stays in the map. -/
def formValue (request : AxHttpRequest) (name : String) : Option String :=
  match request.multipart.bind fun form => form.fields.lookup name with
  | some value => some value
  | none => (parseUrlencodedFields (Text.fromUtf8Lossy request.body)).reverse.lookup name

theorem cookieValue_headerValue {request : AxHttpRequest} {name value : String}
    (found : request.cookieValue name = some value) : (request.headerValue "Cookie").isSome := by
  obtain ⟨cookies, present, _⟩ := Option.bind_eq_some_iff.mp found
  exact Option.isSome_iff_exists.mpr ⟨cookies, present⟩

end AxHttpRequest

/-- HMAC-SHA256 of a payload under a key. -/
abbrev Mac := List UInt8 → List UInt8 → List UInt8

namespace AxAuth

variable (mac : Mac)

def verifySignature (value signature secret : String) : Bool :=
  match hexDecode signature with
  | some signature => mac (Wire.utf8 secret) (Wire.utf8 value) == signature
  | none => false

def signatureHex (value secret : String) : String :=
  hexEncode (mac (Wire.utf8 secret) (Wire.utf8 value))

def signSession (value secret : String) : String := value ++ "." ++ signatureHex mac value secret

def signedCookie (request : AxHttpRequest) (name secret : String) : Option String :=
  match request.cookieValue name with
  | none => none
  | some cookie =>
    match Text.rsplitOnce cookie '.' with
    | none => none
    | some (value, signature) =>
      if verifySignature mac value signature secret then some value else none

end AxAuth

namespace Csrf

variable (mac : Mac)

def tokenStart : String := "axcsrf1."

/-- The bytes a proof signs: apart from every session id, and with the length of the id. -/
def payload (sessionId : String) : List UInt8 :=
  Wire.utf8 "axonyx:csrf:v1\x00" ++ (Wire.leBytes 8 sessionId.utf8ByteSize).reverse ++
    Wire.utf8 sessionId

def sessionMac (sessionId secret : String) : AxRuntimeResult (List UInt8) :=
  if secret.utf8ByteSize < 32 then
    .error (.message "CSRF signing secret must contain at least 32 bytes")
  else .ok (mac (Wire.utf8 secret) (payload sessionId))

def issue (sessionId secret : String) : AxRuntimeResult String := do
  let bytes ← sessionMac mac sessionId secret
  return tokenStart ++ hexEncode bytes

/-- The tag that a token carries. -/
def signature (token : String) : Option (List UInt8) :=
  match Text.stripPrefix token tokenStart with
  | some hex => if hex.utf8ByteSize = 64 then hexPairs nibble (Wire.utf8 hex) else none
  | none => none

def verify (sessionId token secret : String) : AxRuntimeResult Bool := do
  let tag ← sessionMac mac sessionId secret
  return signature token = some tag

end Csrf

end Axonyx.Runtime
