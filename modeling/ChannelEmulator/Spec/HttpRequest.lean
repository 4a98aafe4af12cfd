import ChannelEmulator.Framing.FirstMatch
import ChannelEmulator.Spec.HttpRanges
import Mathlib.Logic.Function.Basic

/-!
# The parsing of requests

`HttpRequest` of `server/httpd/HttpRequest.cpp` with `handle_input` of `ClientService.cpp`: all that was received of
a request is parsed again with each chunk. The version of the protocol, a `float` in the source, is kept as its text.
The parts of a multipart content are left out: `splitParts_` changes nothing else, and throws nothing.
-/

namespace ChannelEmulator.Http

/-! ## The expressions -/

/-- `[A-Z]`. -/
def isCapital (b : Octet) : Bool := 65 ≤ b && b ≤ 90

/-- `[\w\-_]`. -/
def isWord (b : Octet) : Bool := isDigit b || isCapital b || (97 ≤ b && b ≤ 122) || b == 95 || b == 45

/-- `\s+HTTP/(.{3})\s*$`, with what it captures. -/
def reVersion (u : Bytes) : Option Bytes :=
  let v := u.dropWhile isSpace
  if u.takeWhile isSpace ≠ [] ∧ v.take 5 = ascii "HTTP/" ∧ 8 ≤ v.length ∧ (v.drop 8).all isSpace then
    some ((v.drop 5).take 3)
  else none

/-- `(.+)` before `reVersion`, with what both capture: the longest text that lets the rest match. -/
def reURI (u : Bytes) : Option (Bytes × Bytes) :=
  (List.range u.length).reverse.findSome? fun n =>
    (reVersion (u.drop (n + 1))).map fun version => (u.take (n + 1), version)

/-- `^\s*([A-Z]+)\s+(.+)\s+HTTP/(.{3})\s*$`, with what it captures. -/
def reRequestLine (line : Bytes) : Option (Bytes × Bytes × Bytes) :=
  let u := line.dropWhile isSpace
  let method := u.takeWhile isCapital
  let v := u.dropWhile isCapital
  if method = [] then none
  else
    -- the second `\s+` takes the most octets that let the rest match
    (List.range (v.takeWhile isSpace).length).reverse.findSome? fun n =>
      (reURI (v.drop (n + 1))).map fun captured => (method, captured)

/-- `^\s*([\w\-_]+):\s*(.+)$`, with what it captures. -/
def reHeader (val : Bytes) : Option (Bytes × Bytes) :=
  let u := val.dropWhile isSpace
  let name := u.takeWhile isWord
  match u.dropWhile isWord with
  | 58 :: rest =>
    let value := rest.dropWhile isSpace
    if name = [] ∨ rest = [] then none
    -- where only spaces are left, `\s*` gives the last one back
    else if value = [] then some (name, rest.drop (rest.length - 1))
    else some (name, value)
  | _ => none

/-- The texts between the matches of `(\r\n)`, with the octets of the text that was begun; none for an empty end. -/
def crlfTokens : Bytes → Bytes → List Bytes
  | [], [] => []
  | token, [] => [token]
  | token, 13 :: 10 :: u => token :: crlfTokens [] u
  | token, b :: u => crlfTokens (token ++ [b]) u

/-- `atoi`. -/
def atoiText (u : Bytes) : ℤ :=
  match u.dropWhile isSpace with
  | 45 :: digits => toInt (max (-(decimal (digits.takeWhile isDigit) : ℤ)) (-9223372036854775808))
  | 43 :: digits => atoi (digits.takeWhile isDigit)
  | digits => atoi (digits.takeWhile isDigit)

/-- An `int` that is stored in a `size_t`. -/
def toSize (n : ℤ) : ℕ := (n % 18446744073709551616).toNat

/-- `getAsString`: the length is an `int`, and all octets are taken for a negative one. -/
def getAsString (u : Bytes) (offset length : ℕ) : Bytes :=
  if toInt length < 0 then u.drop offset else (u.drop offset).take (toInt length).toNat

def crLf : Bytes := [13, 10]
def crLfCrLf : Bytes := [13, 10, 13, 10]

/-! ## The headers -/

/-- `HeaderMapType`, by the names in lower case. -/
abbrev HeaderMap := Bytes → Option Bytes

def HeaderMap.set (headers : HeaderMap) (name value : Bytes) : HeaderMap :=
  Function.update headers (name.map toLower) (some value)

/-- The loop over the lines; also whether it got all headers. -/
def headerLoop : List Bytes → HeaderMap → HeaderMap × Bool
  | [], headers => (headers, false)
  | val :: rest, headers =>
    match reHeader val with
    | some (name, value) => headerLoop rest (headers.set name value)
    | none => if val = [] then (headers, true) else headerLoop rest headers

/-- The part of `parseHeaders` that reads the headers, which end at a place. -/
def readHeaders (topHeaders : Bytes) (headers : HeaderMap) (headersEnd : ℕ) : HeaderMap × Except Fault ℕ :=
  match headerLoop (crlfTokens [] topHeaders) headers with
  | (headers, true) => (headers, .ok headersEnd)
  | (headers, false) => (headers, .error (.ndError "Did not find the proper end of the header section."))

/-- `parseHeaders`: the headers, also those that are set before it throws, and the place behind them. -/
def parseHeaders (data : Bytes) (headers : HeaderMap) (dataOffset : ℕ) : HeaderMap × Except Fault ℕ :=
  match Framing.firstFrom crLfCrLf dataOffset data with
  | none => (headers, .error (.ndError "Did not find end of headers in client HTTP request!"))
  | some offset => readHeaders (getAsString data dataOffset (offset + 4 - dataOffset)) headers (offset + 4)

/-! ## The request -/

/-- `MethodEnum`. -/
inductive Method
  | OPTIONS | GET | HEAD | POST | PUT | DELETE | TRACE | CONNECT | UNKNOWN
deriving DecidableEq, Repr

/-- `methodStr`. -/
def methodStr : Method → Bytes
  | .OPTIONS => ascii "OPTIONS"
  | .GET => ascii "GET"
  | .HEAD => ascii "HEAD"
  | .POST => ascii "POST"
  | .PUT => ascii "PUT"
  | .DELETE => ascii "DELETE"
  | .TRACE => ascii "TRACE"
  | .CONNECT => ascii "CONNECT"
  | .UNKNOWN => ascii "UNKNOWN"

/-- The methods that a request is compared with. -/
def knownMethods : List Method := [.OPTIONS, .GET, .HEAD, .POST, .PUT, .DELETE, .TRACE, .CONNECT]

/-- The assignment to `method_`: it stays as it was for other texts. -/
def assignMethod (text : Bytes) (method : Method) : Method :=
  (knownMethods.find? fun m => text = methodStr m).getD method

/-- A request that is received. -/
structure HttpRequest where
  method : Method := .UNKNOWN
  requestURI : Bytes := []
  protocolVersion : Bytes := []
  reportedContentLength : ℕ := 0
  headerMap : HeaderMap := fun _ => none
  gotHeaders : Bool := false
  isComplete : Bool := false
  content : Option Bytes := none
  rawReq : Option Chain := none

namespace HttpRequest

/-- The octets that are kept. -/
def received (req : HttpRequest) : Bytes :=
  match req.rawReq with
  | none => []
  | some rawReq => rawReq.flatten

/-- `addData`. -/
def addData (req : HttpRequest) (buf : Bytes) : HttpRequest :=
  match req.rawReq with
  | none => { req with rawReq := some ⟨buf, []⟩ }
  | some rawReq => { req with rawReq := some { rawReq with parts := [buf] } }

/-- `clear`. -/
def clear (req : HttpRequest) : HttpRequest :=
  { req with
    method := .UNKNOWN, requestURI := [], protocolVersion := [], reportedContentLength := 0,
    headerMap := fun _ => none, gotHeaders := false, isComplete := false, content := none, rawReq := none }

/-- The part of `parse` that reads the request line. -/
def parseLine (req : HttpRequest) (firstLine : Bytes) : Except Fault HttpRequest :=
  match reRequestLine firstLine with
  | none => .error (.ndError "Did not find the request line!")
  | some (method, requestURI, protocolVersion) =>
    .ok { req with
      method := assignMethod method req.method, requestURI := requestURI, protocolVersion := protocolVersion }

/-- The assignment to `reportedContentLength_`. -/
def assignReported (headerMap : HeaderMap) (reported : ℕ) : ℕ :=
  match headerMap (ascii "content-length") with
  | some value => toSize (atoiText value)
  | none => reported

/-- The part of `parse` for octets that hold all headers. -/
def parseContent (req : HttpRequest) (unit : Bytes) (headerLen : ℕ) : HttpRequest :=
  if req.reportedContentLength = 0 then { req with gotHeaders := true, isComplete := true }
  else if req.reportedContentLength ≤ unit.length - headerLen then
    { req with gotHeaders := true, isComplete := true, content := some (unit.drop headerLen) }
  else { req with gotHeaders := true, isComplete := false }

/-- The part of `parse` behind the request line. -/
def parseRest (req : HttpRequest) (unit : Bytes) (firstLineLen : ℕ) : HttpRequest :=
  match parseHeaders unit req.headerMap firstLineLen with
  | (headerMap, .error _) =>
    { req with
      headerMap := headerMap, reportedContentLength := assignReported headerMap req.reportedContentLength,
      gotHeaders := false, isComplete := false }
  | (headerMap, .ok headerLen) =>
    let reported := assignReported headerMap req.reportedContentLength
    parseContent { req with headerMap := headerMap, reportedContentLength := reported } unit headerLen

/-- `parse` of the octets that are merged. -/
def parseUnit (req : HttpRequest) (unit : Bytes) : Except Fault HttpRequest :=
  match Framing.firstFrom crLf 0 unit with
  | none => .error (.ndError "Did not find the first line!")
  | some offset =>
    (req.parseLine (getAsString unit 0 (offset + 2))).map fun req => req.parseRest unit (offset + 2)

/-- `parse`. -/
def parse (req : HttpRequest) : Except Fault HttpRequest :=
  match req.rawReq with
  | none => .error .nullPointer
  | some rawReq => parseUnit { req with rawReq := some ⟨rawReq.flatten, []⟩ } rawReq.flatten

/-- `handle_input` of octets that were received: the request after it, and the one that is handed to
`handleRequest`. -/
def handleInput (req : HttpRequest) (buf : Bytes) : HttpRequest × Option HttpRequest :=
  let req := req.addData buf
  match req.parse with
  | .error _ => (req.clear, none)
  | .ok req => if req.isComplete then (req.clear, some req) else (req, none)

/-- The chunks of a connection one after the other. -/
def feed (req : HttpRequest) (chunks : List Bytes) : HttpRequest :=
  chunks.foldl (fun req buf => (req.handleInput buf).1) req

/-- Two requests say the same. -/
structure Same (req req' : HttpRequest) : Prop where
  method_eq : req.method = req'.method
  requestURI_eq : req.requestURI = req'.requestURI
  headerMap_eq : req.headerMap = req'.headerMap
  content_eq : req.content = req'.content

end HttpRequest

/-- **Chunks are understood**: before the last one nothing is handed on and all octets are kept; the last one hands
on the request that all of them make in one chunk. -/
def Understood (chunks : List Bytes) : Prop :=
  ∀ front buf rest, chunks = front ++ buf :: rest →
    let result := (HttpRequest.feed {} front).handleInput buf
    (rest ≠ [] → result.2 = none ∧ result.1.received = front.flatten ++ buf) ∧
      (rest = [] → ∃ req whole, result.2 = some req ∧ (HttpRequest.handleInput {} chunks.flatten).2 = some whole ∧
        req.received = chunks.flatten ∧ req.Same whole)

/-! ## What clients send -/

/-- A text without spaces. -/
def IsToken (u : Bytes) : Prop := u ≠ [] ∧ ∀ b ∈ u, isSpace b = false

instance (u : Bytes) : Decidable (IsToken u) := inferInstanceAs (Decidable (_ ∧ _))

/-- A header: a name, and a value on the same line. -/
structure Header where
  name : Bytes
  value : Bytes
  name_token : IsToken name
  name_colon : 58 ∉ name
  value_line : 13 ∉ value ∧ 10 ∉ value

namespace Header

/-- The name in lower case. -/
def key (h : Header) : Bytes := h.name.map toLower

/-- The line of the header, without its end. -/
def text (h : Header) : Bytes := h.name ++ 58 :: h.value

/-- The header tells a length. -/
def Tells (h : Header) (n : ℕ) : Prop :=
  ∃ s₁ digits s₂, (∀ b ∈ s₁ ++ s₂, isSpace b) ∧ ByteRange.Number digits ∧ h.value = s₁ ++ digits ++ s₂ ∧
    decimal digits = n

end Header

/-- A request that is well formed. -/
structure ClientRequest where
  method : Bytes
  uri : Bytes
  major : Bytes
  minor : Bytes
  headers : List Header
  body : Bytes
  method_token : IsToken method
  uri_token : IsToken uri
  version_number : ByteRange.Number major ∧ ByteRange.Number minor
  /-- The length of the content is told, and none is told only if there is none. -/
  length_told : ∀ h ∈ headers, h.key = ascii "content-length" → h.Tells body.length
  body_told : (∀ h ∈ headers, h.key ≠ ascii "content-length") → body = []

namespace ClientRequest

def version (q : ClientRequest) : Bytes := q.major ++ 46 :: q.minor

/-- The request line with its end. -/
def requestLine (q : ClientRequest) : Bytes :=
  q.method ++ 32 :: (q.uri ++ 32 :: (ascii "HTTP/" ++ (q.version ++ crLf)))

/-- The headers with the blank line. -/
def headerSection (q : ClientRequest) : Bytes := (q.headers.flatMap fun h => h.text ++ crLf) ++ crLf

/-- The octets of the request. -/
def raw (q : ClientRequest) : Bytes := q.requestLine ++ (q.headerSection ++ q.body)

/-- The length of all before the body. -/
def headerEnd (q : ClientRequest) : ℕ := q.requestLine.length + q.headerSection.length

/-- The length of the body as the `size_t` that `atoi` makes of it. -/
def reported (q : ClientRequest) : ℕ := toSize (toInt (min q.body.length 9223372036854775807 : ℕ))

end ClientRequest

/-- A length that an `int` keeps, or that is negative there. -/
def FitsInt (n : ℕ) : Prop := n < 2147483648 ∨ 2147483648 ≤ n % 4294967296

/-- **The chunks in which a request is understood.** -/
structure Passes (q : ClientRequest) (chunks : List Bytes) : Prop where
  /-- The first chunk holds the whole request line. -/
  line : ∃ first rest, chunks = first :: rest ∧ q.requestLine.length ≤ first.length
  /-- The line matches the expression, in what is cut out for it. -/
  matches_line : ∀ front buf rest, chunks = front ++ buf :: rest →
    (reRequestLine (getAsString (front.flatten ++ buf) 0 q.requestLine.length)).isSome
  headers : q.headers ≠ []
  headerLength : FitsInt q.headerSection.length
  reported_le : q.reported ≤ q.body.length
  /-- Before the last chunk, not as many octets of the body are there as `atoi` reports. -/
  early : ∀ front buf rest, chunks = front ++ buf :: rest → front.flatten.length < q.headerEnd + q.reported

end ChannelEmulator.Http
