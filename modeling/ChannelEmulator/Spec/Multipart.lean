import ChannelEmulator.Spec.HttpRequest

/-!
# Multipart requests

`RequestPart` and `splitParts_` of `server/httpd/HttpRequest.cpp`, and `_handleUpload` of `HttpManager.cpp` with what
it writes.

* `splitParts`: the parts of a content, one for each two boundaries.
* `handleUpload`: the upload of a file. What the system says of files, and what is read of a unit that is deleted,
  is a `Disk`.
* `MultipartBody`: what clients send.
-/

namespace ChannelEmulator.Http

/-! ## The parameters of headers -/

def semicolon : Octet := 59
def quote : Octet := 34

/-- `\sname="(.+?)".*$`, with what it captures. -/
def dispParamAt (paramName : Bytes) : Bytes → Option Bytes
  | [] => none
  | b :: u =>
    if isSpace b ∧ u.take (paramName.length + 2) = paramName ++ ascii "=\"" then
      match u.drop (paramName.length + 2) with
      | [] => none
      | c :: value => if quote ∈ value then some (c :: value.takeWhile (· ≠ quote)) else none
    else none

/-- `^\s*form-data\s*;.*?\sname="(.+?)".*$`, with what it captures: the first place that lets the rest match is
taken. -/
def reParam (paramName val : Bytes) : Option Bytes :=
  let u := val.dropWhile isSpace
  let v := (u.drop 9).dropWhile isSpace
  if u.take 9 = ascii "form-data" ∧ v.head? = some semicolon then
    (List.range v.length).findSome? fun n => dispParamAt paramName (v.drop (n + 1))
  else none

/-! ## Parts -/

/-- `RequestPart`. -/
structure RequestPart where
  headerMap : HeaderMap
  headersLength : ℕ
  content : Bytes

namespace RequestPart

/-- `RequestPart(newContent)`. -/
def new (newContent : Bytes) : Except Fault RequestPart :=
  match parseHeaders newContent (fun _ => none) 0 with
  | (headerMap, .ok headersLength) => .ok ⟨headerMap, headersLength, newContent⟩
  | (_, .error e) => .error e

/-- `hasContentDispParam` and `getContentDispParam`. -/
def contentDispParam (part : RequestPart) (paramName : Bytes) : Option Bytes :=
  (part.headerMap (ascii "content-disposition")).bind (reParam paramName)

/-- `getContentAfterHeadersAsString`. -/
def contentAfterHeaders (part : RequestPart) : Bytes := part.content.drop part.headersLength

def toPart (part : RequestPart) : Part :=
  ⟨part.contentDispParam (ascii "filename"), (part.contentDispParam (ascii "name")).getD [],
    part.contentAfterHeaders⟩

end RequestPart

/-! ## Splitting -/

/-- `find`. -/
def find (needle : Bytes) (offset : ℕ) (u : Bytes) : Except Fault ℕ :=
  match Framing.firstFrom needle offset u with
  | some i => .ok i
  | none => .error (.ndError "Search pattern not found in specified memory area.")

/-- What the loop over the parts has read of them. The part that `filePart` is the number of stands for it; before
one is found the number is not set. -/
structure UploadForm where
  form : Form := ⟨[], false, false, false⟩
  filePart : Option RequestPart := none
  useCfgNow : Bool := false

/-- One turn of the loop. -/
def UploadForm.readPart (f : UploadForm) (part : RequestPart) : UploadForm :=
  { form := f.form.readPart part.toPart
    filePart := if (part.contentDispParam (ascii "filename")).isSome then some part else f.filePart
    useCfgNow := f.useCfgNow || (eqNoCase part.toPart.name (ascii "use_now") &&
      part.contentAfterHeaders.take 2 == ascii "on") }

/-- A text that is empty or ends a line. -/
def EndsLine (u : Bytes) : Prop := u = [] ∨ ∃ v, u = v ++ crLf

/-- A multipart body: parts with the boundary before and behind each of them. -/
structure MultipartBody where
  boundary : Bytes
  preamble : Bytes
  parts : List Bytes
  epilogue : Bytes
  boundary_token : IsToken boundary
  boundary_text : 0 ∉ boundary
  preamble_line : EndsLine preamble
  parts_ne : parts ≠ []
  free : ∀ u ∈ preamble :: parts, ∀ i, ¬ Framing.StandsAt (ascii "--" ++ boundary) u i

namespace MultipartBody

/-- The boundary as it stands in the text. -/
def delimiter (m : MultipartBody) : Bytes := ascii "--" ++ m.boundary

/-- The parts, each with the boundary before it and the line end behind it. -/
def lines (delimiter : Bytes) (parts : List Bytes) : Bytes :=
  parts.flatMap fun part => delimiter ++ crLf ++ (part ++ crLf)

def text (m : MultipartBody) : Bytes :=
  m.preamble ++ (lines m.delimiter m.parts ++ (m.delimiter ++ (ascii "--" ++ m.epilogue)))

end MultipartBody

/-- Where the headers of a part end, which an empty line follows. -/
def HeadersEnd (part : Bytes) (n : ℕ) : Prop :=
  ∃ i, Framing.firstFrom crLfCrLf 0 (part ++ crLf) = some i ∧ n = i + 4 ∧ FitsInt n

end ChannelEmulator.Http
