import ChannelEmulator.Paths.Resolve
import ChannelEmulator.Spec.NetworkData

/-!
# The web server

`server/httpd/HttpManager.cpp`: what the requests for a document and the uploads open. The file
system is what `stat` says of a path; what is read from or written to a file is left out, as are the
responses.
-/

namespace ChannelEmulator.Http

def slash : Octet := 47
def dot : Octet := 46

/-- A string of the source. -/
def ascii (s : String) : Bytes := s.toList.map fun c => UInt8.ofNat c.toNat

/-- A string up to the octet that ends it in C. -/
def cStr (u : Bytes) : Bytes := u.takeWhile (· ≠ 0)

/-- `traits_nocase::compare` of strings of one length: `strncasecmp`. -/
def toLower (b : Octet) : Octet := if 65 ≤ b ∧ b ≤ 90 then b + 32 else b

def eqNoCase (a b : Bytes) : Bool := a.map toLower == b.map toLower

/-! ## `cleanPath` -/

/-- What is behind a slash matches `\.{1,2}/` or `\.{1,2}$`, at the end of the path. -/
def dots : Bytes → Bool
  | [46] => true
  | [46, 46] => true
  | 46 :: 47 :: _ => true
  | 46 :: 46 :: 47 :: _ => true
  | _ => false

/-- `.*/\.{1,2}/.*|.*/\.{1,2}$`. -/
def slashDots : Bytes → Bool
  | [] => false
  | b :: u => (b == slash && dots u) || slashDots u

/-- A path that matches `matchE`. -/
def matchE : Bytes → Bool
  | 46 :: 47 :: _ => true
  | 46 :: 46 :: 47 :: _ => true
  | u => slashDots u

/-- The octets at which an expression takes a line to end. -/
def isSeparator (b : Octet) : Bool := b == 10 || b == 13 || b == 12

/-- `^`, with the octet before the place. -/
def lineStart : Option Octet → Bool
  | none => true
  | some b => isSeparator b

/-- `$`, with the octets from the place on. -/
def lineEnd : Bytes → Bool
  | [] => true
  | b :: _ => isSeparator b

/-- The length of the match of `deleteE` at a place. -/
def deleteAt (before : Option Octet) : Bytes → Option ℕ
  | 47 :: 46 :: 46 :: 47 :: _ => some 4
  | 47 :: 46 :: 47 :: _ => some 3
  | 47 :: 46 :: 46 :: u => if lineEnd u then some 3 else none
  | 47 :: 46 :: u => if lineEnd u then some 2 else none
  | 46 :: 46 :: 47 :: _ => if lineStart before then some 3 else none
  | 46 :: 47 :: _ => if lineStart before then some 2 else none
  | _ => none

/-- `regex_replace(ret, deleteE, "/")`, with the octets of a match that are left to pass over. -/
def replaceAll : ℕ → Option Octet → Bytes → Bytes
  | _, _, [] => []
  | n + 1, _, b :: u => replaceAll n (some b) u
  | 0, before, b :: u =>
    match deleteAt before (b :: u) with
    | some n => slash :: replaceAll (n - 1) (some b) u
    | none => b :: replaceAll 0 (some b) u

/-- The passes, for a number of them at most. -/
def cleanPasses : ℕ → Bytes → Except Fault Bytes
  | 0, ret => if matchE ret then .error .diverges else .ok ret
  | passes + 1, ret => if matchE ret then cleanPasses passes (replaceAll 0 none ret) else .ok ret

/-- `regex_replace(ret, spaceE, " ")`. -/
def replaceSpaces : Bytes → Bytes
  | 37 :: 50 :: 48 :: u => 32 :: replaceSpaces u
  | b :: u => b :: replaceSpaces u
  | [] => []

/-- `cleanPath`. There are no more passes than the path has octets. -/
def cleanPath (path : Bytes) : Except Fault Bytes := do
  let ret ← cleanPasses path.length path
  return replaceSpaces ret

/-! ## Requests -/

/-- The segments of a path. -/
def segments (path : Bytes) : List Bytes := path.splitOn slash

/-- A directory that the server is configured with: a path that ends in a name or in a slash. -/
structure Root where
  path : Bytes
  nonempty : path ≠ []
  noNul : (0 : Octet) ∉ path
  named : (segments path).getLast? ≠ some [dot] ∧ (segments path).getLast? ≠ some [dot, dot]

/-- `globalCfg`, of what the web server uses. -/
structure WebPaths where
  webDocPath : Root
  fileIOPath : Root
  cfgFilePath : Root

/-- The paths that the server has without a configuration. -/
def defaultPaths : WebPaths where
  webDocPath := ⟨ascii "/var/lib/ctsce/www", by decide, by decide, by decide⟩
  fileIOPath := ⟨ascii "/var/lib/ctsce/fileIO", by decide, by decide, by decide⟩
  cfgFilePath := ⟨ascii "/etc/ctsce", by decide, by decide, by decide⟩

/-- `globalCfg.fileIOWebPath` and `globalCfg.cfgFileWebPath`, which nothing changes. -/
def fileIOFakePathStr : Bytes := ascii "/fileIO"
def configFakePathStr : Bytes := ascii "/cfg"

/-- What is no directory is opened as a file. -/
inductive FileType
  | directory
  | other
deriving DecidableEq, Repr

/-- What `stat` says of a path. -/
abbrev FileSystem := Bytes → Option FileType

/-- A file that is opened, and the root that was chosen for the request. -/
structure Opened where
  root : Root
  file : Bytes

/-- The root that `_handleGet` chooses for a cleaned path, and what it leaves of the path. -/
def chooseRoot (w : WebPaths) (reqPath : Bytes) : Root × Bytes × Bool :=
  if eqNoCase (reqPath.take fileIOFakePathStr.length) fileIOFakePathStr then
    (w.fileIOPath, reqPath.drop fileIOFakePathStr.length, true)
  else if eqNoCase (reqPath.take configFakePathStr.length) configFakePathStr then
    (w.cfgFilePath, reqPath.drop configFakePathStr.length, true)
  else (w.webDocPath, reqPath, false)

/-- `_handleGet`. The ranges of a partial request are all read from the one file. -/
def handleGet (w : WebPaths) (fs : FileSystem) (requestURI : Bytes) : Except Fault (List Opened) := do
  let reqPath ← cleanPath (cStr requestURI)
  let (docRoot, reqPath, doingFileTransfer) := chooseRoot w reqPath
  let filePath := docRoot.path ++ reqPath
  if fs docRoot.path ≠ some .directory then return []
  else if fs filePath = some .other then return [⟨docRoot, filePath⟩]
  -- `_doDirectoryListing` opens the directory
  else if doingFileTransfer then return [⟨docRoot, filePath⟩]
  else if (fs (filePath ++ ascii "/index.html")).isSome then
    return [⟨docRoot, filePath ++ ascii "/index.html"⟩]
  else if (fs (filePath ++ ascii "/index.htm")).isSome then
    return [⟨docRoot, filePath ++ ascii "/index.htm"⟩]
  else return []

/-- A part of a request, by what `_handleUpload` reads of it: the parameters of its disposition, and
its content behind the headers. -/
structure Part where
  filename : Option Bytes
  name : Bytes
  content : Bytes

/-- What `_handleUpload` has read of the parts. -/
structure Form where
  filename : Bytes
  isData : Bool
  isConfig : Bool
  allowOverwrite : Bool

/-- One turn of the loop over the parts. -/
def Form.readPart (f : Form) (part : Part) : Form :=
  let f := match part.filename with
    | some filename => { f with filename := filename }
    | none => f
  if eqNoCase part.name (ascii "data_upload_name") then { f with isData := true }
  else if eqNoCase part.name (ascii "cfg_upload_name") then { f with isConfig := true }
  else if eqNoCase part.name (ascii "overwrite") && part.content.take 2 == ascii "on" then
    { f with allowOverwrite := true }
  else f

/-- The loop over the parts. -/
def readParts (parts : List Part) : Form :=
  parts.foldl Form.readPart ⟨[], false, false, false⟩

/-- The root that `_handleUpload` chooses. -/
def uploadRoot (w : WebPaths) (f : Form) : Option Root :=
  if f.isData then some w.fileIOPath else if f.isConfig then some w.cfgFilePath else none

/-- `_handleUpload`. -/
def handleUpload (w : WebPaths) (fs : FileSystem) (parts : List Part) : List Opened :=
  let f := readParts parts
  match uploadRoot w f with
  | none => []
  | some root =>
    let outputName := cStr (root.path ++ [slash] ++ f.filename)
    if (fs outputName).isSome && !f.allowOverwrite then [] else [⟨root, outputName⟩]

/-- The requests that open files. -/
inductive Request
  | get (requestURI : Bytes)
  | upload (parts : List Part)

/-- `handleRequest`, of these. -/
def handleRequest (w : WebPaths) (fs : FileSystem) : Request → Except Fault (List Opened)
  | .get requestURI => handleGet w fs requestURI
  | .upload parts => .ok (handleUpload w fs parts)

/-! ## Where the files are -/

/-- What a segment of a path is to the file system. -/
def component (segment : Bytes) : Paths.Component Bytes :=
  if segment = [] ∨ segment = [dot] then .here
  else if segment = [dot, dot] then .up
  else .name segment

def components (path : Bytes) : List (Paths.Component Bytes) := (segments path).map component

/-- The directory that a path starts in. -/
def start (cwd : List Bytes) (path : Bytes) : List Bytes := if path.head? = some slash then [] else cwd

/-- The names that a path resolves to, without symbolic links. -/
def resolve (cwd : List Bytes) (path : Bytes) : List Bytes :=
  Paths.walk (start cwd path) (components path)

/-- A file lies in or below a root. -/
def Below (cwd : List Bytes) (r : Root) (file : Bytes) : Prop :=
  resolve cwd r.path <+: resolve cwd file

instance (cwd : List Bytes) (r : Root) (file : Bytes) : Decidable (Below cwd r file) :=
  inferInstanceAs (Decidable (_ <+: _))

end ChannelEmulator.Http
