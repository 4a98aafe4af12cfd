import ChannelEmulator.Spec.HttpServer

/-!
# Byte ranges of the web server

The part of `_handleGet` of `server/httpd/HttpManager.cpp` that answers a request with a `Range` header, for a
file that is there and can be read. The length of the file is taken from a `struct stat` that nothing has
filled in; what happens to be in it is a parameter.
-/

namespace ChannelEmulator.Http

/-- What a response says. -/
structure Response where
  statusCode : ℕ
  content : Bytes
deriving DecidableEq, Repr

/-- `_handleError`: the page it makes of a status. -/
def errorPage (statusCode : ℕ) (statusStr errMsg : String) : Bytes :=
  ascii ("<html>\n<head>\n<title>" ++ toString statusCode ++ " " ++ statusStr ++ "</title>\n</head>\n" ++
    "<body>\n<h1>" ++ statusStr ++ "</h1>\n" ++ "<p>" ++ errMsg ++ "</p>\n" ++
    "<hr>\n<p><i>NASA Channel Emulator HTTP Server</i></p>\n</body>\n</html>\n")

/-- The response to ranges that are not served. -/
def notSatisfiable : Response := ⟨416, errorPage 416 "Requested range not satisfiable" ""⟩

/-! ## The header -/

/-- `\s`. -/
def isSpace (b : Octet) : Bool := b == 32 || (9 ≤ b && b ≤ 13)

/-- `\d`. -/
def isDigit (b : Octet) : Bool := 48 ≤ b && b ≤ 57

/-- `[\d\-,]`. -/
def isRangeOctet (b : Octet) : Bool := isDigit b || b == 45 || b == 44

/-- `^bytes\s*=\s*([\d\-,]+\s*$)`, with what it captures. -/
def allRanges (range : Bytes) : Option Bytes :=
  if range.take 5 = ascii "bytes" then
    match (range.drop 5).dropWhile isSpace with
    | 61 :: rest =>
      let ranges := rest.dropWhile isSpace
      if ranges.takeWhile isRangeOctet ≠ [] ∧ (ranges.dropWhile isRangeOctet).all isSpace then some ranges else none
    | _ => none
  else none

/-- `^\s*(\d*)\s*\-\s*(\d*)\s*$`, with what it captures. -/
def oneRange (curRange : Bytes) : Option (Bytes × Bytes) :=
  let u := curRange.dropWhile isSpace
  match (u.dropWhile isDigit).dropWhile isSpace with
  | 45 :: rest =>
    let v := rest.dropWhile isSpace
    if (v.dropWhile isDigit).all isSpace then some (u.takeWhile isDigit, v.takeWhile isDigit) else none
  | _ => none

/-- The number that digits write. -/
def decimal (digits : Bytes) : ℕ := digits.foldl (fun n b => n * 10 + (b.toNat - 48)) 0

/-- A number that is stored in an `int`. -/
def toInt (n : ℤ) : ℤ := Int.bmod n 4294967296

/-- `atoi`, of digits: a `long` that does not overflow, and is cut to an `int`. -/
def atoi (digits : Bytes) : ℤ := toInt (min (decimal digits) 9223372036854775807 : ℕ)

/-! ## The ranges -/

/-- The reading of a range, for a number of reads at most. -/
def readLoop (file : Bytes) : ℕ → ℕ → ℕ → Bytes
  | 0, _, _ => []
  | reads + 1, pos, remaining =>
    if remaining = 0 then []
    else
      let buffer := (file.drop pos).take (min remaining 8192)
      if buffer = [] then []
      else buffer ++ readLoop file reads (pos + buffer.length) (remaining - buffer.length)

/-- A range that is answered with the status 416. -/
def Invalid (fileLength fileBegin fileEnd : ℤ) : Prop :=
  fileBegin < 0 ∨ fileEnd < 0 ∨ fileEnd < fileBegin ∨ fileEnd + 1 > fileLength

instance (fileLength fileBegin fileEnd : ℤ) : Decidable (Invalid fileLength fileBegin fileEnd) :=
  inferInstanceAs (Decidable (_ ∨ _))

/-- `fileBegin` and `fileEnd` after the numbers of a range; not all forms assign both. -/
def assignRange (fileLength fileEnd : ℤ) (first last : Bytes) : Option (ℤ × ℤ) :=
  match first, last with
  | [], [] => none
  | [], last => some (fileLength - 1 - atoi last, fileEnd)
  | first, [] => some (atoi first, fileEnd)
  | first, last => some (atoi first, atoi last)

/-- The loop over the ranges. No read takes no octets, so there are no more of them than octets. -/
def serveRanges (fileLength : ℤ) (file : Bytes) : List Bytes → ℤ → Bytes → Response
  | [], _, content => ⟨200, content⟩
  | curRange :: rest, fileEnd, content =>
    match oneRange curRange with
    | none => serveRanges fileLength file rest fileEnd content
    | some (first, last) =>
      match assignRange fileLength fileEnd first last with
      | none => notSatisfiable
      | some (fileBegin, fileEnd) =>
        if Invalid fileLength fileBegin fileEnd then notSatisfiable
        else
          let remaining := (fileEnd - fileBegin + 1).toNat
          serveRanges fileLength file rest fileEnd (content ++ readLoop file remaining fileBegin.toNat remaining)

/-- `_handleGet` of a request with a `Range` header. -/
def handleRange (stSize : ℤ) (file range : Bytes) : Response :=
  let fileLength := toInt stSize
  match allRanges (cStr range) with
  | none => notSatisfiable
  | some ranges => serveRanges fileLength file (ranges.splitOn 44) (fileLength - 1) []

/-! ## What a header asks for -/

/-- A range by its digits: `a-b`, `a-` or `-k`. -/
inductive ByteRange
  | fromTo (first last : Bytes)
  | fromOn (first : Bytes)
  | lastOctets (count : Bytes)
deriving DecidableEq, Repr

namespace ByteRange

/-- The text of a range. -/
def text : ByteRange → Bytes
  | fromTo first last => first ++ 45 :: last
  | fromOn first => first ++ [45]
  | lastOctets count => 45 :: count

/-- A number is written with digits. -/
def Number (digits : Bytes) : Prop := digits ≠ [] ∧ ∀ b ∈ digits, isDigit b

instance (digits : Bytes) : Decidable (Number digits) := inferInstanceAs (Decidable (_ ∧ _))

/-- The numbers of the range are written. -/
def WellFormed : ByteRange → Prop
  | fromTo first last => Number first ∧ Number last
  | fromOn first => Number first
  | lastOctets count => Number count

instance : (r : ByteRange) → Decidable r.WellFormed
  | fromTo first last => inferInstanceAs (Decidable (Number first ∧ Number last))
  | fromOn first => inferInstanceAs (Decidable (Number first))
  | lastOctets count => inferInstanceAs (Decidable (Number count))

/-- A range that is satisfiable for a length. -/
def Satisfiable (n : ℕ) : ByteRange → Prop
  | fromTo first last => decimal first ≤ decimal last ∧ decimal last < n
  | fromOn first => decimal first < n
  | lastOctets count => 0 < decimal count ∧ decimal count ≤ n

instance (n : ℕ) : (r : ByteRange) → Decidable (r.Satisfiable n)
  | fromTo first last => inferInstanceAs (Decidable (decimal first ≤ decimal last ∧ decimal last < n))
  | fromOn first => inferInstanceAs (Decidable (decimal first < n))
  | lastOctets count => inferInstanceAs (Decidable (0 < decimal count ∧ decimal count ≤ n))

/-- The octets that a range denotes. -/
def octets (file : Bytes) : ByteRange → Bytes
  | fromTo first last => (file.take (decimal last + 1)).drop (decimal first)
  | fromOn first => file.drop (decimal first)
  | lastOctets count => file.drop (file.length - decimal count)

end ByteRange

/-- A header that holds a list of ranges. -/
structure Holds (range : Bytes) (rs : List ByteRange) : Prop where
  nonempty : rs ≠ []
  wellFormed : ∀ r ∈ rs, r.WellFormed
  text_eq : ∃ s₁ s₂ s₃ : Bytes, (∀ b ∈ s₁ ++ s₂ ++ s₃, isSpace b) ∧
    range = ascii "bytes" ++ s₁ ++ [61] ++ s₂ ++ [44].intercalate (rs.map ByteRange.text) ++ s₃

end ChannelEmulator.Http
