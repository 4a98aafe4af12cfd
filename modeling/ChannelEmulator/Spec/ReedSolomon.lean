import ChannelEmulator.Spec.NetworkData

/-!
# Reed-Solomon coding

`lib/RSBase.cpp`, `lib/RSEncoder.cpp` and `lib/RSDecoder.cpp`.

* `RSBase`: the parameters of a code with the tables of exponentials and logarithms that the
  constructor fills, and arithmetic on symbols and on polynomials through them. The first symbol of a
  polynomial is its highest coefficient.
* `encode`, `correct`, `decode`: coding of whole messages, in rows that are interleaved.

A table or vector that is indexed behind its end is a fault.
-/

namespace ChannelEmulator.ReedSolomon

abbrev Sym := Octet
abbrev SymVec := List Octet

/-- What the constructor is given. -/
structure RSParams where
  primitivePoly : ℕ
  parityLength : ℕ
  codeLength : ℕ
  bitsPerSymbol : ℕ
  primitiveRootIdx : Sym
  firstConsecutiveRoot : Sym
  interleaveDepth : ℕ
  doBasisTransform : Bool
deriving DecidableEq

/-- `_maxSymbol`. -/
def RSParams.maxSymbol (p : RSParams) : ℕ := 0xff >>> (8 - p.bitsPerSymbol)

structure RSBase extends RSParams where
  gfExp : SymVec
  gfLog : SymVec
  talTab : SymVec
  talTabInv : SymVec

/-! ## Tables -/

/-- `v[i] = s`. -/
def setAt (v : SymVec) (i : ℕ) (s : Sym) : Except Fault SymVec :=
  if i < v.length then .ok (v.set i s) else .error .outOfBounds

/-- `v[i] ^= s`. -/
def xorAt (v : SymVec) (i : ℕ) (s : Sym) : Except Fault SymVec := do
  let old ← octetAt v i
  setAt v i (old ^^^ s)

/-- The loop of `_loadTables` over the powers, from index `i` on, for a number of turns. -/
def loadPowers (primitivePoly maxSymbol : ℕ) : ℕ → ℕ → ℕ → SymVec × SymVec →
    Except Fault (SymVec × SymVec)
  | 0, _, _, tables => .ok tables
  | turns + 1, i, x, (gfExp, gfLog) => do
    let x := x <<< 1
    let x := if x &&& (maxSymbol + 1) ≠ 0 then x ^^^ primitivePoly else x
    let gfExp ← setAt gfExp i (.ofNat x)
    let gfLog ← setAt gfLog x (.ofNat i)
    loadPowers primitivePoly maxSymbol turns (i + 1) x (gfExp, gfLog)

/-- The loop that copies the powers, from index `i` on. -/
def copyPowers (maxSymbol : ℕ) : ℕ → ℕ → SymVec → Except Fault SymVec
  | 0, _, gfExp => .ok gfExp
  | turns + 1, i, gfExp => do
    let s ← octetAt gfExp (i - maxSymbol)
    let gfExp ← setAt gfExp i s
    copyPowers maxSymbol turns (i + 1) gfExp

/-- The rows of the matrix from dual basis to conventional. -/
def tal : List Sym := [0x8d, 0xef, 0xec, 0x86, 0xfa, 0x99, 0xaf, 0x7b]

/-- `talTab_[i]`. -/
def talEntry (i : ℕ) : Sym :=
  (List.range 8).foldl (fun entry j => (List.range 8).foldl (fun entry k =>
    if i &&& (1 <<< k) ≠ 0 then entry ^^^ (tal.getD (7 - k) 0 &&& .ofNat (1 <<< j)) else entry)
    entry) 0

def loadTal : SymVec := (List.range 256).map talEntry

/-- `talTabInv_`, a later entry over an earlier one. -/
def loadTalInv : SymVec :=
  (List.range 256).foldl (fun inv i => inv.set (talEntry i).toNat (.ofNat i)) (List.replicate 256 0)

/-- `_loadTables`. -/
def loadTables (p : RSParams) : Except Fault RSBase := do
  let maxSymbol := p.maxSymbol
  let (gfExp, gfLog) ← loadPowers p.primitivePoly maxSymbol (maxSymbol - 1) 1 1
    (List.replicate ((maxSymbol + 1) * 2) 1, List.replicate (maxSymbol + 1) 0)
  let gfLog ← setAt gfLog 0 (.ofNat maxSymbol)
  let gfExp ← copyPowers maxSymbol (maxSymbol + 1) (maxSymbol + 1) gfExp
  return { p with gfExp := gfExp, gfLog := gfLog, talTab := loadTal, talTabInv := loadTalInv }

namespace RSBase

/-- The constructor. -/
def new (p : RSParams) : Except Fault RSBase :=
  if 8 < p.bitsPerSymbol then
    .error (.valueTooLarge (valueTooLargeMsg "bits per symbol" p.bitsPerSymbol 8))
  else if p.interleaveDepth < 1 then
    .error (.valueTooSmall "Interleave depth must be greater than 0.")
  else loadTables p

variable (rs : RSBase)

/-! ## Arithmetic -/

def gfMul (x y : Sym) : Except Fault Sym :=
  if x = 0 ∨ y = 0 then .ok 0
  else do
    let i ← octetAt rs.gfLog x.toNat
    let j ← octetAt rs.gfLog y.toNat
    octetAt rs.gfExp (i.toNat + j.toNat)

def gfDiv (x y : Sym) : Except Fault Sym :=
  if y = 0 then .error (.valueTooSmall "Division by zero attempted in RSBase::gfDiv()")
  else if x = 0 then .ok 0
  else do
    let i ← octetAt rs.gfLog x.toNat
    let j ← octetAt rs.gfLog y.toNat
    octetAt rs.gfExp (i.toNat + rs.maxSymbol - j.toNat)

def gfPolyScale (p : SymVec) (x : Sym) : Except Fault SymVec := p.mapM fun s => rs.gfMul s x

/-- Zeros in front, to a size. -/
def padFront (size : ℕ) (p : SymVec) : SymVec := List.replicate (size - p.length) 0 ++ p

def gfPolyAdd (p q : SymVec) : SymVec :=
  List.zipWith (· ^^^ ·) (padFront (max p.length q.length) p) (padFront (max p.length q.length) q)

/-- The inner loop of `gfPolyMul`, over `p` from index `i` on. -/
def mulInner (c : Sym) (j : ℕ) : ℕ → SymVec → SymVec → Except Fault SymVec
  | _, [], r => .ok r
  | i, s :: p, r => do
    let m ← rs.gfMul s c
    let r ← xorAt r (i + j) m
    mulInner c j (i + 1) p r

/-- The outer loop, over `q` from index `j` on. -/
def mulOuter (p : SymVec) : ℕ → SymVec → SymVec → Except Fault SymVec
  | _, [], r => .ok r
  | j, c :: q, r => do
    let r ← rs.mulInner c j 0 p r
    mulOuter p (j + 1) q r

def gfPolyMul (p q : SymVec) : Except Fault SymVec :=
  rs.mulOuter p 0 q (List.replicate (p.length + q.length - 1) 0)

/-- The loop of `gfPolyEval`. -/
def evalFrom (x : Sym) : Sym → SymVec → Except Fault Sym
  | y, [] => .ok y
  | y, s :: p => do
    let m ← rs.gfMul y x
    evalFrom x (m ^^^ s) p

def gfPolyEval (p : SymVec) (x : Sym) : Except Fault Sym :=
  match p with
  | [] => .error .outOfBounds
  | s :: p => rs.evalFrom x s p

/-- `gfExp_[(getPrimitiveRootIdx() * e) % getMaxSymbol()]`. -/
def root (e : ℕ) : Except Fault Sym :=
  octetAt rs.gfExp (rs.primitiveRootIdx.toNat * e % rs.maxSymbol)

/-! ## Interleaving -/

/-- `--i` for a `size_t`. -/
def predSize : ℕ → ℕ
  | 0 => 2 ^ 64 - 1
  | i + 1 => i

/-- A row of a vector of vectors. -/
def rowAt (rows : List SymVec) (row : ℕ) : Except Fault SymVec :=
  match rows[row]? with
  | some line => .ok line
  | none => .error .outOfBounds

/-- The loop of `ccsdsInterleave`, over the message from its end. -/
def interleaveFrom : SymVec → ℕ → ℕ → List SymVec → Except Fault (List SymVec)
  | [], _, _, rows => .ok rows
  | s :: msg, row, offset, rows => do
    let line ← rowAt rows row
    let line ← setAt line offset s
    if row = 0 then
      interleaveFrom msg (rs.interleaveDepth - 1) (predSize offset) (rows.set row line)
    else interleaveFrom msg (row - 1) offset (rows.set row line)

def ccsdsInterleave (msg : SymVec) (hasParity : Bool) : Except Fault (List SymVec) :=
  rs.interleaveFrom msg.reverse (rs.interleaveDepth - 1)
    (if hasParity then rs.codeLength - 1 else rs.codeLength - rs.parityLength - 1)
    (List.replicate rs.interleaveDepth (List.replicate rs.codeLength 0))

/-- The loop of `ccsdsDeinterleave`, with the message from its end. -/
def deinterleaveFrom (rows : List SymVec) : ℕ → ℕ → ℕ → SymVec → Except Fault SymVec
  | 0, _, _, msg => .ok msg
  | turns + 1, row, offset, msg => do
    let line ← rowAt rows row
    let s ← octetAt line offset
    if row = 0 then
      deinterleaveFrom rows turns (rs.interleaveDepth - 1) (predSize offset) (s :: msg)
    else deinterleaveFrom rows turns (row - 1) offset (s :: msg)

def ccsdsDeinterleave (rows : List SymVec) : Except Fault SymVec :=
  rs.deinterleaveFrom rows ((rs.codeLength - rs.parityLength) * rs.interleaveDepth)
    (rs.interleaveDepth - 1) (rs.codeLength - rs.parityLength - 1) []

def ccsdsDualBasisToConventional (data : SymVec) : Except Fault SymVec :=
  data.mapM fun s => octetAt rs.talTabInv s.toNat

def ccsdsConventionalToDualBasis (data : SymVec) : Except Fault SymVec :=
  data.mapM fun s => octetAt rs.talTab s.toNat

/-! ## Encoding -/

/-- The loop of `_initGeneratorPoly`, from root `i` on. -/
def generatorFrom : ℕ → ℕ → SymVec → Except Fault SymVec
  | 0, _, g => .ok g
  | turns + 1, i, g => do
    let x ← rs.root i
    let g ← rs.gfPolyMul g [1, x]
    generatorFrom turns (i + 1) g

/-- `_rsGeneratorPoly`. -/
def generatorPoly : Except Fault SymVec :=
  rs.generatorFrom rs.parityLength rs.firstConsecutiveRoot.toNat [1]

/-- The loop of `encodeOneWord_`, from index `i` on. -/
def divideFrom (g : SymVec) : ℕ → ℕ → SymVec → Except Fault SymVec
  | 0, _, msgOut => .ok msgOut
  | turns + 1, i, msgOut => do
    let coef ← octetAt msgOut i
    let msgOut ← if coef ≠ 0 then rs.mulInner coef i 0 g msgOut else .ok msgOut
    divideFrom g turns (i + 1) msgOut

/-- `encodeOneWord_(msgIn, false)`, which leaves the remainder behind the quotient's zeros. -/
def encodeOneWord (g msgIn : SymVec) : Except Fault SymVec :=
  rs.divideFrom g (rs.codeLength - rs.parityLength) 0
    (msgIn.take rs.codeLength ++ List.replicate (rs.codeLength - msgIn.length) 0)

/-- The parity symbols of one offset behind the data, of all rows. -/
def parityAt (encoded : List SymVec) (parityOffset : ℕ) : Except Fault SymVec :=
  encoded.mapM fun line => octetAt line (rs.codeLength - rs.parityLength + parityOffset)

/-- `RSEncoder::encode`. -/
def encode (msgIn : SymVec) : Except Fault SymVec := do
  let msgOut ← if rs.doBasisTransform then rs.ccsdsDualBasisToConventional msgIn else .ok msgIn
  let rows ← rs.ccsdsInterleave msgOut false
  let g ← rs.generatorPoly
  let encoded ← rows.mapM (rs.encodeOneWord g)
  let parity ← (List.range rs.parityLength).mapM (rs.parityAt encoded)
  if rs.doBasisTransform then rs.ccsdsConventionalToDualBasis parity.flatten else .ok parity.flatten

/-! ## Decoding -/

def calcSyndromes (msg : SymVec) : Except Fault SymVec :=
  (List.range rs.parityLength).mapM fun j => do
    let x ← rs.root (j + rs.firstConsecutiveRoot.toNat)
    rs.gfPolyEval msg x

/-- The loop of `correctErrata_` that makes the error locator polynomial. -/
def locatorFrom (msgSize : ℕ) : SymVec → SymVec → Except Fault SymVec
  | [], q => .ok q
  | i :: pos, q => do
    let x ← rs.root (msgSize - 1 - i.toNat)
    let q ← rs.gfPolyMul q [x, 1]
    locatorFrom msgSize pos q

/-- Every other symbol, from the first. -/
def everyOther : SymVec → SymVec
  | [] => []
  | [s] => [s]
  | s :: _ :: p => s :: everyOther p

/-- The loop of `correctErrata_` over the positions. -/
def correctFrom (p q : SymVec) : SymVec → SymVec → Except Fault SymVec
  | [], msg => .ok msg
  | i :: pos, msg => do
    let x ← rs.root (i.toNat + rs.maxSymbol + 1 - msg.length)
    let y ← rs.gfPolyEval p x
    let xx ← rs.gfMul x x
    let z ← rs.gfPolyEval q xx
    let xz ← rs.gfMul x z
    let d ← rs.gfDiv y xz
    let f ← rs.root (rs.firstConsecutiveRoot.toNat * (i.toNat + 1))
    let c ← rs.gfMul f d
    let msg ← xorAt msg i.toNat c
    correctFrom p q pos msg

/-- `correctErrata_`: the locator `q`, the evaluator `p`, the derivative of `q`, and the corrections. -/
def correctErrata (msg synd pos : SymVec) : Except Fault SymVec := do
  let q ← rs.locatorFrom msg.length pos [1]
  if synd.length < pos.length then .error .outOfBounds
  else do
    let p ← rs.gfPolyMul (synd.take pos.length).reverse q
    rs.correctFrom (p.drop (p.length - pos.length)) (everyOther (q.drop (q.length % 2))) pos msg

/-- One turn's loop of `forneySyndromes_`, which takes the last symbol away. -/
def forneyTurn (x : Sym) : SymVec → Except Fault SymVec
  | [] => .error .outOfBounds
  | [_] => .ok []
  | s :: s' :: fsynd => do
    let m ← rs.gfMul s x
    let rest ← forneyTurn x (s' :: fsynd)
    return (m ^^^ s') :: rest

/-- `forneySyndromes_`. -/
def forneySyndromes (msgSize : ℕ) : SymVec → SymVec → Except Fault SymVec
  | [], fsynd => .ok fsynd
  | i :: pos, fsynd => do
    let x ← octetAt rs.gfExp (msgSize - 1 - i.toNat)
    let fsynd ← rs.forneyTurn x fsynd
    forneySyndromes msgSize pos fsynd

/-- The loop that adds up the discrepancy, from index `j` on. -/
def deltaFrom (errPoly synd : SymVec) (i : ℕ) : ℕ → ℕ → Sym → Except Fault Sym
  | 0, _, delta => .ok delta
  | turns + 1, j, delta => do
    let e ← octetAt errPoly (errPoly.length - 1 - j)
    let s ← if i < j then .error .outOfBounds else octetAt synd (i - j)
    let m ← rs.gfMul e s
    deltaFrom errPoly synd i turns (j + 1) (delta ^^^ m)

/-- One turn of the Berlekamp-Massey algorithm, on `errPoly` and `oldPoly`. -/
def masseyTurn (synd : SymVec) (i : ℕ) (errPoly oldPoly : SymVec) :
    Except Fault (SymVec × SymVec) := do
  let oldPoly := oldPoly ++ [0]
  let s ← octetAt synd i
  let delta ← rs.deltaFrom errPoly synd i (errPoly.length - 1) 1 s
  if delta = 0 then .ok (errPoly, oldPoly)
  else if errPoly.length < oldPoly.length then do
    let newPoly ← rs.gfPolyScale oldPoly delta
    let inverse ← rs.gfDiv 1 delta
    let oldPoly ← rs.gfPolyScale errPoly inverse
    let scaled ← rs.gfPolyScale oldPoly delta
    .ok (gfPolyAdd newPoly scaled, oldPoly)
  else do
    let scaled ← rs.gfPolyScale oldPoly delta
    .ok (gfPolyAdd errPoly scaled, oldPoly)

/-- The algorithm, from syndrome `i` on. -/
def masseyFrom (synd : SymVec) : ℕ → ℕ → SymVec → SymVec → Except Fault (SymVec × SymVec)
  | 0, _, errPoly, oldPoly => .ok (errPoly, oldPoly)
  | turns + 1, i, errPoly, oldPoly => do
    let (errPoly, oldPoly) ← rs.masseyTurn synd i errPoly oldPoly
    masseyFrom synd turns (i + 1) errPoly oldPoly

/-- The search for zeros of the error polynomial, from index `i` on. -/
def zerosFrom (errPoly : SymVec) (msgSize : ℕ) : ℕ → ℕ → Except Fault SymVec
  | 0, _ => .ok []
  | turns + 1, i => do
    let x ← rs.root (rs.maxSymbol - i)
    let y ← rs.gfPolyEval errPoly x
    let rest ← zerosFrom errPoly msgSize turns (i + 1)
    return if y = 0 then .ofNat (msgSize - 1 - i) :: rest else rest

/-- `TooManyErrors::msg`. -/
def tooManyErrorsMsg (errsFound errsMax : ℕ) : String :=
  "Reed-Solomon codeword had " ++ toString errsFound ++ "; maximum is " ++ toString errsMax ++ "."

/-- `findErrors_`. -/
def findErrors (synd : SymVec) (msgSize : ℕ) : Except Fault SymVec := do
  let (errPoly, _) ← rs.masseyFrom synd synd.length 0 [1] [1]
  let errs := errPoly.length - 1
  if synd.length < errs * 2 then
    .error (.tooManyErrors (tooManyErrorsMsg errs (synd.length / 2)) errs)
  else do
    let errPos ← rs.zerosFrom errPoly msgSize msgSize 0
    if errPos.length ≠ errs then .error (.logicError "Couldn't find error locations.")
    else .ok errPos

/-- The symbols that are out of range are erased, from index `i` on. -/
def erasuresFrom : ℕ → SymVec → SymVec × SymVec
  | _, [] => ([], [])
  | i, s :: msg =>
    let (msgOut, erasePos) := erasuresFrom (i + 1) msg
    if rs.maxSymbol < s.toNat then (0 :: msgOut, .ofNat i :: erasePos) else (s :: msgOut, erasePos)

/-- `correctOneWord_`, with what it adds to `_lastCorrectedErrors`. -/
def correctOneWord (msgIn : SymVec) : Except Fault (SymVec × ℕ) :=
  if msgIn.length ≠ rs.codeLength then
    .error (.logicError "Codeword with bad length received.")
  else
    let (msgOut, erasePos) := rs.erasuresFrom 0 msgIn
    if rs.parityLength < erasePos.length then .error (.logicError "Too many erasures to correct.")
    else do
      let synd ← rs.calcSyndromes msgOut
      if (synd.map UInt8.toNat).sum = 0 then .ok (msgOut, 0)
      else do
        let fsynd ← rs.forneySyndromes msgOut.length erasePos synd
        let errPos ← rs.findErrors fsynd msgOut.length
        let msgOut ← rs.correctErrata msgOut synd (erasePos ++ errPos)
        let synd ← rs.calcSyndromes msgOut
        if synd.any (0 < ·) then
          .error (.logicError "Non-zero syndromes after error correction.")
        else .ok (msgOut, (erasePos ++ errPos).length)

/-- The locals of `correct`, and `_lastCorrectedErrors`. -/
structure Progress where
  corrected : List SymVec := []
  errMsg : String := ""
  uncorrectedErrCount : ℕ := 0
  lastCorrectedErrors : ℕ := 0

/-- The loop of `correct` over the rows. -/
def correctRows : List SymVec → Progress → Except Fault Progress
  | [], s => .ok s
  | row :: rows, s =>
    match rs.correctOneWord row with
    | .ok (word, errs) =>
      correctRows rows { s with
        corrected := s.corrected ++ [word], lastCorrectedErrors := s.lastCorrectedErrors + errs }
    | .error (.tooManyErrors msg errors) =>
      correctRows rows { s with
        errMsg := s.errMsg ++ (msg ++ " "), uncorrectedErrCount := s.uncorrectedErrCount + errors }
    | .error e => .error e

/-- `RSDecoder::correct`, with `_lastCorrectedErrors`. -/
def correct (msgIn : SymVec) : Except Fault (SymVec × ℕ) := do
  let msgOut ← if rs.doBasisTransform then rs.ccsdsDualBasisToConventional msgIn else .ok msgIn
  let rows ← rs.ccsdsInterleave msgOut true
  let s ← rs.correctRows rows {}
  if 0 < s.uncorrectedErrCount then .error (.tooManyErrors s.errMsg s.uncorrectedErrCount)
  else do
    let msgOut ← rs.ccsdsDeinterleave s.corrected
    let msgOut ← if rs.doBasisTransform then rs.ccsdsConventionalToDualBasis msgOut else .ok msgOut
    return (msgOut, s.lastCorrectedErrors)

/-- `RSDecoder::decode`, which leaves the virtual fill off. -/
def decode (msgIn : SymVec) : Except Fault (SymVec × ℕ) := do
  let (msgOut, errs) ← rs.correct msgIn
  let virtualFillOctets := rs.codeLength * rs.interleaveDepth - msgIn.length
  if msgOut.length < virtualFillOctets then .error .outOfBounds
  else return (msgOut.drop virtualFillOctets, errs)

end RSBase

end ChannelEmulator.ReedSolomon
