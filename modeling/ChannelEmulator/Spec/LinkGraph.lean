import ChannelEmulator.Spec.NetworkData
import Mathlib.Logic.Function.Basic
import Mathlib.Logic.Relation

/-!
# The graph of traffic handlers

Traffic handlers and the links between them (`HandlerLink.cpp`, `BaseTrafficHandler.cpp`), with the
multiplexers (`TM_Mux_Base.cpp`, `AOS_Mux_Base.cpp`), which hold a set of primary input links, and
the demultiplexers (`TM_Demux_Base.cpp`, `AOS_Demux_Base.cpp`, which agree but for names), which hold
a map of primary output links by channel identifier.

* A link is an object on the heap with two ends; a handler has slots with pointers to links.
* `destroy`, `deleteLink`, `setLink`, `unsetLink`, `connectSourceToTarget`: the private operations.
* `connectOutput`, `connectPrimaryOutput`, `disconnectOutput`, `withdraw`: the public ones, with the
  settings they write.

A handler stands for its name, which is unique in its channel. The receive counters and the queues of
a handler play no part here.
-/

namespace ChannelEmulator

namespace LinkGraph

/-- The classes of traffic handlers that hold their links in different ways. -/
inductive Kind where
  | plain
  | mux
  | demux
  deriving DecidableEq

inductive InputRank where
  | PrimaryInput
  | AuxInput
  deriving DecidableEq

inductive OutputRank where
  | PrimaryOutput
  | AuxOutput
  deriving DecidableEq

/-- `BaseTrafficHandler::LinkType`. -/
inductive LinkType where
  | PrimaryInputLink
  | AuxInputLink
  | PrimaryOutputLink
  | AuxOutputLink
  deriving DecidableEq

def InputRank.link : InputRank → LinkType
  | PrimaryInput => .PrimaryInputLink
  | AuxInput => .AuxInputLink

def OutputRank.link : OutputRank → LinkType
  | PrimaryOutput => .PrimaryOutputLink
  | AuxOutput => .AuxOutputLink

/-- What the operations throw. -/
inductive Thrown where
  /-- "Circular output connection attempted." -/
  | CircularConnection
  /-- "Target does not have an auxiliary queue." -/
  | NoAuxiliaryQueue
  /-- A demultiplexer's "connectOutput() without channel identifier used for PrimaryOutput." -/
  | nd_error
  deriving DecidableEq

/-- Where the program goes wrong, or has not returned yet in the steps it was given. -/
inductive Crash where
  | dangling
  | nullPointer
  | invalidIterator
  | running
  deriving DecidableEq

/-- `HandlerLink`. -/
structure HandlerLink (ι : Type) where
  source : Option ι := none
  sourceOutputRank : OutputRank := .PrimaryOutput
  target : Option ι := none
  targetInputRank : InputRank := .PrimaryInput
  deriving DecidableEq

/-- What is fixed of the handlers. -/
structure Handlers (ι : Type) where
  kind : ι → Kind
  auxQueue : ι → Bool

/-- The links, the slots of the handlers, and the settings. -/
structure Net (ι : Type) where
  links : ι → LinkType → Option ℕ := fun _ _ => none
  primaryInputLinks : ι → List ℕ := fun _ => []
  primaryOutputLinks : ι → List (Octet × ℕ) := fun _ => []
  heap : ℕ → Option (HandlerLink ι) := fun _ => none
  next : ℕ := 0
  output : ι → OutputRank → Option (ι × InputRank) := fun _ _ => none
  outputNames : ι → List (ι × InputRank × Octet) := fun _ => []

variable {ι : Type} [DecidableEq ι]

namespace Net

def setSlot (s : Net ι) (h : ι) (t : LinkType) (p : Option ℕ) : Net ι :=
  { s with links := Function.update s.links h (Function.update (s.links h) t p) }

def setInputs (s : Net ι) (h : ι) (ps : List ℕ) : Net ι :=
  { s with primaryInputLinks := Function.update s.primaryInputLinks h ps }

def setOutputs (s : Net ι) (h : ι) (ps : List (Octet × ℕ)) : Net ι :=
  { s with primaryOutputLinks := Function.update s.primaryOutputLinks h ps }

def setHeap (s : Net ι) (p : ℕ) (l : Option (HandlerLink ι)) : Net ι :=
  { s with heap := Function.update s.heap p l }

/-- The settings `primaryOutput` and `auxOutput`. -/
def setOutput (s : Net ι) (h : ι) (rank : OutputRank) (v : Option (ι × InputRank)) : Net ι :=
  { s with output := Function.update s.output h (Function.update (s.output h) rank v) }

/-- The setting `primaryOutputs`. -/
def setNames (s : Net ι) (h : ι) (names : List (ι × InputRank × Octet)) : Net ι :=
  { s with outputNames := Function.update s.outputNames h names }

/-- `new HandlerLink()`. -/
def alloc (s : Net ι) : Net ι := { s.setHeap s.next (some {}) with next := s.next + 1 }

/-- A pointer that is followed. -/
def deref (s : Net ι) (p : ℕ) : Except Crash (HandlerLink ι) :=
  match s.heap p with
  | some l => .ok l
  | none => .error .dangling

/-- `link->getTarget()->getName()`. -/
def targetName (s : Net ι) (p : ℕ) : Except Crash ι := do
  let l ← s.deref p
  match l.target with
  | some t => .ok t
  | none => .error .nullPointer

/-- `link->getSource()->getName()`. -/
def sourceName (s : Net ι) (p : ℕ) : Except Crash ι := do
  let l ← s.deref p
  match l.source with
  | some x => .ok x
  | none => .error .nullPointer

end Net

/-- The entry of a key in a `std::map`, in the order of the keys. -/
def assign (id : Octet) (p : ℕ) : List (Octet × ℕ) → List (Octet × ℕ)
  | [] => [(id, p)]
  | e :: es =>
    if e.1 = id then (id, p) :: es
    else if id < e.1 then (id, p) :: e :: es
    else e :: assign id p es

namespace Handlers

variable (d : Handlers ι)

/-- The handler holds the links of this type in a set (`primaryInputLinks_`). -/
def HasSet (h : ι) (t : LinkType) : Prop := d.kind h = .mux ∧ t = .PrimaryInputLink

/-- The handler holds the links of this type in a map (`primaryOutputLinks_`). -/
def HasMap (h : ι) (t : LinkType) : Prop := d.kind h = .demux ∧ t = .PrimaryOutputLink

instance (h : ι) (t : LinkType) : Decidable (d.HasSet h t) :=
  inferInstanceAs (Decidable (_ ∧ _))

instance (h : ι) (t : LinkType) : Decidable (d.HasMap h t) :=
  inferInstanceAs (Decidable (_ ∧ _))

/-- `unsetLink_`, called by the destructor of the link `p`. A demultiplexer that does not find the
link asks for the name of its target, which is unset by then. -/
def unsetLink (h : ι) (t : LinkType) (p : ℕ) (s : Net ι) : Except Crash (Net ι) :=
  if d.HasSet h t then .ok (s.setInputs h ((s.primaryInputLinks h).erase p))
  else if d.HasMap h t then
    if p ∈ (s.primaryOutputLinks h).map Prod.snd then
      .ok (s.setOutputs h ((s.primaryOutputLinks h).eraseP fun e => e.2 = p))
    else .error .nullPointer
  else .ok (s.setSlot h t none)

/-- The destructor's call at one end of the link. -/
def unsetEnd (h : Option ι) (t : LinkType) (p : ℕ) (s : Net ι) : Except Crash (Net ι) :=
  match h with
  | some h => d.unsetLink h t p s
  | none => .ok s

/-- `HandlerLink::~HandlerLink`, and its memory is freed. -/
def destroy (p : ℕ) (s : Net ι) : Except Crash (Net ι) := do
  let l ← s.deref p
  let s ← d.unsetEnd l.target l.targetInputRank.link p s
  let s ← d.unsetEnd l.source l.sourceOutputRank.link p s
  .ok (s.setHeap p none)

/-- `deleteLink_`. A multiplexer names the ends of the link in its log, a demultiplexer the target of
a link that it does not find. -/
def deleteLink (h : ι) (t : LinkType) (old : Option ℕ) (s : Net ι) : Except Crash (Net ι) :=
  if d.HasSet h t then
    match old with
    | none => .error .nullPointer
    | some p => do
      let _ ← s.sourceName p
      let _ ← s.targetName p
      if p ∈ s.primaryInputLinks h then d.destroy p s else .ok s
  else if d.HasMap h t then
    match old with
    | none => .error .nullPointer
    | some p =>
      if p ∈ (s.primaryOutputLinks h).map Prod.snd then d.destroy p s
      else do
        let _ ← s.targetName p
        .ok s
  else
    match s.links h t with
    | none => .ok s
    | some p => do
      let s ← d.destroy p s
      .ok (s.setSlot h t none)

/-- `setLink_` deletes the link that is in the slot. -/
def clearSlot (h : ι) (t : LinkType) (s : Net ι) : Except Crash (Net ι) :=
  match s.links h t with
  | some q => d.deleteLink h t (some q) s
  | none => .ok s

/-- `setLink_`. A demultiplexer only checks that its map has the link. -/
def setLink (h : ι) (t : LinkType) (p : ℕ) (s : Net ι) : Except Crash (Net ι) :=
  if d.HasSet h t then
    if p ∈ s.primaryInputLinks h then .ok s
    else .ok (s.setInputs h (s.primaryInputLinks h ++ [p]))
  else if d.HasMap h t then .ok s
  else do
    let s ← d.clearSlot h t s
    .ok (s.setSlot h t (some p))

/-! ## The search for a circular connection -/

/-- The output links of a handler in the order in which they are tried, with whether one without a
target is passed over. -/
def outputLinks (h : ι) (s : Net ι) : List (ℕ × Bool) :=
  let aux := (s.links h .AuxOutputLink).toList.map fun p => (p, false)
  match d.kind h with
  | .demux => (s.primaryOutputLinks h).map (fun e => (e.2, true)) ++ aux
  | _ => (s.links h .PrimaryOutputLink).toList.map (fun p => (p, false)) ++ aux

/-- The test of one target after the other, up to the first that answers yes. -/
def anyTarget (test : ι → Except Crash Bool) (s : Net ι) : List (ℕ × Bool) → Except Crash Bool
  | [] => .ok false
  | (p, skip) :: rest => do
    let l ← s.deref p
    match l.target with
    | none => if skip then anyTarget test s rest else .error .nullPointer
    | some t => do
      let found ← test t
      if found then .ok true else anyTarget test s rest

/-- `h->isCircularConnection(testTarget)`, in at most that many nested calls. -/
def isCircularConnection (s : Net ι) (testTarget : ι) : ℕ → ι → Except Crash Bool
  | 0, _ => .error .running
  | k + 1, h =>
    if testTarget = h then .ok true
    else anyTarget (isCircularConnection s testTarget k) s (d.outputLinks h s)

/-- `HandlerLink::connectSourceToTarget` for the link `p`. -/
def connectSourceToTarget (k p : ℕ) (source target : ι) (outRank : OutputRank)
    (inRank : InputRank) (s : Net ι) : Except Crash (Option Thrown × Net ι) := do
  let circular ← d.isCircularConnection s target k source
  if circular then .ok (some .CircularConnection, s)
  else if inRank = .AuxInput ∧ ¬ d.auxQueue target then .ok (some .NoAuxiliaryQueue, s)
  else do
    let l : HandlerLink ι :=
      { source := some source, sourceOutputRank := outRank,
        target := some target, targetInputRank := inRank }
    let s := s.setHeap p (some l)
    let s ← d.setLink target inRank.link p s
    let s ← d.setLink source outRank.link p s
    .ok (none, s)

/-! ## Connecting and disconnecting -/

/-- The loop that removes the sublists of a target: what moves up to a removed sublist's place is
passed over. -/
def removeNames (t : ι) : List (ι × InputRank × Octet) → List (ι × InputRank × Octet)
  | [] => []
  | [e] => if e.1 = t then [] else [e]
  | e :: e' :: es => if e.1 = t then e' :: removeNames t es else e :: removeNames t (e' :: es)

/-- `BaseTrafficHandler::disconnectOutput`. -/
def baseDisconnectOutput (h : ι) (rank : OutputRank) (s : Net ι) : Except Crash (Net ι) := do
  let s ← d.deleteLink h rank.link (s.links h rank.link) s
  .ok (s.setOutput h rank none)

/-- The loop over `outputNames_` in `Demux_Base::disconnectOutput`, which asks for the name of the
old link's target once a sublist. -/
def forgetNames (h : ι) (old : Option ℕ) (s : Net ι) : Except Crash (Net ι) :=
  match s.outputNames h with
  | [] => .ok s
  | names =>
    match old with
    | none => .error .nullPointer
    | some p => do
      let t ← s.targetName p
      .ok (s.setNames h (removeNames t names))

/-- `disconnectOutput`. -/
def disconnectOutput (h : ι) (rank : OutputRank) (old : Option ℕ) (s : Net ι) :
    Except Crash (Net ι) :=
  match d.kind h with
  | .demux => do
    let s ← forgetNames h old s
    if rank = .PrimaryOutput ∧ old.isSome then d.deleteLink h .PrimaryOutputLink old s
    else d.baseDisconnectOutput h rank s
  | _ => d.baseDisconnectOutput h rank s

/-- `BaseTrafficHandler::connectOutput`. A link whose constructor throws is freed. -/
def baseConnectOutput (k : ℕ) (h target : ι) (outRank : OutputRank) (inRank : InputRank)
    (s : Net ι) : Except Crash (Option Thrown × Net ι) := do
  let s ← d.disconnectOutput h outRank none s
  let r ← d.connectSourceToTarget k s.next h target outRank inRank s.alloc
  match r with
  | (some e, s') => .ok (some e, s'.setHeap s.next none)
  | (none, s') => .ok (none, s'.setOutput h outRank (some (target, inRank)))

/-- `connectOutput`. -/
def connectOutput (k : ℕ) (h target : ι) (outRank : OutputRank) (inRank : InputRank)
    (s : Net ι) : Except Crash (Option Thrown × Net ι) :=
  if d.kind h = .demux ∧ outRank = .PrimaryOutput then .ok (some .nd_error, s)
  else d.baseConnectOutput k h target outRank inRank s

/-- The sublist of a target is written over, or one is added. -/
def addName (target : ι) (inRank : InputRank) (id : Octet) :
    List (ι × InputRank × Octet) → List (ι × InputRank × Octet)
  | [] => [(target, inRank, id)]
  | e :: es => if e.1 = target then (target, inRank, id) :: es else e :: addName target inRank id es

/-- The end of `Demux_Base::connectPrimaryOutput`: the new link is in the map before it is
connected, and stays there when that fails. -/
def connectNewOutput (k : ℕ) (h : ι) (id : Octet) (target : ι) (inRank : InputRank) (s : Net ι) :
    Except Crash (Option Thrown × Net ι) := do
  let p := s.next
  let s := s.alloc.setOutputs h (assign id p (s.primaryOutputLinks h))
  let r ← d.connectSourceToTarget k p h target .PrimaryOutput inRank s
  match r with
  | (some e, s) => .ok (some e, s)
  | (none, s) => .ok (none, s.setNames h (addName target inRank id (s.outputNames h)))

/-- `Demux_Base::connectPrimaryOutput`. -/
def connectPrimaryOutput (k : ℕ) (h : ι) (id : Octet) (target : ι) (inRank : InputRank)
    (s : Net ι) : Except Crash (Option Thrown × Net ι) :=
  match (s.primaryOutputLinks h).lookup id with
  | some p => do
    let l ← s.deref p
    if l.target = some target then .ok (none, s)
    else do
      let s ← d.disconnectOutput h .PrimaryOutput (some p) s
      d.connectNewOutput k h id target inRank s
  | none => d.connectNewOutput k h id target inRank s

/-! ## Withdrawal -/

/-- `delete links_[t]`. -/
def deleteSlot (h : ι) (t : LinkType) (s : Net ι) : Except Crash (Net ι) :=
  match s.links h t with
  | some p => d.destroy p s
  | none => .ok s

/-- `BaseTrafficHandler::withdraw`. -/
def baseWithdraw (h : ι) (s : Net ι) : Except Crash (Net ι) := do
  let s ← d.deleteSlot h .PrimaryInputLink s
  let s ← d.deleteSlot h .AuxInputLink s
  let s ← d.deleteSlot h .PrimaryOutputLink s
  d.deleteSlot h .AuxOutputLink s

/-- The loop of `Mux_Base::withdraw`, which begins again at the first link each time. -/
def withdrawInputs (h : ι) : ℕ → Net ι → Except Crash (Net ι)
  | 0, s => if s.primaryInputLinks h = [] then .ok s else .error .running
  | k + 1, s =>
    match s.primaryInputLinks h with
    | [] => .ok s
    | p :: _ => do
      let s ← d.deleteLink h .PrimaryInputLink (some p) s
      withdrawInputs h k s

/-- The loop of `Demux_Base::withdraw`: the iterator is used again after its link was deleted, which
erases the element it is at when the link is connected. -/
def withdrawOutputs (h : ι) : List (Octet × ℕ) → Net ι → Except Crash (Net ι)
  | [], s => .ok s
  | e :: es, s => do
    let s ← d.destroy e.2 s
    if e ∈ s.primaryOutputLinks h then withdrawOutputs h es s else .error .invalidIterator

/-- `withdraw`. -/
def withdraw (k : ℕ) (h : ι) (s : Net ι) : Except Crash (Net ι) :=
  match d.kind h with
  | .plain => d.baseWithdraw h s
  | .mux => do
    let s ← d.withdrawInputs h k s
    d.baseWithdraw h (s.setInputs h [])
  | .demux => do
    let s ← d.withdrawOutputs h (s.primaryOutputLinks h) s
    d.baseWithdraw h (s.setOutputs h [])

end Handlers

/-! ## Runs -/

/-- The public operations. -/
inductive Op (ι : Type) where
  | connectOutput (h target : ι) (outRank : OutputRank) (inRank : InputRank)
  | connectPrimaryOutput (h : ι) (id : Octet) (target : ι) (inRank : InputRank)
  | disconnectOutput (h : ι) (rank : OutputRank)
  | withdraw (h : ι)

/-- Only a demultiplexer has outputs by identifier. -/
def Op.Defined (d : Handlers ι) : Op ι → Prop
  | connectPrimaryOutput h _ _ _ => d.kind h = .demux
  | _ => True

/-- An operation, in at most `k` nested calls or turns of a loop. -/
def Op.run (d : Handlers ι) (k : ℕ) : Op ι → Net ι → Except Crash (Option Thrown × Net ι)
  | connectOutput h target outRank inRank, s => d.connectOutput k h target outRank inRank s
  | connectPrimaryOutput h id target inRank, s => d.connectPrimaryOutput k h id target inRank s
  | disconnectOutput h rank, s => do
    let s ← d.disconnectOutput h rank none s
    .ok (none, s)
  | withdraw h, s => do
    let s ← d.withdraw k h s
    .ok (none, s)

/-- What operations lead to from handlers without links, when each is `allowed` where it is called;
`r` is what the operation throws. -/
inductive Run (d : Handlers ι) (allowed : Net ι → Op ι → Option Thrown → Prop) : Net ι → Prop
  | start : Run d allowed {}
  | op {s s' : Net ι} {k : ℕ} {o : Op ι} {r : Option Thrown} : Run d allowed s → o.Defined d →
      allowed s o r → o.run d k s = .ok (r, s') → Run d allowed s'

end LinkGraph

end ChannelEmulator
