import ChannelEmulator.Spec.NetworkData
import ChannelEmulator.Graph.Walk
import Mathlib.Data.List.Infix
import Mathlib.Logic.Function.Basic

/-!
# The registry of loaded modules

`CE_DLL_Registry` (`CE_DLL_Registry.cpp`): the modules that were discovered in the module directory
with the modules that each depends on, and the modules that are loaded.

* `loadIfNotLoaded` loads the dependencies first and records that each is depended on;
  `unloadIfLoaded` unloads what was recorded first. Both are cut short at a name that the names
  whose calls are under way, written one behind the other, contain.
* `refreshAvailableDLLList` reads the directory again, which drops what was recorded.
* `Call`, `Run`: the calls from outside, and what they can lead to.

What the dynamic linker answers and the numbers of objects that refer to a module are arguments of
the calls. The RPC methods that a module registers play no part in loading.
-/

namespace ChannelEmulator

namespace DllRegistry

abbrev Name := Bytes

/-- An element of a `std::set` or a key of a `std::map`, which keep their order. -/
def setInsert (x : Name) : List Name → List Name
  | [] => [x]
  | y :: ys => if x = y then y :: ys else if x < y then x :: y :: ys else y :: setInsert x ys

/-- `CEModuleDesc`, as far as loading and unloading read it. -/
structure ModuleDesc where
  path : Bytes := []
  dependencies : List Name := []
  reverseDependencies : List Name := []
  deriving DecidableEq

def ModuleDesc.addDependency (m : ModuleDesc) (newDep : Name) : ModuleDesc :=
  { m with dependencies := setInsert newDep m.dependencies }

def ModuleDesc.addReverseDependency (m : ModuleDesc) (newDep : Name) : ModuleDesc :=
  { m with reverseDependencies := setInsert newDep m.reverseDependencies }

/-- A module file in the module directory, with the dependencies its property file lists. -/
structure ModuleFile where
  name : Name
  path : Bytes
  depends : List Name

def ModuleFile.describe (f : ModuleFile) : ModuleDesc :=
  f.depends.foldl ModuleDesc.addDependency { path := f.path }

/-- The module files of the directory in order. -/
abbrev Directory := List ModuleFile

/-- `_availableModules` and the keys of `_dllRegister`. -/
structure State where
  available : Name → Option ModuleDesc := fun _ => none
  register : List Name := []

namespace State

/-- `_availableModules[dllName]`. -/
def entry (s : State) (dllName : Name) : ModuleDesc := (s.available dllName).getD {}

/-- `_availableModules[dllName]` inserts an entry where there is none. -/
def touch (s : State) (dllName : Name) : State :=
  { s with available := Function.update s.available dllName (some (s.entry dllName)) }

def addReverseDependency (s : State) (dllName newDep : Name) : State :=
  let desc := (s.entry dllName).addReverseDependency newDep
  { s with available := Function.update s.available dllName (some desc) }

end State

/-- The entries of the directory's modules. -/
def Directory.table (d : Directory) : Name → Option ModuleDesc :=
  d.foldl (fun t f => Function.update t f.name (some f.describe)) fun _ => none

/-- `CE_DLL_Registry::refreshAvailableDLLList`: nothing changes when the directory cannot be read. -/
def refreshAvailableDLLList (d : Directory) (readable : Bool) (s : State) : State :=
  if readable then { s with available := d.table } else s

/-- The body of the loop over the dependencies of `dllName`. -/
def loadDependency (load : Name → State → Option (Bool × State)) (dllName pos : Name) (s : State) :
    Option (Bool × State) :=
  match load pos s with
  | some (true, s) => some (true, s.addReverseDependency pos dllName)
  | r => r

/-- `CE_DLL_Registry::loadIfNotLoaded`. `opens`: whether the dynamic linker loads the module at a
path. -/
def loadIfNotLoaded (opens : Name → Bytes → Bool) :
    ℕ → Name → Name → State → Option (Bool × State)
  | 0, _, _, _ => none
  | k + 1, dllName, loading, s =>
    if dllName <:+: loading then some (true, s)
    else if dllName ∈ s.register then some (true, s)
    else if (s.available dllName).isNone then some (false, s)
    else
      let load pos s := loadIfNotLoaded opens k pos (loading ++ dllName) s
      match inTurn (loadDependency load dllName) (s.entry dllName).dependencies s with
      | some (true, s) =>
        if opens dllName (s.entry dllName).path then
          some (true, { s with register := setInsert dllName s.register })
        else some (false, s)
      | r => r

/-- `CE_DLL_Registry::unloadIfLoaded`. `objects`: the reference counts of the modules. -/
def unloadIfLoaded (objects : Name → ℕ) : ℕ → Name → Name → State → Option (Bool × State)
  | 0, _, _, _ => none
  | k + 1, dllName, unloading, s =>
    if dllName <:+: unloading then some (true, s)
    else if dllName ∉ s.register then some (true, s)
    else if objects dllName > 0 then some (false, s)
    else
      let unload rpos s := unloadIfLoaded objects k rpos (unloading ++ dllName) s
      match inTurn unload (s.entry dllName).reverseDependencies (s.touch dllName) with
      | some (true, s) => some (true, { s with register := s.register.filter (· ≠ dllName) })
      | r => r

/-- `CE_DLL_Registry::unloadAll`: whether a call unloaded its module is not looked at. -/
def unloadAll (objects : Name → ℕ) : ℕ → State → Option State
  | 0, _ => none
  | k + 1, s =>
    match s.register with
    | [] => some s
    | dllName :: _ => (unloadIfLoaded objects k dllName [] s).bind fun r => unloadAll objects k r.2

/-- The calls from outside. -/
inductive Call where
  | load (dllName : Name) (opens : Name → Bytes → Bool)
  | unload (dllName : Name) (objects : Name → ℕ)
  | refresh (readable : Bool)

/-- What a call returns, and the state it leaves; a refresh returns nothing. -/
def Call.Returns (d : Directory) : Call → State → Bool × State → Prop
  | load dllName opens, s, r => ∃ k, loadIfNotLoaded opens k dllName [] s = some r
  | unload dllName objects, s, r => ∃ k, unloadIfLoaded objects k dllName [] s = some r
  | refresh readable, s, r => r = (true, refreshAvailableDLLList d readable s)

/-- The states that calls lead to which are `allowed` when they are made. The constructor reads the
directory. -/
inductive Run (d : Directory) (allowed : State → Call → Prop) : State → Prop
  | start (readable : Bool) : Run d allowed (refreshAvailableDLLList d readable {})
  | call {s s' : State} {c : Call} {b : Bool} : Run d allowed s → allowed s c →
      c.Returns d s (b, s') → Run d allowed s'

/-! ## What the calls are for -/

/-- The modules a module depends on. -/
def Directory.dependencies (d : Directory) (dllName : Name) : List Name :=
  ((d.table dllName).map ModuleDesc.dependencies).getD []

/-- Every loaded module has its dependencies. -/
def Closed (d : Directory) (s : State) : Prop :=
  ∀ a ∈ s.register, ∀ b ∈ d.dependencies a, b ∈ s.register

/-- `a` depends on `b`, directly or not, or is `b`. -/
def Directory.Needs (d : Directory) : Name → Name → Prop :=
  Relation.ReflTransGen fun a b => b ∈ d.dependencies a

/-- What a call that returned has to have done. -/
def Kept (d : Directory) (c : Call) (b : Bool) (s' : State) : Prop :=
  Closed d s' ∧ ∀ dllName opens, c = .load dllName opens → b = true →
    ∀ m, d.Needs dllName m → m ∈ s'.register

/-- No object refers to the module, nor to one that is recorded to depend on it. -/
def State.Unreferenced (s : State) (objects : Name → ℕ) (dllName : Name) : Prop :=
  objects dllName = 0 ∧ ∀ m ∈ (s.entry dllName).reverseDependencies, objects m = 0

/-- What `unloadAll` is for: it returns, and the modules without outstanding references are gone. -/
def UnloadsAll (objects : Name → ℕ) (s : State) : Prop :=
  ∃ k s', unloadAll objects k s = some s' ∧
    ∀ m ∈ s.register, s.Unreferenced objects m → m ∉ s'.register

/-! ## The calls as walks -/

/-- The test that cuts a call short. -/
def underWay (path : List Name) (dllName : Name) : Bool := decide (dllName <:+: path.flatten)

/-- Loading walks along the dependencies. -/
def loadWalk (opens : Name → Bytes → Bool) : Walk Name State where
  guard := underWay
  finished s dllName := decide (dllName ∈ s.register)
  refuses s dllName := (s.available dllName).isNone
  next s dllName := (s.entry dllName).dependencies
  note dllName pos s := s.addReverseDependency pos dllName
  finish dllName s :=
    if opens dllName (s.entry dllName).path then
      some { s with register := setInsert dllName s.register }
    else none

/-- Unloading walks along the reverse dependencies. -/
def unloadWalk (objects : Name → ℕ) : Walk Name State where
  guard := underWay
  finished s dllName := decide (dllName ∉ s.register)
  refuses _ dllName := decide (objects dllName > 0)
  next s dllName := (s.entry dllName).reverseDependencies
  enter dllName s := s.touch dllName
  finish dllName s := some { s with register := s.register.filter (· ≠ dllName) }

/-- The module is known and the dynamic linker loads it. -/
def State.CanLoad (s : State) (opens : Name → Bytes → Bool) (dllName : Name) : Prop :=
  ∃ desc, s.available dllName = some desc ∧ opens dllName desc.path = true

/-- **When a call keeps the dependencies of what is loaded.** A name on the way is contained in the
names before it only if it is one of them, and no module on a cycle fails; an unload has the reverse
dependencies of what it unloads on record. -/
def Allowed (d : Directory) (s : State) : Call → Prop
  | .load dllName opens =>
    Walk.Smooth d.dependencies (· ∈ s.register) underWay (s.CanLoad opens) dllName
  | .unload dllName objects =>
    Walk.Smooth (fun m => (s.entry m).reverseDependencies) (· ∉ s.register) underWay
      (fun m => objects m = 0) dllName ∧
    ∀ b, Walk.Reaches (fun m => (s.entry m).reverseDependencies) (· ∉ s.register) dllName b →
      ∀ a ∈ s.register, b ∈ d.dependencies a → a ≠ b → a ∈ (s.entry b).reverseDependencies
  | .refresh _ => True

end DllRegistry

end ChannelEmulator
