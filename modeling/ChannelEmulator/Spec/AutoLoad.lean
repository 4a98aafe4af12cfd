import ChannelEmulator.Sorting.BottomUp
import Mathlib.Data.Finset.Card

/-!
# Automatic loading of segments

`Channel::autoLoad` of `server/Channel.cpp`, up to the loading, and the functions that it uses. The settings of a
channel have different names. The path of a segment is that of the channel and its name; here it is the name.
-/

namespace ChannelEmulator.AutoLoad

/-- A setting of a channel. It has a dependency on the first entries of its outputs. -/
structure Setting where
  name : String
  isGroup : Bool := true
  dllName : Option String := none
  autoLoad : Option Bool := none
  primaryOutput : Option String := none
  auxOutput : Option String := none
  primaryOutputs : Option (List String) := none
deriving DecidableEq, Repr

/-- The settings of a channel. -/
structure Channel where
  settings : List Setting
  names_nodup : (settings.map Setting.name).Nodup

/-- The setting of a name. -/
def Channel.find? (ch : Channel) (name : String) : Option Setting := ch.settings.find? fun seg => seg.name == name

/-- A failure of `getDependencies`. -/
inductive Failure
  | settingNotFound (name : String)
  | diverges
deriving DecidableEq, Repr

/-- The outputs of a segment, in the order in which they are looked at. -/
def Setting.outputs (seg : Setting) : List String :=
  seg.primaryOutput.toList ++ seg.auxOutput.toList ++ seg.primaryOutputs.getD []

/-- `addDependency`, by how the dependencies of a segment are got. -/
def addDependency (ch : Channel) (getDependencies : Setting → Finset String → Except Failure (Finset String))
    (deps : Finset String) (depName : String) : Except Failure (Finset String) :=
  -- a dependency that is in there already is not followed again
  if depName ∈ deps then .ok deps
  else
    match ch.find? depName with
    | some seg => getDependencies seg (insert depName deps)
    | none => .error (.settingNotFound depName)

/-- `getDependencies`, for a number of nested calls at most. -/
def getDependencies (ch : Channel) : ℕ → Setting → Finset String → Except Failure (Finset String)
  | 0, _, _ => .error .diverges
  | fuel + 1, seg, deps => seg.outputs.foldlM (addDependency ch (getDependencies ch fuel)) deps

/-- A segment that is to be loaded. -/
def Setting.loadable (seg : Setting) : Bool :=
  seg.isGroup && seg.dllName.isSome && (seg.autoLoad.isNone || seg.autoLoad == some true)

/-- `doesNotDependOn`. -/
def doesNotDependOn (possibleDependant possibleProvider : String × Finset String) : Bool :=
  if possibleProvider.1 ∈ possibleDependant.2 then false
  else if possibleDependant.2.card > possibleProvider.2.card then false
  else true

/-- `loadableSegments`, for a number of nested calls of `getDependencies` at most. -/
def loadableSegments (ch : Channel) (fuel : ℕ) : Except Failure (List (String × Finset String)) :=
  (ch.settings.filter Setting.loadable).mapM fun seg => do
    let segDeps ← getDependencies ch fuel seg ∅
    return (seg.name, segDeps)

/-- The order in which `autoLoad` adds the segments. -/
def autoLoad (ch : Channel) (fuel : ℕ) : Except Failure (List String) := do
  let segments ← loadableSegments ch fuel
  return (Sorting.listSort doesNotDependOn segments).map Prod.fst

end ChannelEmulator.AutoLoad
