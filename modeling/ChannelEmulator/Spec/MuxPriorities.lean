import ChannelEmulator.Spec.FrameMux
import Mathlib.Logic.Function.Basic

/-!
# The priorities of a multiplexer

`setPriority` and `getPriority` of `modules/AOS/AOS_Mux_Base.cpp` and `modules/TM/TM_Mux_Base.cpp`, with
the constructors' reading of the setting `channelID_Priorities`: a list of items, each of an identifier
and a priority.
-/

namespace ChannelEmulator.Mux

/-! ## `AOS_Mux_Base` -/

/-- The map `priorities_`, and the list `prioritiesSetting_`. -/
structure AOSPriorities where
  defaultPriority : ℤ
  priorities : Octet → Option ℤ
  prioritiesSetting : List (ℕ × ℤ)

namespace AOSPriorities

/-- The constructor's loop over the saved list. -/
def load (saved : List (ℕ × ℤ)) : Octet → Option ℤ :=
  saved.foldl (fun priorities item => Function.update priorities (UInt8.ofNat item.1) (some item.2)) fun _ => none

/-- The constructor. -/
def new (defaultPriority : ℤ) (saved : List (ℕ × ℤ)) : AOSPriorities where
  defaultPriority := defaultPriority
  priorities := load saved
  prioritiesSetting := saved

def getPriority (m : AOSPriorities) (identifier : Octet) : ℤ :=
  match m.priorities identifier with
  | some priority => priority
  | none => m.defaultPriority

/-- The loop over the saved list, which stores the identifier. -/
def updateItems (identifier : Octet) (items : List (ℕ × ℤ)) : List (ℕ × ℤ) :=
  items.map fun item => if item.1 = identifier.toNat then (item.1, (identifier.toNat : ℤ)) else item

/-- `setPriority`. An item is added in any case. -/
def setPriority (m : AOSPriorities) (identifier : Octet) (newPriority : ℤ) : AOSPriorities :=
  let m := if (m.priorities identifier).isSome then
      { m with
        priorities := Function.update m.priorities identifier (some newPriority)
        prioritiesSetting := updateItems identifier m.prioritiesSetting }
    else m
  { m with prioritiesSetting := m.prioritiesSetting ++ [((identifier.toNat : ℕ), newPriority)] }

end AOSPriorities

/-! ## `TM_Mux_Base` -/

/-- The list `priorities_`, which is the saved one. -/
structure TMPriorities where
  defaultPriority : ℤ
  priorities : List (ℕ × ℤ)

namespace TMPriorities

/-- The constructor. -/
def new (defaultPriority : ℤ) (saved : List (ℕ × ℤ)) : TMPriorities := ⟨defaultPriority, saved⟩

def getPriority (m : TMPriorities) (identifier : Octet) : ℤ :=
  match m.priorities.find? (fun item => item.1 = identifier.toNat) with
  | some item => item.2
  | none => m.defaultPriority

/-- The loop of `setPriority` and what is behind it. In the first item of the identifier, the identifier
is stored. -/
def setItem (identifier : Octet) (newPriority : ℤ) : List (ℕ × ℤ) → List (ℕ × ℤ)
  | [] => [((identifier.toNat : ℕ), newPriority)]
  | item :: items =>
    if item.1 = identifier.toNat then (item.1, (identifier.toNat : ℤ)) :: items
    else item :: setItem identifier newPriority items

def setPriority (m : TMPriorities) (identifier : Octet) (newPriority : ℤ) : TMPriorities :=
  { m with priorities := setItem identifier newPriority m.priorities }

end TMPriorities

end ChannelEmulator.Mux
