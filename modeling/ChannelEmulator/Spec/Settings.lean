import ChannelEmulator.Spec.HttpServer

/-!
# The configuration tree

`SettingsManager::getOrAdd` with `getParentPath` and `getChildName` (`SettingsManager.cpp`).

* `LibConfig`: the configuration library, which is not part of the source: what its `lookup` finds and what its
  `add` makes of a tree. A reference to a setting is its path.
* `LibConfig.Documented`: what the library promises of the two.
* `getOrAdd`: what it throws, or whether it created the setting, with the tree that it leaves.
-/

namespace ChannelEmulator

namespace Settings

open Http (ascii)

/-- `Setting::Type`. -/
inductive SettingType where
  | none | int | int64 | float | string | boolean | group | array | list
deriving DecidableEq

/-- `SettingsManager::settingType2Str`. -/
def settingType2Str : SettingType → String
  | .int => "Int"
  | .int64 => "Int64"
  | .float => "Float"
  | .string => "String"
  | .boolean => "Boolean"
  | .array => "Array"
  | .list => "List"
  | .group => "Group"
  | .none => "Unknown"

/-- What is read of a setting: its value is that of a scalar, not the settings in a group. -/
structure Setting (Value : Type) where
  type : SettingType
  sourceLine : ℕ
  value : Value

inductive SettingError where
  | exception (msg : Bytes)
  | settingName
  | settingType
deriving DecidableEq

/-- `lookup` finds a setting, and `add` makes a tree with a new member of the setting at a path. -/
structure LibConfig (Tree Value : Type) where
  lookup : Tree → Bytes → Option (Setting Value)
  add : Tree → Bytes → Bytes → SettingType → Except SettingError Tree

/-! ## Paths -/

def dot : Octet := 46

/-- `path.rfind(".")`. -/
def rfindDot : Bytes → Option ℕ
  | [] => none
  | b :: path =>
    match rfindDot path with
    | some idx => some (idx + 1)
    | none => if b = dot then some 0 else none

/-- `SettingsManager::getParentPath`. -/
def getParentPath (path : Bytes) : Bytes :=
  match rfindDot path with
  | some idx => path.take idx
  | none => []

/-- `SettingsManager::getChildName`. -/
def getChildName (path : Bytes) : Bytes :=
  match rfindDot path with
  | some idx => path.drop (idx + 1)
  | none => path

theorem rfindDot_lt {path : Bytes} {idx : ℕ} (h : rfindDot path = some idx) : idx < path.length := by
  induction path generalizing idx with
  | nil => cases h
  | cons b path ih =>
    unfold rfindDot at h
    cases hr : rfindDot path with
    | some i =>
      rw [hr] at h
      obtain rfl := Option.some.inj h
      exact Nat.succ_lt_succ (ih hr)
    | none =>
      simp only [hr, Option.ite_none_right_eq_some, Option.some.injEq] at h
      rw [← h.2]
      exact Nat.succ_pos _

theorem getParentPath_length {path : Bytes} (h : path ≠ []) : (getParentPath path).length < path.length := by
  unfold getParentPath
  cases hr : rfindDot path with
  | none => exact List.length_pos_iff.2 h
  | some idx =>
    have hlt := rfindDot_lt hr
    rw [List.length_take]
    omega

/-! ## Creation -/

variable {Tree Value : Type}

/-- What a setting of another type is reported with. -/
def typeError (path : Bytes) (settingType : SettingType) (cur : Setting Value) : Bytes :=
  ascii "Config file error, line " ++ ascii (toString cur.sourceLine) ++ ascii ", setting " ++ path ++
    ascii ": expected type '" ++ ascii (settingType2Str settingType) ++ ascii "', found type '" ++
    ascii (settingType2Str cur.type) ++ ascii "'." ++
    if cur.type = .string then ascii " Try removing quotes around value."
    else if settingType = .string then ascii " Try putting quotes around value."
    else []

/-- `SettingsManager::getOrAdd`. What an exception leaves of the tree stays. -/
def getOrAdd (C : LibConfig Tree Value) (path : Bytes) (settingType : SettingType) (wasCreated : Bool)
    (t : Tree) : Except SettingError Bool × Tree :=
  if _h : path = [] then (.ok wasCreated, t)
  else
    match C.lookup t path with
    | some cur =>
      if cur.type = settingType then (.ok false, t)
      else (.error (.exception (typeError path settingType cur)), t)
    | none =>
      -- `parentWasCreated` is not read
      match getOrAdd C (getParentPath path) .group false t with
      | (.error e, t) => (.error e, t)
      | (.ok _, t) =>
        match C.add t (getParentPath path) (getChildName path) settingType with
        | .error e => (.error e, t)
        | .ok t => (.ok true, t)
termination_by path.length
decreasing_by exact getParentPath_length _h

/-! ## What the library promises -/

/-- `[A-Za-z]`. -/
def isLetter (b : Octet) : Bool := (65 ≤ b && b ≤ 90) || (97 ≤ b && b ≤ 122)

/-- A name that `add` takes: `[A-Za-z\*][-A-Za-z0-9_\*]*`. -/
def validName : Bytes → Bool
  | [] => false
  | b :: name => (isLetter b || b == 42) &&
      name.all fun c => isLetter c || (48 ≤ c && c ≤ 57) || c == 42 || c == 95 || c == 45

namespace LibConfig

variable (C : LibConfig Tree Value)

/-- There is a setting of a type at a path. -/
def Has (t : Tree) (path : Bytes) (settingType : SettingType) : Prop :=
  ∃ s, C.lookup t path = some s ∧ s.type = settingType

/-- Every setting is still there, with its type and value. -/
def Keeps (t t' : Tree) : Prop := ∀ path s, C.lookup t path = some s → C.lookup t' path = some s

/-- A group: the one without a path is the root. -/
def IsGroup (t : Tree) (path : Bytes) : Prop := path = [] ∨ C.Has t path .group

/-- The path of a member. -/
def join (parent name : Bytes) : Bytes := if parent = [] then name else parent ++ dot :: name

/-- **What the library promises**: a path may begin with a separator; the settings above one that is found are
there; and `add` makes a new setting, that has no members, in a group, just if the name is valid. -/
structure Documented : Prop where
  leading : ∀ t path, C.lookup t (dot :: path) = C.lookup t path
  above : ∀ t parent rest, parent ≠ [] → C.lookup t parent = none → C.lookup t (parent ++ dot :: rest) = none
  add_valid : ∀ t parent name settingType, C.IsGroup t parent → validName name = true →
    C.lookup t (join parent name) = none →
    ∃ t', C.add t parent name settingType = .ok t' ∧ C.Keeps t t' ∧ C.Has t' (join parent name) settingType ∧
      ∀ rest, validName rest = true → C.lookup t' (join parent name ++ dot :: rest) = none
  add_invalid : ∀ t parent name settingType, C.IsGroup t parent → validName name = false →
    C.add t parent name settingType = .error .settingName

end LibConfig

/-! ## What creation is for -/

/-- A path of which the other is the begin, up to a dot. -/
def Ancestor (above path : Bytes) : Prop := above ≠ [] ∧ ∃ rest, path = above ++ dot :: rest

/-- A setting that is not there but can be created with those above it: the nearest one that is there is a group,
and the names from it on are valid. -/
inductive Addable (C : LibConfig Tree Value) (t : Tree) : Bytes → Prop
  | inGroup {path : Bytes} : path ≠ [] → C.lookup t path = none → validName (getChildName path) = true →
    C.IsGroup t (getParentPath path) → Addable C t path
  | inAddable {path : Bytes} : path ≠ [] → C.lookup t path = none → validName (getChildName path) = true →
    Addable C t (getParentPath path) → Addable C t path

/-- The setting is there with the groups above it, and nothing else changed. -/
structure Created (C : LibConfig Tree Value) (t : Tree) (path : Bytes) (settingType : SettingType)
    (wasCreated : Bool) (t' : Tree) : Prop where
  has : C.Has t' path settingType
  groups : ∀ above, Ancestor above path → C.lookup t above = none → C.Has t' above .group
  keeps : C.Keeps t t'
  wasCreated : wasCreated = true ↔ C.lookup t path = none

end Settings

end ChannelEmulator
