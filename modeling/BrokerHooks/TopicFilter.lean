namespace BrokerHooks

namespace TopicFilter

inductive Fault where
  | empty
  | groupUnterminated
  | groupEmpty
  | groupWildcard
  | sharedFilterEmpty
  | multiLevelMisplaced
  | singleLevelMisplaced
  | wildcardsDisabled
  | sharedDisabled
deriving DecidableEq, Repr

def Fault.message : Fault → String
  | .empty => "topic filter cannot be empty"
  | .groupUnterminated => "invalid shared subscription format"
  | .groupEmpty => "shared subscription group name cannot be empty"
  | .groupWildcard => "shared subscription group name cannot contain wildcards"
  | .sharedFilterEmpty => "shared subscription filter cannot be empty"
  | .multiLevelMisplaced => "multi-level wildcard must be the entire last level"
  | .singleLevelMisplaced => "single-level wildcard must occupy entire level"
  | .wildcardsDisabled => "wildcard subscriptions are disabled"
  | .sharedDisabled => "shared subscriptions are disabled"

def isWildcard (c : Char) : Bool := c = '+' || c = '#'

def sharedMark : List Char := "$share/".toList

def isSharedChars (f : List Char) : Bool := sharedMark.isPrefixOf f

def isShared (filter : String) : Bool := isSharedChars filter.toList

def hasWildcard (filter : String) : Bool := filter.toList.any isWildcard

/-- The parts between the slashes; a text without a slash is its own only level. -/
def levels : List Char → List (List Char)
  | [] => [[]]
  | c :: rest =>
    if c = '/' then [] :: levels rest
    else
      match levels rest with
      | [] => [[c]]
      | level :: more => (c :: level) :: more

/-- The first level that misuses a wildcard decides the fault. -/
def levelsFault? : List (List Char) → Option Fault
  | [] => none
  | level :: rest =>
    if '#' ∈ level ∧ (level ≠ ['#'] ∨ rest ≠ []) then some .multiLevelMisplaced
    else if '+' ∈ level ∧ level ≠ ['+'] then some .singleLevelMisplaced
    else levelsFault? rest

/-- The group name of what follows `$share/`, and the filter behind it. -/
def splitGroup? (rest : List Char) : Option (List Char × List Char) :=
  match rest.dropWhile (· ≠ '/') with
  | [] => none
  | _ :: filter => some (rest.takeWhile (· ≠ '/'), filter)

def sharedFault? (rest : List Char) : Option Fault :=
  match splitGroup? rest with
  | none => some .groupUnterminated
  | some (group, filter) =>
    if group = [] then some .groupEmpty
    else if group.any isWildcard then some .groupWildcard
    else if filter = [] then some .sharedFilterEmpty
    else levelsFault? (levels filter)

def faultChars? (f : List Char) : Option Fault :=
  if f = [] then some .empty
  else
    match sharedMark.isPrefixOf? f with
    | some rest => sharedFault? rest
    | none => levelsFault? (levels f)

/-- What keeps `filter` from being a topic filter, whatever the broker permits. -/
def fault? (filter : String) : Option Fault := faultChars? filter.toList

theorem levels_ne_nil (f : List Char) : levels f ≠ [] := by
  cases f with
  | nil => simp [levels]
  | cons c rest =>
    unfold levels
    split
    · simp
    · split <;> simp

end TopicFilter
end BrokerHooks
