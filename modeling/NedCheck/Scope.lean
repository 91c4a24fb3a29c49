import NedCheck.TypeInfo

/-!
# Scopes

What is known at a point of a walk through a file: the members of the type the walk is in, its inner types, and the declarations it has entered, innermost first.
-/

namespace NedCheck

/-- A type declaration that has been entered. -/
structure OpenType where
  element : Element
  qualifiedName : String
  /-- Where the names in the header of the declaration are looked up. -/
  headerContext : LookupContext

/-- A declaration that has been entered. Submodules and channel specs are of a type, unless it could not be found. -/
inductive Frame where
  | type (opened : OpenType)
  | submodule (element : Element) (resolved : Option TypeInfo)
  | channelSpec (element : Element) (resolved : Option TypeInfo)

structure Scope where
  members : Table String Member
  innerTypes : Table String TypeInfo
  /-- The declarations that have been entered, innermost first. -/
  frames : List Frame

namespace Scope

def empty : Scope := ⟨∅, ∅, []⟩

instance : Inhabited Scope := ⟨empty⟩

def push (scope : Scope) (frame : Frame) : Scope := { scope with frames := frame :: scope.frames }

def pop (scope : Scope) : Scope := { scope with frames := scope.frames.tail }

def depth (scope : Scope) : Nat := scope.frames.length

/-- The innermost type that has been entered. -/
def currentType? (scope : Scope) : Option OpenType :=
  scope.frames.findSome? fun
    | .type opened => some opened
    | _ => none

/-- The innermost declaration and its type, if it is a submodule. -/
def currentSubmodule? (scope : Scope) : Option (Element × Option TypeInfo) :=
  match scope.frames with
  | .submodule element resolved :: _ => some (element, resolved)
  | _ => none

/-- The innermost declaration and its type, if it is a channel spec. -/
def currentChannelSpec? (scope : Scope) : Option (Element × Option TypeInfo) :=
  match scope.frames with
  | .channelSpec element resolved :: _ => some (element, resolved)
  | _ => none

/-- The scope without members and inner types, inside the same declarations. -/
def clear (scope : Scope) : Scope := { scope with members := ∅, innerTypes := ∅ }

/-- No members, no inner types, and nothing entered. -/
def isClear (scope : Scope) : Bool :=
  scope.members.isEmpty && scope.innerTypes.isEmpty && scope.frames.isEmpty

def addMember (scope : Scope) (name : String) (member : Member) : Scope :=
  { scope with members := scope.members.insert name member }

def addInnerType (scope : Scope) (name : String) (info : TypeInfo) : Scope :=
  { scope with innerTypes := scope.innerTypes.insert name info }

@[simp] theorem pop_push (scope : Scope) (frame : Frame) : (scope.push frame).pop = scope := rfl

end Scope

end NedCheck
