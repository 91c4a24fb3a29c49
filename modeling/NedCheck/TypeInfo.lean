import NedCheck.Element.Basic
import NedCheck.Table

/-!
# Types and their members

What is known of a NED type once it is found: its declaration, where names in its header are looked up, and its members. Members are the parameters, gates, submodules and inner types a type declares or inherits; inherited ones come first, and each names the type that declares it.
-/

namespace NedCheck

/-- The qualified name of a type in a package; the package without a name adds nothing. -/
def qualify (package name : String) : String := if package.isEmpty then name else package ++ "." ++ name

/-- Where a type name is looked up from: the top level of a file, or the body of a type. -/
inductive LookupContext where
  | file (name : String)
  | type (qualifiedName : String)
deriving DecidableEq, Repr

def LookupContext.text : LookupContext → String
  | .file name => "file " ++ name
  | .type qualifiedName => "type " ++ qualifiedName

namespace Element

/-- A parameter with a type declares it, one without a type assigns it. -/
def isParamDeclaration (e : Element) : Bool := e.tag = .param && e.paramType ≠ .unspecified

/-- A gate with a direction is declared, one without is used. -/
def isGateDeclaration (e : Element) : Bool := e.tag = .gate && e.gateType ≠ .unspecified

end Element

structure Member where
  element : Element
  /-- The qualified name of the type that declares the member. -/
  owner : String

namespace Member

def tag (member : Member) : Tag := member.element.tag

def isParamDeclaration (member : Member) : Bool := member.element.isParamDeclaration

def isGateDeclaration (member : Member) : Bool := member.element.isGateDeclaration

def isSubmodule (member : Member) : Bool := member.element.tag = .submodule

end Member

structure TypeInfo where
  name : String
  qualifiedName : String
  element : Element
  /-- Where the names in the header of the declaration are looked up. -/
  headerContext : LookupContext
  members : Table String Member

namespace TypeInfo

def tag (info : TypeInfo) : Tag := info.element.tag

/-- Where names in the body of the declaration are looked up. -/
def bodyContext (info : TypeInfo) : LookupContext := .type info.qualifiedName

def member? (info : TypeInfo) (name : String) : Option Member := info.members.get? name

/-- The names of the members with a property, in member order. -/
def namesOf (info : TypeInfo) (property : Member → Bool) : List String :=
  (info.members.entries.filter fun entry => property entry.2).map Prod.fst

/-- The element that declares the named parameter. -/
def paramDeclaration? (info : TypeInfo) (name : String) : Option Element :=
  ((info.member? name).filter Member.isParamDeclaration).map (·.element)

/-- The element that declares the named gate. -/
def gateDeclaration? (info : TypeInfo) (name : String) : Option Element :=
  ((info.member? name).filter Member.isGateDeclaration).map (·.element)

end TypeInfo

/-- A source of types. An answer may change the state of the source, as when it remembers what it has worked out. -/
structure Resolver (σ : Type) where
  /-- The type a name stands for in a context. -/
  lookupType : String → LookupContext → σ → Option TypeInfo × σ
  /-- The type with a qualified name that is declared at the top level of a file of the project. -/
  lookupTopLevel : (qualifiedName project : String) → σ → Option TypeInfo × σ
  /-- The package a file should declare, where that is known. -/
  expectedPackage? : (file : String) → σ → Option String × σ
  /-- The qualified names of the types at the top level of a project's files. -/
  qualifiedNames : (project : String) → σ → List String × σ

end NedCheck
