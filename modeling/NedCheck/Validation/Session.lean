import NedCheck.Scope
import NedCheck.Validation.Problem

/-!
# Validators and sessions

A validator is what stays the same through a validation: where types come from, the project, the default channel type and the caller's own checks. A session is what changes: the context and package that types are declared in, the imports of the file, and the scope. Every element gets a `Ruling`: what there is to report on it, the session after it, and what is to become of its children.
-/

namespace NedCheck

/-- Checks that a caller adds; each may find one problem with the element it is given. -/
structure Hooks where
  /-- Looks at a type, and at an interface it names. -/
  compliance : Element → TypeInfo → Option String
  /-- Looks at a type, and at a base of the same kind. -/
  inheritance : Element → TypeInfo → Option String
  /-- Looks at an import, and at all imports of its file. -/
  importClash : Element → List String → Option String

/-- No checks besides those of the language. -/
def Hooks.silent : Hooks := ⟨fun _ _ => none, fun _ _ => none, fun _ _ => none⟩

structure Validator (σ : Type) where
  resolver : Resolver σ
  project : String
  /-- The channel type of connections whose channel spec names none. -/
  defaultChannelType : String
  hooks : Hooks

/-- The validator with the default settings. -/
def Validator.standard {σ : Type} (resolver : Resolver σ) (project : String) : Validator σ :=
  ⟨resolver, project, "ned.DatarateChannel", .silent⟩

structure Session where
  /-- Where the headers of the types declared at this level are looked up. -/
  context : LookupContext
  package : String
  imports : List String
  scope : Scope

namespace Session

/-- The session for types declared in a context, with nothing in scope. -/
def fresh (context : LookupContext) (package : String) (imports : List String) : Session :=
  ⟨context, package, imports, .empty⟩

/-- The session a validation starts with. -/
def initial : Session := fresh (.file "") "" []

/-- The session for the inner types of a type; nothing of the scope around them is in it. -/
def inner (session : Session) (owner : String) : Session :=
  fresh (.type owner) session.package session.imports

/-- The qualified name of a type declared at this level. -/
def qualifiedName (session : Session) (name : String) : String :=
  match session.context with
  | .type outer => outer ++ "." ++ name
  | .file _ => qualify session.package name

def withScope (session : Session) (scope : Scope) : Session := { session with scope }

/-- The session inside a declaration. A type starts with no members. -/
def enter (session : Session) (frame : Frame) : Session :=
  match frame with
  | .type _ => session.withScope (session.scope.clear.push frame)
  | _ => session.withScope (session.scope.push frame)

/-- The session after a declaration. A type leaves no members behind. -/
def leave (session : Session) (frame : Frame) : Session :=
  match frame with
  | .type _ => session.withScope session.scope.pop.clear
  | _ => session.withScope session.scope.pop

end Session

/-- What becomes of the children of an element. -/
inductive Verdict where
  /-- The validation ends here. -/
  | fault (fault : ValidationFault)
  /-- The children are not looked at. -/
  | skip
  /-- The children are validated in the same scope. -/
  | descend
  /-- The children are validated inside a declaration. -/
  | within (frame : Frame)
  /-- The children are validated one by one as inner types of the named type. -/
  | innerTypes (owner : String)

structure Ruling (σ : Type) where
  reports : List Report
  session : Session
  state : σ
  verdict : Verdict

end NedCheck
