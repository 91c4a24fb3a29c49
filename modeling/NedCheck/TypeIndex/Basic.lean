import NedCheck.TypeInfo

/-!
# The type index

All types of the files added so far, by project and qualified name. A type inside another is known by the name of its owner, a dot and its own name. Declaring a name again replaces the declaration but not its place; a name belongs to the project that declared it first.

The index also remembers types it has worked out. Adding a file makes it forget them.
-/

namespace NedCheck

/-- The project and the qualified name of a type. -/
abbrev TypeKey := String × String

/-- A declared type. -/
structure TypeEntry where
  name : String
  qualifiedName : String
  file : String
  /-- The qualified name of the type around it, for inner types. -/
  enclosing : Option String
  element : Element

/-- Where the names in the header of the declaration are looked up. -/
def TypeEntry.headerContext (entry : TypeEntry) : LookupContext :=
  match entry.enclosing with
  | some outer => .type outer
  | none => .file entry.file

structure FileEntry where
  project : String
  package : String
  imports : List String
deriving DecidableEq, Repr

structure TypeIndex where
  types : Table TypeKey TypeEntry
  /-- The project that declared a qualified name first. -/
  owners : Table String String
  files : Table String FileEntry
  expectedPackages : Table String String
  /-- The types that have been worked out. -/
  known : Table TypeKey TypeInfo

namespace Element

mutual

/-- The types a declaration brings in: those in its first types section, then itself. -/
def declarations (file : String) (enclosing : Option String) (qualifiedName : String) :
    Element → List TypeEntry
  | e@⟨_, _, _, children, _, _⟩ =>
    declarationsInSection file qualifiedName children ++ [⟨e.name, qualifiedName, file, enclosing, e⟩]

/-- The types in the first types section among the children of a declaration. -/
def declarationsInSection (file owner : String) : List Element → List TypeEntry
  | [] => []
  | e :: rest => if e.tag = .types then declarationsUnder file owner e else declarationsInSection file owner rest

def declarationsUnder (file owner : String) : Element → List TypeEntry
  | ⟨_, _, _, children, _, _⟩ => declarationsAmong file owner children

def declarationsAmong (file owner : String) : List Element → List TypeEntry
  | [] => []
  | e :: rest =>
    (if e.tag.isTypeDeclaration then declarations file (some owner) (owner ++ "." ++ e.name) e else []) ++
      declarationsAmong file owner rest

end

/-- The types a file declares, in the order they are registered: inner types before their owners. -/
def fileDeclarations (file : Element) : List TypeEntry :=
  (file.children.filter (·.tag.isTypeDeclaration)).flatMap fun e =>
    declarations (file.value "filename") none (qualify file.packageName e.name) e

end Element

namespace TypeIndex

def empty : TypeIndex := ⟨∅, ∅, ∅, ∅, ∅⟩

instance : Inhabited TypeIndex := ⟨empty⟩

def register (index : TypeIndex) (project : String) (entry : TypeEntry) : TypeIndex :=
  { index with
    owners := index.owners.insertIfNew entry.qualifiedName project
    types := index.types.insert (project, entry.qualifiedName) entry }

def addNedFile (index : TypeIndex) (project : String) (file : Element) : TypeIndex :=
  let registered := file.fileDeclarations.foldl (fun index entry => index.register project entry) index
  { registered with
    files := registered.files.insert (file.value "filename") ⟨project, file.packageName, file.importSpecs⟩
    known := ∅ }

/-- Adds a NED file, or each NED file of a collection; other elements hold no types. -/
def addFile (index : TypeIndex) (project : String) (root : Element) : TypeIndex :=
  match root.tag with
  | .files =>
    (root.childrenWithTag .nedFile).foldl (fun index file => index.addNedFile project file) index
  | .nedFile => index.addNedFile project root
  | _ => index

def setExpectedPackage (index : TypeIndex) (file package : String) : TypeIndex :=
  { index with expectedPackages := index.expectedPackages.insert file package }

/-- The number of types, inner ones included. -/
def size (index : TypeIndex) : Nat := index.types.size

def isEmpty (index : TypeIndex) : Bool := index.types.isEmpty

def contains (index : TypeIndex) (project qualifiedName : String) : Bool :=
  index.types.contains (project, qualifiedName)

/-- The qualified names of the types at the top level of a project's files, in the order they were first registered. -/
def qualifiedNames (index : TypeIndex) (project : String) : List String :=
  (index.types.entries.filter fun (key, entry) => key.1 = project && entry.enclosing.isNone).map
    fun (_, entry) => entry.qualifiedName

end TypeIndex

end NedCheck
