import NedCheck.ImportSpec
import NedCheck.TypeIndex.Basic

/-!
# Name resolution

What a type name stands for in a context: the first registered one of its candidates, in the order scopes are searched. A name with a dot stands for itself. A simple name is sought in the enclosing types from the innermost outwards, in the file's own package, among its explicit imports, and last among its wildcard imports. In a context the index does not know, a name stands for the qualified name it spells.
-/

namespace NedCheck

namespace TypeIndex

/-- Where a known context lies. -/
structure Origin where
  project : String
  file : Option FileEntry
  /-- The innermost type around the context. -/
  enclosing : Option String

def origin? (index : TypeIndex) : LookupContext → Option Origin
  | .file name => (index.files.get? name).map fun file => ⟨file.project, some file, none⟩
  | .type qualifiedName => do
    let project ← index.owners.get? qualifiedName
    let entry ← index.types.get? (project, qualifiedName)
    return ⟨project, index.files.get? entry.file, some qualifiedName⟩

/-- A type and the types around it, innermost first, at most `bound` of them. Names get shorter on the way out, so a bound above the length of the first name cuts nothing off. -/
def outward (index : TypeIndex) (project : String) : Nat → String → List String
  | 0, _ => []
  | bound + 1, name =>
    name :: match (index.types.get? (project, name)).bind (·.enclosing) with
      | some outer => outward index project bound outer
      | none => []

/-- The names a simple name may stand for inside a type. -/
def enclosedCandidates (index : TypeIndex) (project name : String) : Option String → List String
  | none => []
  | some type => (index.outward project (type.length + 1) type).map fun outer => outer ++ "." ++ name

/-- The earliest registered type at the top level of the project that has the simple name and matches the import. -/
def importedBy? (index : TypeIndex) (project name spec : String) : Option String :=
  (index.types.entries.find? fun (key, entry) =>
    key.1 = project && entry.enclosing.isNone && entry.name = name && importMatches spec key.2).map
      fun (key, _) => key.2

/-- The names a simple name may stand for at the top level of a file. -/
def fileCandidates (index : TypeIndex) (project name : String) : Option FileEntry → List String
  | none => []
  | some file =>
    let explicit := (file.imports.filter fun spec => !isWildcardImport spec).filter (importsName · name)
    let wildcards := (file.imports.filter isWildcardImport).filterMap (index.importedBy? project name)
    qualify file.package name :: explicit ++ wildcards

/-- The qualified names a name may stand for in a known context, in the order they are tried. -/
def candidates (index : TypeIndex) (origin : Origin) (name : String) : List String :=
  if name.toList.contains '.' then [name]
  else
    index.enclosedCandidates origin.project name origin.enclosing ++
      index.fileCandidates origin.project name origin.file

/-- The type a name stands for in a context. -/
def resolve? (index : TypeIndex) (name : String) (context : LookupContext) : Option TypeKey :=
  match index.origin? context with
  | some origin =>
    ((index.candidates origin name).find? fun candidate => index.types.contains (origin.project, candidate)).map
      (origin.project, ·)
  | none => (index.owners.get? name).map (·, name)

end TypeIndex

end NedCheck
