import NedCheck.TypeIndex.Resolution

/-!
# Looking up types

A type is worked out from its declaration: the members of its bases first, base by base, then its own in the order of its sections; of two members with one name the first counts. A base is an `extends` that stands for a type of the same kind. A base on whose account the type is just being worked out is left out, so cyclic inheritance comes to an end.

Types asked for are remembered as they came out. Bases worked out on the way are not, since they may lack what a cycle cut off.
-/

namespace NedCheck

/-- The declarations in one section of a type. -/
def Element.sectionDeclarations (part : Element) : List Element :=
  match part.tag with
  | .parameters => part.children.filter (·.isParamDeclaration)
  | .gates => part.children.filter (·.isGateDeclaration)
  | .types => part.children.filter (·.tag.isTypeDeclaration)
  | .submodules => part.childrenWithTag .submodule
  | _ => []

/-- The members a type declares itself, by name, in the order of its sections. -/
def TypeEntry.ownMembers (entry : TypeEntry) : List (String × Member) :=
  (entry.element.children.flatMap (·.sectionDeclarations)).map fun e => (e.name, ⟨e, entry.qualifiedName⟩)

namespace TypeIndex

/-- Works out a type on account of the types in `path`, going down at most `depth` bases. -/
def build (index : TypeIndex) : Nat → List TypeKey → TypeKey → Option TypeInfo
  | 0, _, _ => none
  | depth + 1, path, key =>
    match index.known.get? key with
    | some info => some info
    | none =>
      match index.types.get? key with
      | none => none
      | some entry =>
        if path.contains key then none
        else
          let bases := (entry.element.childrenWithTag .extendsName).filterMap fun base =>
            (index.resolve? base.name entry.headerContext).bind (build index depth (key :: path))
          let inherited := (bases.filter fun base => base.tag = entry.element.tag).flatMap (·.members.entries)
          some {
            name := entry.name
            qualifiedName := entry.qualifiedName
            element := entry.element
            headerContext := entry.headerContext
            members := Table.insertAll (Table.insertAll ∅ inherited) entry.ownMembers }

/-- The type under a key, which is remembered from then on. No path is longer than the number of types, so the depth cuts nothing off. -/
def typeInfo (index : TypeIndex) (key : TypeKey) : Option TypeInfo × TypeIndex :=
  match index.build (index.types.size + 1) [] key with
  | some info =>
    (some info, if index.known.contains key then index else { index with known := index.known.insert key info })
  | none => (none, index)

def lookupType (index : TypeIndex) (name : String) (context : LookupContext) : Option TypeInfo × TypeIndex :=
  match index.resolve? name context with
  | some key => index.typeInfo key
  | none => (none, index)

def lookupTopLevel (index : TypeIndex) (qualifiedName project : String) : Option TypeInfo × TypeIndex :=
  match index.types.get? (project, qualifiedName) with
  | some entry => if entry.enclosing.isNone then index.typeInfo (project, qualifiedName) else (none, index)
  | none => (none, index)

/-- The index as a source of types. -/
def resolver : Resolver TypeIndex where
  lookupType name context index := index.lookupType name context
  lookupTopLevel qualifiedName project index := index.lookupTopLevel qualifiedName project
  expectedPackage? file index := (index.expectedPackages.get? file, index)
  qualifiedNames project index := (index.qualifiedNames project, index)

end TypeIndex

end NedCheck
