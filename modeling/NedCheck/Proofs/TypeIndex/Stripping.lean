import NedCheck.Proofs.Table
import NedCheck.Proofs.TypeIndex.Declarations

/-!
# Asides

Comments, properties, patterns, expressions, loops and conditions are asides: they stand in a file, but not for the type system. `Element.strip` takes them out of a tree, at every level and with all that is below them, and leaves the rest as it is. The members, types and indexes that are made of elements are stripped element by element.

An index does not tell a file from its stripped version. What a tree declares is not in an aside, and neither are the bases and members of a type, so the index of the stripped files is the stripped index, and a look-up there finds the stripped type.
-/

namespace NedCheck

/-- Whether elements of the kind say nothing about types. -/
def Tag.isAside : Tag → Bool
  | .comment | .property | .propertyDecl | .pattern | .expression | .loop | .condition => true
  | _ => false

theorem Tag.isAside_of_isTypeDeclaration {tag : Tag} (h : tag.isTypeDeclaration = true) : tag.isAside = false := by
  have all : ∀ tag ∈ Tag.all, tag.isTypeDeclaration = true → tag.isAside = false := by decide
  exact all tag (mem_all tag) h

/-! ### Elements -/

namespace Element

mutual

/-- The element without the asides below it. -/
def strip : Element → Element
  | ⟨id, tag, attributes, children, location, region⟩ => ⟨id, tag, attributes, stripAll children, location, region⟩

/-- The elements that are no asides, without the asides below them. -/
def stripAll : List Element → List Element
  | [] => []
  | e :: rest => if e.tag.isAside then stripAll rest else e.strip :: stripAll rest

end

theorem stripAll_eq (children : List Element) :
    stripAll children = (children.filter fun child => !child.tag.isAside).map strip := by
  induction children with
  | nil => rw [stripAll, List.filter_nil, List.map_nil]
  | cons child rest ih =>
    rw [stripAll, ih]
    cases haside : child.tag.isAside <;> simp [haside]

@[simp] theorem tag_strip (e : Element) : e.strip.tag = e.tag := by
  cases e
  rw [strip]

@[simp] theorem children_strip (e : Element) : e.strip.children = stripAll e.children := by
  cases e
  rw [strip]

@[simp] theorem value_strip (e : Element) (name : String) : e.strip.value name = e.value name := by
  cases e
  rw [strip]
  rfl

@[simp] theorem subject_strip (e : Element) : e.strip.subject = e.subject := by
  cases e
  rw [strip]
  rfl

@[simp] theorem line_strip (e : Element) : e.strip.line = e.line := by
  cases e
  rw [strip]
  rfl

@[simp] theorem describeLocation_strip (e : Element) : e.strip.describeLocation = e.describeLocation := by
  cases e
  rw [strip]
  rfl

@[simp] theorem name_strip (e : Element) : e.strip.name = e.name := e.value_strip "name"

@[simp] theorem gateType_strip (e : Element) : e.strip.gateType = e.gateType := by
  rw [gateType, value_strip, gateType]

@[simp] theorem paramType_strip (e : Element) : e.strip.paramType = e.paramType := by
  rw [paramType, value_strip, paramType]

@[simp] theorem isVector_strip (e : Element) : e.strip.isVector = e.isVector := by
  rw [isVector, value_strip, isVector]

@[simp] theorem isParamDeclaration_strip (e : Element) : e.strip.isParamDeclaration = e.isParamDeclaration := by
  rw [isParamDeclaration, tag_strip, paramType_strip, isParamDeclaration]

@[simp] theorem isGateDeclaration_strip (e : Element) : e.strip.isGateDeclaration = e.isGateDeclaration := by
  rw [isGateDeclaration, tag_strip, gateType_strip, isGateDeclaration]

/-! ### Children of some kind -/

/-- Children that are picked by what stripping leaves alone, and are no asides, are picked from the stripped children as well. -/
theorem filter_stripAll {pick : Element → Bool} (hstrip : ∀ d, pick d.strip = pick d)
    (hkept : ∀ d, pick d = true → d.tag.isAside = false) (children : List Element) :
    (stripAll children).filter pick = (children.filter pick).map strip := by
  have hsame : pick ∘ strip = pick := funext hstrip
  rw [stripAll_eq, List.filter_map, hsame, List.filter_filter]
  congr 1
  refine List.filter_congr fun d _ => ?_
  cases hpick : pick d with
  | false => rfl
  | true => simp [hkept d hpick]

theorem childrenWithTag_strip {tag : Tag} (htag : tag.isAside = false) (e : Element) :
    e.strip.childrenWithTag tag = (e.childrenWithTag tag).map strip := by
  rw [childrenWithTag, children_strip, childrenWithTag]
  refine filter_stripAll (fun d => ?_) (fun d hd => ?_) _
  · rw [tag_strip]
  · rw [of_decide_eq_true hd, htag]

theorem firstChild?_strip {tag : Tag} (htag : tag.isAside = false) (e : Element) :
    e.strip.firstChild? tag = (e.firstChild? tag).map strip := by
  have hhead (e : Element) : e.firstChild? tag = (e.childrenWithTag tag).head? := List.head?_filter.symm
  rw [hhead, hhead, childrenWithTag_strip htag, List.head?_map]

theorem typeDeclarations_stripAll (children : List Element) :
    (stripAll children).filter (·.tag.isTypeDeclaration) =
      (children.filter (·.tag.isTypeDeclaration)).map strip :=
  filter_stripAll (fun d => by rw [tag_strip]) (fun _ hd => Tag.isAside_of_isTypeDeclaration hd) children

@[simp] theorem packageName_strip (e : Element) : e.strip.packageName = e.packageName := by
  rw [packageName, firstChild?_strip rfl, Option.map_map, packageName]
  congr 2
  exact funext name_strip

@[simp] theorem importSpecs_strip (e : Element) : e.strip.importSpecs = e.importSpecs := by
  rw [importSpecs, childrenWithTag_strip rfl, List.map_map, importSpecs]
  congr 1
  exact funext fun d => d.value_strip "import-spec"

theorem sectionDeclarations_strip (part : Element) :
    part.strip.sectionDeclarations = part.sectionDeclarations.map strip := by
  have hparam (d : Element) (hd : d.isParamDeclaration = true) : d.tag.isAside = false := by
    simp only [isParamDeclaration, Bool.and_eq_true, decide_eq_true_eq] at hd
    rw [hd.1]
    rfl
  have hgate (d : Element) (hd : d.isGateDeclaration = true) : d.tag.isAside = false := by
    simp only [isGateDeclaration, Bool.and_eq_true, decide_eq_true_eq] at hd
    rw [hd.1]
    rfl
  unfold sectionDeclarations
  rw [tag_strip, children_strip]
  split
  · exact filter_stripAll isParamDeclaration_strip hparam part.children
  · exact filter_stripAll isGateDeclaration_strip hgate part.children
  · exact typeDeclarations_stripAll part.children
  · exact childrenWithTag_strip rfl part
  · rfl

theorem sectionDeclarations_of_isAside {part : Element} (h : part.tag.isAside = true) :
    part.sectionDeclarations = [] := by
  unfold sectionDeclarations
  split
  iterate 4
    rename_i htag
    rw [htag] at h
    cases h
  rfl

end Element

/-! ### Types -/

def Member.strip (member : Member) : Member := { member with element := member.element.strip }

def TypeInfo.strip (info : TypeInfo) : TypeInfo :=
  { info with element := info.element.strip, members := info.members.mapValues Member.strip }

def TypeEntry.strip (entry : TypeEntry) : TypeEntry := { entry with element := entry.element.strip }

def TypeIndex.strip (index : TypeIndex) : TypeIndex :=
  { index with types := index.types.mapValues TypeEntry.strip, known := index.known.mapValues TypeInfo.strip }

namespace Member

@[simp] theorem isParamDeclaration_strip (member : Member) : member.strip.isParamDeclaration = member.isParamDeclaration :=
  member.element.isParamDeclaration_strip

@[simp] theorem isGateDeclaration_strip (member : Member) : member.strip.isGateDeclaration = member.isGateDeclaration :=
  member.element.isGateDeclaration_strip

@[simp] theorem isSubmodule_strip (member : Member) : member.strip.isSubmodule = member.isSubmodule := by
  rw [isSubmodule, isSubmodule, strip, Element.tag_strip]

end Member

namespace TypeInfo

@[simp] theorem tag_strip (info : TypeInfo) : info.strip.tag = info.tag := info.element.tag_strip

@[simp] theorem member?_strip (info : TypeInfo) (name : String) :
    info.strip.member? name = (info.member? name).map Member.strip :=
  Table.get?_mapValues Member.strip info.members name

theorem strip_inherited (bases : List TypeInfo) (tag : Tag) :
    ((bases.map strip).filter fun base => base.tag = tag).flatMap (·.members.entries) =
      ((bases.filter fun base => base.tag = tag).flatMap (·.members.entries)).map fun member =>
        (member.1, member.2.strip) := by
  have htag : (fun base : TypeInfo => decide (base.tag = tag)) ∘ strip = fun base => decide (base.tag = tag) :=
    funext fun base => by rw [Function.comp_apply, tag_strip]
  rw [List.filter_map, htag, List.flatMap_map, List.map_flatMap]
  rfl

end TypeInfo

theorem TypeEntry.ownMembers_strip (entry : TypeEntry) :
    entry.strip.ownMembers = entry.ownMembers.map fun member => (member.1, member.2.strip) := by
  have hsections (children : List Element) : (Element.stripAll children).flatMap (·.sectionDeclarations) =
      (children.flatMap (·.sectionDeclarations)).map Element.strip := by
    induction children with
    | nil => rw [Element.stripAll, List.flatMap_nil, List.map_nil]
    | cons part rest ih =>
      rw [Element.stripAll, List.flatMap_cons, List.map_append]
      cases haside : part.tag.isAside with
      | true => simp [Element.sectionDeclarations_of_isAside haside, ih]
      | false => simp [Element.sectionDeclarations_strip, ih]
  have hparts := hsections entry.element.children
  rw [← Element.children_strip] at hparts
  unfold ownMembers
  rw [strip, hparts, List.map_map, List.map_map]
  congr 1
  funext d
  exact Prod.ext d.name_strip rfl

/-! ### What a file declares -/

namespace Element

theorem innerTypes_strip (e : Element) : e.strip.innerTypes = e.innerTypes.map strip := by
  rw [innerTypes, firstChild?_strip rfl, innerTypes]
  cases e.firstChild? .types with
  | none => rfl
  | some part =>
    simp only [Option.map_some, Option.getD_some, children_strip]
    exact typeDeclarations_stripAll part.children

theorem declarations_strip (file : String) (enclosing : Option String) (qualifiedName : String) (e : Element) :
    declarations file enclosing qualifiedName e.strip =
      (declarations file enclosing qualifiedName e).map TypeEntry.strip := by
  induction e using innerTypes_induction generalizing enclosing qualifiedName with
  | step e ih =>
    rw [declarations_eq, declarations_eq, innerTypes_strip, List.map_append, name_strip, List.flatMap_map, List.map_flatMap]
    congr 1
    refine List.flatMap_congr fun d hd => ?_
    rw [name_strip, ih d hd]

theorem fileDeclarations_strip (file : Element) :
    file.strip.fileDeclarations = file.fileDeclarations.map TypeEntry.strip := by
  rw [fileDeclarations, children_strip, typeDeclarations_stripAll, value_strip, packageName_strip, List.flatMap_map,
    fileDeclarations, List.map_flatMap]
  congr 1
  funext d
  rw [name_strip, declarations_strip]

end Element

/-! ### Indexes -/

namespace TypeIndex

variable (index : TypeIndex)

theorem strip_register (project : String) (entry : TypeEntry) :
    (index.register project entry).strip = index.strip.register project entry.strip := by
  simp only [strip, register, Table.mapValues_insert]
  rfl

theorem strip_addNedFile (project : String) (file : Element) :
    (index.addNedFile project file).strip = index.strip.addNedFile project file.strip := by
  have hregistered : file.strip.fileDeclarations.foldl (fun index entry => index.register project entry) index.strip =
      (file.fileDeclarations.foldl (fun index entry => index.register project entry) index).strip := by
    rw [Element.fileDeclarations_strip, List.foldl_map]
    exact List.foldl_hom strip fun index entry => (index.strip_register project entry).symm
  rw [addNedFile, addNedFile, hregistered, Element.value_strip, Element.packageName_strip, Element.importSpecs_strip]
  rfl

theorem strip_addFile (project : String) (root : Element) :
    (index.addFile project root).strip = index.strip.addFile project root.strip := by
  unfold addFile
  rw [Element.tag_strip]
  split
  · rw [Element.childrenWithTag_strip rfl, List.foldl_map]
    exact (List.foldl_hom strip fun index file => (index.strip_addNedFile project file).symm).symm
  · exact index.strip_addNedFile project root
  · rfl

/-! ### Look-ups -/

theorem get?_types_strip (key : TypeKey) : index.strip.types.get? key = (index.types.get? key).map TypeEntry.strip :=
  Table.get?_mapValues TypeEntry.strip index.types key

theorem outward_strip (project : String) (bound : Nat) (name : String) :
    index.strip.outward project bound name = index.outward project bound name := by
  induction bound generalizing name with
  | zero => rfl
  | succ bound ih =>
    rw [outward, outward, get?_types_strip]
    cases index.types.get? (project, name) with
    | none => rfl
    | some entry =>
      cases hentry : entry.enclosing <;> simp [TypeEntry.strip, hentry, ih]

theorem importedBy?_strip (project name spec : String) :
    index.strip.importedBy? project name spec = index.importedBy? project name spec := by
  unfold importedBy? strip Table.mapValues
  simp only [List.find?_map, Option.map_map]
  rfl

theorem candidates_strip (origin : Origin) (name : String) :
    index.strip.candidates origin name = index.candidates origin name := by
  have himported : index.strip.importedBy? = index.importedBy? := by
    funext project name spec
    exact index.importedBy?_strip project name spec
  have hfile : index.strip.fileCandidates = index.fileCandidates := by
    funext project name file
    cases file with
    | none => rfl
    | some file => rw [fileCandidates, fileCandidates, himported]
  have henclosed : index.strip.enclosedCandidates = index.enclosedCandidates := by
    funext project name type
    cases type with
    | none => rfl
    | some type => rw [enclosedCandidates, enclosedCandidates, outward_strip]
  rw [candidates, candidates, henclosed, hfile]

theorem origin?_strip (context : LookupContext) : index.strip.origin? context = index.origin? context := by
  cases context with
  | file name => rfl
  | type qualifiedName =>
    rw [origin?, origin?]
    refine Option.bind_congr fun project _ => ?_
    rw [get?_types_strip]
    cases index.types.get? (project, qualifiedName) <;> rfl

theorem resolve?_strip (name : String) (context : LookupContext) :
    index.strip.resolve? name context = index.resolve? name context := by
  have hcontains (key : TypeKey) : index.strip.types.contains key = index.types.contains key :=
    Table.contains_mapValues TypeEntry.strip index.types key
  rw [resolve?, resolve?, origin?_strip]
  cases index.origin? context with
  | none => rfl
  | some origin =>
    dsimp only
    rw [candidates_strip]
    simp only [hcontains]

theorem bases_strip (entry : TypeEntry) {find findStripped : TypeKey → Option TypeInfo}
    (hfind : ∀ key, findStripped key = (find key).map TypeInfo.strip) :
    (entry.strip.element.childrenWithTag .extendsName).filterMap (fun base =>
        (index.strip.resolve? base.name entry.strip.headerContext).bind findStripped) =
      ((entry.element.childrenWithTag .extendsName).filterMap fun base =>
        (index.resolve? base.name entry.headerContext).bind find).map TypeInfo.strip := by
  obtain rfl : findStripped = fun key => (find key).map TypeInfo.strip := funext hfind
  rw [TypeEntry.strip, Element.childrenWithTag_strip rfl, List.filterMap_map, List.map_filterMap]
  congr 1
  funext base
  rw [Function.comp_apply, Element.name_strip, resolve?_strip, Option.map_bind]
  rfl

/-- Bases and members are no asides, so what is worked out from stripped declarations is the stripped type. -/
theorem build_strip (depth : Nat) (path : List TypeKey) (key : TypeKey) :
    index.strip.build depth path key = (index.build depth path key).map TypeInfo.strip := by
  induction depth generalizing path key with
  | zero => rfl
  | succ depth ih =>
    have hknown : index.strip.known.get? key = (index.known.get? key).map TypeInfo.strip :=
      Table.get?_mapValues TypeInfo.strip index.known key
    rw [build, build, hknown, get?_types_strip]
    cases index.known.get? key with
    | some info => rfl
    | none =>
      cases index.types.get? key with
      | none => rfl
      | some entry =>
        simp only [Option.map_none, Option.map_some]
        split_ifs
        · rfl
        · have htag : entry.strip.element.tag = entry.element.tag := entry.element.tag_strip
          rw [index.bases_strip entry (ih (key :: path)), TypeInfo.strip_inherited, TypeEntry.ownMembers_strip, htag,
            Option.map_some, TypeInfo.strip]
          simp only [Table.mapValues_insertAll]
          rfl

theorem typeInfo_strip (key : TypeKey) :
    index.strip.typeInfo key = ((index.typeInfo key).1.map TypeInfo.strip, (index.typeInfo key).2.strip) := by
  have hsize : index.strip.types.size = index.types.size := Table.size_mapValues TypeEntry.strip index.types
  have hcontains : index.strip.known.contains key = index.known.contains key :=
    Table.contains_mapValues TypeInfo.strip index.known key
  rw [typeInfo, typeInfo, build_strip, hsize, hcontains]
  cases index.build (index.types.size + 1) [] key with
  | none => rfl
  | some info =>
    dsimp only [Option.map_some]
    split_ifs
    · rfl
    · simp only [strip, Table.mapValues_insert]

theorem lookupType_strip (name : String) (context : LookupContext) : index.strip.lookupType name context =
    ((index.lookupType name context).1.map TypeInfo.strip, (index.lookupType name context).2.strip) := by
  rw [lookupType, lookupType, resolve?_strip]
  cases index.resolve? name context with
  | none => rfl
  | some key => exact index.typeInfo_strip key

theorem lookupTopLevel_strip (qualifiedName project : String) : index.strip.lookupTopLevel qualifiedName project =
    ((index.lookupTopLevel qualifiedName project).1.map TypeInfo.strip,
      (index.lookupTopLevel qualifiedName project).2.strip) := by
  rw [lookupTopLevel, lookupTopLevel, get?_types_strip]
  cases index.types.get? (project, qualifiedName) with
  | none => rfl
  | some entry =>
    rw [Option.map_some]
    cases htop : entry.enclosing.isNone with
    | true => simpa [TypeEntry.strip, htop] using index.typeInfo_strip (project, qualifiedName)
    | false => simp [TypeEntry.strip, htop]

theorem qualifiedNames_strip (project : String) : index.strip.qualifiedNames project = index.qualifiedNames project := by
  unfold qualifiedNames strip Table.mapValues
  simp only [List.filter_map, List.map_map]
  rfl

end TypeIndex

end NedCheck
