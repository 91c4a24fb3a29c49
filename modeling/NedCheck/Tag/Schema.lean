import NedCheck.Tag.Basic
import NedCheck.Value

/-!
# The element schema

What each kind of element may hold: its attributes, in order, and the kinds of its children. An attribute without a default is required. Elements of the unknown kind are allowed everywhere and hold anything.
-/

namespace NedCheck

/-- An attribute of a kind of element; without a default it is required. -/
structure AttributeSpec where
  name : String
  default : Option String
  kind : ValueKind
deriving DecidableEq, Repr

namespace AttributeSpec

/-- The value of an attribute nobody has set. -/
def initial (spec : AttributeSpec) : String := spec.default.getD ""

def required (name : String) : AttributeSpec := ⟨name, none, .text⟩

def optional (name : String) (kind : ValueKind) : AttributeSpec := ⟨name, some "", kind⟩

def text (name : String) : AttributeSpec := optional name .text

def flag (name : String) : AttributeSpec := ⟨name, some "false", .flag⟩

end AttributeSpec

namespace Tag

open AttributeSpec in
/-- The attributes of each kind, in the order of their positions. -/
def attributes : Tag → List AttributeSpec
  | .files | .gates | .types | .submodules | .connectionGroup | .enumFields | .fields => []
  | .nedFile | .msgFile => [text "filename", ⟨"version", some "2", .text⟩]
  | .comment => [required "locid", text "content"]
  | .importDecl => [required "import-spec"]
  | .propertyDecl => [required "name", flag "is-array"]
  | .package | .extendsName | .interfaceName | .simpleModule | .moduleInterface | .compoundModule
  | .channelInterface | .channel | .operator | .function | .namespaceDecl | .structDecl | .messageDecl
  | .packetDecl | .enumDecl => [required "name"]
  | .parameters => [flag "is-implicit"]
  | .param =>
    [optional "type" .paramType, flag "is-volatile", required "name", text "value", flag "is-pattern",
      flag "is-default"]
  | .pattern => [required "pattern", text "value", flag "is-default"]
  | .property => [flag "is-implicit", required "name", text "index"]
  | .propertyKey => [text "name"]
  | .gate => [required "name", optional "type" .gateType, flag "is-vector", text "vector-size"]
  | .submodule => [required "name", text "type", text "like-type", text "like-param", text "vector-size"]
  | .connections => [flag "allow-unconnected"]
  | .connection =>
    [text "src-module", text "src-module-index", required "src-gate", flag "src-gate-plusplus",
      text "src-gate-index", optional "src-gate-subg" .subgate, text "dest-module",
      text "dest-module-index", required "dest-gate", flag "dest-gate-plusplus", text "dest-gate-index",
      optional "dest-gate-subg" .subgate, ⟨"arrow-direction", none, .arrow⟩]
  | .channelSpec => [text "type", text "like-type", text "like-param"]
  | .loop => [required "param-name", text "from-value", text "to-value"]
  | .condition => [text "condition"]
  | .expression => [text "target"]
  | .ident => [text "module", text "module-index", required "name"]
  | .literal => [required "type", text "unit", text "text", text "value"]
  | .cplusplus => [required "body"]
  | .classDecl => [required "name", flag "is-cobject"]
  | .enumType | .messageType | .packetType | .classType | .structType =>
    [required "name", text "extends-name", text "source-code"]
  | .enumField => [required "name", text "value"]
  | .field =>
    [required "name", text "data-type", flag "is-abstract", flag "is-readonly", flag "is-vector",
      text "vector-size", text "default-value"]
  | .unknown => [required "element"]

/-- The position of the named attribute. -/
def attributeIndex? (tag : Tag) (name : String) : Option Nat :=
  tag.attributes.findIdx? fun spec => spec.name = name

/-- What an attribute takes goes by its name, and for some by the kind of its element. -/
def valueKind (tag : Tag) (name : String) : ValueKind :=
  if "is-".toList.isPrefixOf name.toList || "-plusplus".toList.isSuffixOf name.toList ||
      name = "allow-unconnected" then .flag
  else if "-subg".toList.isSuffixOf name.toList then .subgate
  else match tag, name with
    | .gate, "type" => .gateType
    | .param, "type" => .paramType
    | .connection, "arrow-direction" => .arrow
    | _, _ => .text

/-- The kinds in the table are those that go by the names. -/
theorem kind_eq_valueKind {tag : Tag} {spec : AttributeSpec} (h : spec ∈ tag.attributes) :
    spec.kind = tag.valueKind spec.name := by
  have all : ∀ tag ∈ Tag.all, ∀ spec ∈ tag.attributes, spec.kind = tag.valueKind spec.name := by
    decide +kernel
  exact all tag (mem_all tag) spec h

/-- No kind has two attributes of one name. -/
theorem attributes_names_nodup (tag : Tag) : (tag.attributes.map (·.name)).Nodup := by
  cases tag <;> decide

/-- A default is always one of the values of its attribute. -/
theorem accepts_default {tag : Tag} {spec : AttributeSpec} {value : String} (h : spec ∈ tag.attributes)
    (hdefault : spec.default = some value) : spec.kind.accepts value = true := by
  have all : ∀ tag ∈ Tag.all, ∀ spec ∈ tag.attributes,
      spec.default.all spec.kind.accepts = true := by decide
  have haccepts := all tag (mem_all tag) spec h
  rwa [hdefault] at haccepts

/-! ### Children -/

/-- The kinds of children each kind names. Unknown elements are allowed besides, see `allows`. -/
def allowedChildren : Tag → List Tag
  | .files => [.nedFile, .msgFile]
  | .nedFile =>
    [.comment, .package, .importDecl, .propertyDecl, .property, .simpleModule, .moduleInterface,
      .compoundModule, .channelInterface, .channel]
  | .comment | .literal => []
  | .package | .importDecl | .extendsName | .interfaceName | .namespaceDecl | .cplusplus | .structDecl
  | .classDecl | .messageDecl | .packetDecl | .enumDecl | .enumField => [.comment]
  | .propertyDecl => [.comment, .propertyKey, .property]
  | .simpleModule => [.comment, .extendsName, .interfaceName, .parameters, .gates]
  | .moduleInterface => [.comment, .extendsName, .parameters, .gates]
  | .compoundModule =>
    [.comment, .extendsName, .interfaceName, .parameters, .gates, .types, .submodules, .connections]
  | .channelInterface => [.comment, .extendsName, .parameters]
  | .channel => [.comment, .extendsName, .interfaceName, .parameters]
  | .parameters => [.comment, .property, .param, .pattern]
  | .param | .pattern | .gate => [.comment, .expression, .property]
  | .property => [.comment, .propertyKey]
  | .propertyKey => [.comment, .literal]
  | .gates => [.comment, .gate]
  | .types => [.comment, .simpleModule, .moduleInterface, .compoundModule, .channelInterface, .channel]
  | .submodules => [.comment, .submodule]
  | .submodule => [.comment, .expression, .parameters, .gates]
  | .connections => [.comment, .connection, .connectionGroup]
  | .connection => [.comment, .expression, .channelSpec, .loop, .condition]
  | .channelSpec => [.comment, .expression, .parameters]
  | .connectionGroup => [.comment, .loop, .condition, .connection]
  | .loop | .condition => [.comment, .expression]
  | .expression | .operator | .function | .ident => [.comment, .operator, .function, .ident, .literal]
  | .msgFile =>
    [.comment, .namespaceDecl, .propertyDecl, .property, .cplusplus, .structDecl, .classDecl,
      .messageDecl, .packetDecl, .enumDecl, .structType, .classType, .messageType, .packetType,
      .enumType]
  | .enumType => [.comment, .enumFields]
  | .enumFields => [.comment, .enumField]
  | .messageType | .packetType | .classType | .structType => [.comment, .property, .fields]
  | .fields => [.comment, .field]
  | .field => [.comment, .property]
  | .unknown => all

/-- Whether a child of the given kind may stand directly under this kind. -/
def allows (tag child : Tag) : Bool := child = .unknown || tag.allowedChildren.contains child

/-- Sections, of which a parent has at most one each. -/
def isSingleton : Tag → Bool
  | .package | .parameters | .gates | .types | .submodules | .connections | .channelSpec | .enumFields
  | .fields => true
  | _ => false

end Tag

end NedCheck
