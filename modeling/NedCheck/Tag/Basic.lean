import NedCheck.Table

/-!
# Element kinds

The kinds of element in NED and MSG files. A kind has a numeric code, the name it goes by in markup, and a readable name for messages; codes and names tell all kinds apart, so a kind can be looked up by either.
-/

namespace NedCheck

inductive Tag where
  | files
  | nedFile
  | comment
  | package
  | importDecl
  | propertyDecl
  | extendsName
  | interfaceName
  | simpleModule
  | moduleInterface
  | compoundModule
  | channelInterface
  | channel
  | parameters
  | param
  | pattern
  | property
  | propertyKey
  | gates
  | gate
  | types
  | submodules
  | submodule
  | connections
  | connection
  | channelSpec
  | connectionGroup
  | loop
  | condition
  | expression
  | operator
  | function
  | ident
  | literal
  | msgFile
  | namespaceDecl
  | cplusplus
  | structDecl
  | classDecl
  | messageDecl
  | packetDecl
  | enumDecl
  | enumType
  | enumFields
  | enumField
  | messageType
  | packetType
  | classType
  | structType
  | fields
  | field
  | unknown
deriving DecidableEq, Repr, Inhabited

namespace Tag

/-- Code, name and readable name of each kind. -/
def entry : Tag → Nat × String × String
  | .files => (1, "files", "files")
  | .nedFile => (2, "ned-file", "NED file")
  | .comment => (3, "comment", "comment")
  | .package => (4, "package", "package")
  | .importDecl => (5, "import", "import")
  | .propertyDecl => (6, "property-decl", "property declaration")
  | .extendsName => (7, "extends", "extends")
  | .interfaceName => (8, "interface-name", "interface name")
  | .simpleModule => (9, "simple-module", "simple module")
  | .moduleInterface => (10, "module-interface", "module interface")
  | .compoundModule => (11, "compound-module", "compound module")
  | .channelInterface => (12, "channel-interface", "channel interface")
  | .channel => (13, "channel", "channel")
  | .parameters => (14, "parameters", "parameters")
  | .param => (15, "param", "parameter")
  | .pattern => (16, "pattern", "pattern")
  | .property => (17, "property", "property")
  | .propertyKey => (18, "property-key", "property key")
  | .gates => (19, "gates", "gates")
  | .gate => (20, "gate", "gate")
  | .types => (21, "types", "types")
  | .submodules => (22, "submodules", "submodules")
  | .submodule => (23, "submodule", "submodule")
  | .connections => (24, "connections", "connections")
  | .connection => (25, "connection", "connection")
  | .channelSpec => (26, "channel-spec", "channel spec")
  | .connectionGroup => (27, "connection-group", "connection group")
  | .loop => (28, "loop", "loop")
  | .condition => (29, "condition", "condition")
  | .expression => (30, "expression", "expression")
  | .operator => (31, "operator", "operator")
  | .function => (32, "function", "function")
  | .ident => (33, "ident", "identifier")
  | .literal => (34, "literal", "literal")
  | .msgFile => (35, "msg-file", "MSG file")
  | .namespaceDecl => (36, "namespace", "namespace")
  | .cplusplus => (37, "cplusplus", "cplusplus block")
  | .structDecl => (38, "struct-decl", "struct declaration")
  | .classDecl => (39, "class-decl", "class declaration")
  | .messageDecl => (40, "message-decl", "message declaration")
  | .packetDecl => (41, "packet-decl", "packet declaration")
  | .enumDecl => (42, "enum-decl", "enum declaration")
  | .enumType => (43, "enum", "enum")
  | .enumFields => (44, "enum-fields", "enum fields")
  | .enumField => (45, "enum-field", "enum field")
  | .messageType => (46, "message", "message")
  | .packetType => (47, "packet", "packet")
  | .classType => (48, "class", "class")
  | .structType => (49, "struct", "struct")
  | .fields => (50, "fields", "fields")
  | .field => (51, "field", "field")
  | .unknown => (52, "unknown", "unknown element")

def code (tag : Tag) : Nat := tag.entry.1

/-- The name of the kind in markup. -/
def name (tag : Tag) : String := tag.entry.2.1

/-- The name of the kind in messages. -/
def readableName (tag : Tag) : String := tag.entry.2.2

/-- Every kind, in code order. -/
def all : List Tag :=
  [.files, .nedFile, .comment, .package, .importDecl, .propertyDecl, .extendsName, .interfaceName,
    .simpleModule, .moduleInterface, .compoundModule, .channelInterface, .channel, .parameters, .param,
    .pattern, .property, .propertyKey, .gates, .gate, .types, .submodules, .submodule, .connections,
    .connection, .channelSpec, .connectionGroup, .loop, .condition, .expression, .operator, .function,
    .ident, .literal, .msgFile, .namespaceDecl, .cplusplus, .structDecl, .classDecl, .messageDecl,
    .packetDecl, .enumDecl, .enumType, .enumFields, .enumField, .messageType, .packetType, .classType,
    .structType, .fields, .field, .unknown]

def ofCode? (code : Nat) : Option Tag := all.find? fun tag => tag.code = code

def ofName? (name : String) : Option Tag := all.find? fun tag => tag.name = name

theorem mem_all (tag : Tag) : tag ∈ all := by cases tag <;> decide

theorem all_map_code : all.map code = List.range' 1 52 := by decide

/-- No two kinds have the same name. -/
theorem nodup_names : (all.map name).Nodup := by decide +kernel

theorem ofCode?_eq_some_iff {code : Nat} {tag : Tag} : ofCode? code = some tag ↔ tag.code = code :=
  find?_eq_some_iff_of_forall_mem (all_map_code ▸ List.nodup_range' 1) mem_all

theorem ofName?_eq_some_iff {name : String} {tag : Tag} : ofName? name = some tag ↔ tag.name = name :=
  find?_eq_some_iff_of_forall_mem nodup_names mem_all

/-! ### Kinds with a role in the language -/

/-- Declarations of modules, channels and their interfaces. -/
def isTypeDeclaration : Tag → Bool
  | .simpleModule | .moduleInterface | .compoundModule | .channelInterface | .channel => true
  | _ => false

/-- Types a submodule can be made of. -/
def isModuleType : Tag → Bool
  | .simpleModule | .compoundModule => true
  | _ => false

/-- Module types and module interfaces, as opposed to channels and channel interfaces. -/
def isModuleLike : Tag → Bool
  | .simpleModule | .compoundModule | .moduleInterface => true
  | _ => false

end Tag

end NedCheck
